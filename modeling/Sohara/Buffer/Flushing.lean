import Mathlib.Logic.Basic

/-! # Flushing a buffer

A flush moves what is in a buffer to a medium and may fail on the way. It fails atomically
when a failure leaves the buffer and the medium alone, so that it can be tried again. One
that takes the buffer before the work cannot: it fails atomically only where it does not
fail.
-/

namespace Flushing

variable {σ α ε : Type} {flush : σ → Except ε Unit × σ} {buffer : σ → List α} {state : σ}

/-- A failing flush leaves everything as it was. -/
def FailsAtomically (flush : σ → Except ε Unit × σ) (state : σ) : Prop :=
  ∀ error after, flush state = (.error error, after) → after = state

/-- The buffer is taken before the work, and there is no work without it. -/
structure TakesFirst (flush : σ → Except ε Unit × σ) (buffer : σ → List α) : Prop where
  taken : ∀ state, buffer (flush state).2 = []
  idle : ∀ state, buffer state = [] → (flush state).1 = .ok ()

theorem failsAtomically_of_ok (succeeds : (flush state).1 = .ok ()) :
    FailsAtomically flush state := by
  intro error after fails
  rw [fails] at succeeds
  cases succeeds

/-- **Taking first is never atomic in failure.** -/
theorem TakesFirst.failsAtomically_iff (takes : TakesFirst flush buffer) :
    FailsAtomically flush state ↔ (flush state).1 = .ok () := by
  refine ⟨fun atomic => ?_, failsAtomically_of_ok⟩
  cases result : (flush state).1 with
  | ok done => rfl
  | error error =>
      have same : (flush state).2 = state := atomic error _ (Prod.ext result rfl)
      have empty : buffer state = [] := same ▸ takes.taken state
      exact result.symm.trans (takes.idle state empty)

end Flushing
