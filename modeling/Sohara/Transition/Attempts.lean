import Sohara.Core.Except

/-! # Attempts

Steps that change a state and may fail are made one after the other, up to the first that fails.
What the steps before it have changed stays.
-/

namespace Transition

variable {ε σ E : Type}

/-- Makes steps up to the first that fails. -/
def attempt (step : σ → E → σ × Except ε Unit) : List E → σ → σ × Except ε Unit
  | [], state => (state, .ok ())
  | entry :: rest, state =>
      match step state entry with
      | (after, .ok _) => attempt step rest after
      | (after, .error error) => (after, .error error)

/-- A step that changes a state does what a step to a new state says. -/
structure Mirrors (step : σ → E → σ × Except ε Unit) (pure : σ → E → Except ε σ) : Prop where
  ok : ∀ {state entry after}, step state entry = (after, .ok ()) → pure state entry = .ok after
  error : ∀ {state entry after error}, step state entry = (after, .error error) →
    pure state entry = .error error

variable {step : σ → E → σ × Except ε Unit} {pure : σ → E → Except ε σ} {entries : List E}
  {start last : σ} {error : ε}

theorem attempt_append (first second : List E) (start : σ) :
    attempt step (first ++ second) start =
      match attempt step first start with
      | (after, .ok _) => attempt step second after
      | (after, .error error) => (after, .error error) := by
  induction first generalizing start with
  | nil => rfl
  | cons entry rest ih =>
      rw [List.cons_append, attempt, attempt]
      obtain ⟨after, result⟩ := step start entry
      cases result with
      | ok => exact ih after
      | error => rfl

/-- **Where attempts fail**: the steps before the one that fails succeed, and it has the last
word. -/
theorem exists_failure (failed : attempt step entries start = (last, .error error)) :
    ∃ before entry after state, entries = before ++ entry :: after ∧
      attempt step before start = (state, .ok ()) ∧ step state entry = (last, .error error) := by
  induction entries generalizing start with
  | nil => cases failed
  | cons entry rest ih =>
      rw [attempt] at failed
      cases stepped : step start entry with
      | mk after result =>
          rw [stepped] at failed
          cases result with
          | ok =>
              obtain ⟨before, other, later, state, split, succeeds, fails⟩ := ih failed
              refine ⟨entry :: before, other, later, state, ?_, ?_, fails⟩
              · rw [split]
                rfl
              · rw [attempt, stepped]
                exact succeeds
          | error => exact ⟨[], entry, rest, start, rfl, rfl, stepped.trans failed⟩

namespace Mirrors

theorem attempt_ok (mirrors : Mirrors step pure)
    (succeeds : attempt step entries start = (last, .ok ())) :
    entries.foldlM pure start = .ok last := by
  induction entries generalizing start with
  | nil =>
      cases succeeds
      rfl
  | cons entry rest ih =>
      rw [attempt] at succeeds
      cases stepped : step start entry with
      | mk after result =>
          rw [stepped] at succeeds
          cases result with
          | ok =>
              rw [List.foldlM_cons, mirrors.ok stepped]
              exact ih succeeds
          | error => cases succeeds

theorem attempt_error (mirrors : Mirrors step pure)
    (failed : attempt step entries start = (last, .error error)) :
    entries.foldlM pure start = .error error := by
  induction entries generalizing start with
  | nil => cases failed
  | cons entry rest ih =>
      rw [attempt] at failed
      cases stepped : step start entry with
      | mk after result =>
          rw [stepped] at failed
          cases result with
          | ok =>
              rw [List.foldlM_cons, mirrors.ok stepped]
              exact ih failed
          | error =>
              cases failed
              rw [List.foldlM_cons, mirrors.error stepped]
              rfl

end Mirrors

end Transition
