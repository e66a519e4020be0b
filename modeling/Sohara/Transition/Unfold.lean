import Mathlib.Data.List.Basic

/-! # Unfolded streams

A stream is unfolded from a state: its function yields an item and the next state, or ends the
stream, or fails, which ends the stream as well once the error has been given out. Polled again
after its end, a stream stays ended.
-/

namespace Transition

variable {σ α ε : Type}

/-- What the function of a stream comes to from a state. -/
inductive Advance (σ α ε : Type) where
  | yielded (item : α) (next : σ)
  | finished
  | failed (error : ε)
  /-- It waits for something that does not come. -/
  | waiting (state : σ)

/-- What a poll of a stream gives. -/
inductive StreamPoll (α ε : Type) where
  | ready (item : Except ε α)
  | ended
  | pending

/-- Polls a stream, whose state is gone once it has ended. -/
def pollNext (advance : σ → Advance σ α ε) : Option σ → StreamPoll α ε × Option σ
  | none => (.ended, none)
  | some state =>
      match advance state with
      | .yielded item next => (.ready (.ok item), some next)
      | .finished => (.ended, none)
      | .failed error => (.ready (.error error), none)
      | .waiting state => (.pending, some state)

/-- What the poll of a number gives; the first is number zero. -/
def pollAt (advance : σ → Advance σ α ε) : Nat → Option σ → StreamPoll α ε
  | 0, stream => (pollNext advance stream).1
  | index + 1, stream => pollAt advance index (pollNext advance stream).2

/-- **What a stream gives out**: these items in this order, one with each poll, and then the same
answer for ever. -/
def Streams (advance : σ → Advance σ α ε) (stream : Option σ) (items : List (Except ε α))
    (ending : StreamPoll α ε) : Prop :=
  ∀ index, pollAt advance index stream = (items[index]?.map StreamPoll.ready).getD ending

variable {advance : σ → Advance σ α ε} {state next : σ} {items : List (Except ε α)}
  {ending : StreamPoll α ε} {item : α} {error : ε}

namespace Streams

/-- The last answer, given for ever by a stream that stays as it is. -/
theorem silent {stream : Option σ} (polled : pollNext advance stream = (ending, stream)) :
    Streams advance stream [] ending := by
  intro index
  induction index with
  | zero => rw [pollAt, polled]; rfl
  | succ index ih => rw [pollAt, polled, ih]; rfl

/-- An answer, and the answers after it. -/
theorem cons {stream rest : Option σ} {first : Except ε α}
    (polled : pollNext advance stream = (.ready first, rest))
    (later : Streams advance rest items ending) :
    Streams advance stream (first :: items) ending := by
  intro index
  cases index with
  | zero => rw [pollAt, polled]; rfl
  | succ index => rw [pollAt, polled, later index, List.getElem?_cons_succ]

theorem yielded (advanced : advance state = .yielded item next)
    (later : Streams advance (some next) items ending) :
    Streams advance (some state) (.ok item :: items) ending :=
  cons (by rw [pollNext, advanced]) later

theorem failed (advanced : advance state = .failed error) :
    Streams advance (some state) [.error error] .ended :=
  cons (by rw [pollNext, advanced]) (silent rfl)

theorem finished (advanced : advance state = .finished) :
    Streams advance (some state) [] .ended := by
  have ended : Streams advance none [] .ended := silent rfl
  intro index
  cases index with
  | zero => rw [pollAt, pollNext, advanced]; rfl
  | succ index => rw [pollAt, pollNext, advanced]; exact ended index

/-- A stream that waits goes on waiting. -/
theorem waiting (advanced : advance state = .waiting next)
    (still : advance next = .waiting next) : Streams advance (some state) [] .pending := by
  have waits : Streams advance (some next) [] .pending := silent (by rw [pollNext, still])
  intro index
  cases index with
  | zero => rw [pollAt, pollNext, advanced]; rfl
  | succ index => rw [pollAt, pollNext, advanced]; exact waits index

/-- States from which the function comes to the same give the same stream. -/
theorem of_eq (same : advance state = advance next)
    (streams : Streams advance (some next) items ending) :
    Streams advance (some state) items ending := by
  intro index
  rw [← streams index]
  cases index with
  | zero => rw [pollAt, pollAt, pollNext, pollNext, same]
  | succ index => rw [pollAt, pollAt, pollNext, pollNext, same]

end Streams

end Transition
