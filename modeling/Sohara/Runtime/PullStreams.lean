import Sohara.Runtime.Extensions
import Sohara.Transition.Unfold

/-! # Pull streams of extensions

A source or trigger that an extension serves is pulled in batches by the stream of the step,
under the lock of its client. A client is spawned when the slot is empty, and dropped when a
request fails. The records of the batches are yielded in order, up to the batch that is done;
an error is yielded once, after the records of the batches before it.
-/

namespace Sohara

open Transition

/-- The slot that holds the client of an extension, as the number of its process, and how many
processes have been spawned for it. -/
structure ClientSlot where
  client : Option Nat := none
  spawned : Nat := 0
  deriving DecidableEq, Repr

/-- What a section under the lock is answered: how the spawn goes, when there has to be one, and
how the request goes. -/
structure Answer (α : Type) where
  spawn : Except Error Unit
  response : Except Error α

namespace ClientSlot

variable {α : Type}

/-- The process of the client, spawned when there is none. -/
def ensureAsyncClient (slot : ClientSlot) (spawn : Except Error Unit) :
    ClientSlot × Except Error Nat :=
  match slot.client with
  | some process => (slot, .ok process)
  | none =>
      match spawn with
      | .ok _ =>
          ({ client := some slot.spawned, spawned := slot.spawned + 1 }, .ok slot.spawned)
      | .error error => ({ slot with spawned := slot.spawned + 1 }, .error error)

/-- Drops the client. -/
def resetAsyncClient (slot : ClientSlot) : ClientSlot := { slot with client := none }

/-- A request to the client; when it fails, the client is dropped. -/
def request (slot : ClientSlot) (answer : Answer α) : ClientSlot × Except Error α :=
  match slot.ensureAsyncClient answer.spawn with
  | (slot, .error error) => (slot, .error error)
  | (slot, .ok _) =>
      match answer.response with
      | .ok result => (slot, .ok result)
      | .error error => (slot.resetAsyncClient, .error error)

end ClientSlot

/-- A batch of records, and whether it is the last. -/
structure PullResult where
  records : List Record
  done : Bool

/-- An error of an extension that is served asynchronously. -/
def asyncError (spec : AsyncSpec) (message : String) : Error :=
  match spec.kind with
  | .source | .trigger => .source message
  | .transform => .transform message
  | .sink => .sink message

/-- The error of a source that has neither records nor an end. -/
def noRecords (spec : AsyncSpec) : Error :=
  asyncError spec ("extension '" ++ spec.extensionName ++
    "' returned no records and done=false for source.pull")

/-- Pulls a batch under the lock. An empty batch that is not the last is an error, which drops the
client, or it is skipped. -/
def pull (onEmpty : Option Error) (slot : ClientSlot) (answer : Answer PullResult) :
    ClientSlot × Except Error (Option PullResult) :=
  match slot.request answer with
  | (slot, .error error) => (slot, .error error)
  | (slot, .ok pulled) =>
      if !pulled.done && pulled.records.isEmpty then
        match onEmpty with
        | some error => (slot.resetAsyncClient, .error error)
        | none => (slot, .ok none)
      else (slot, .ok (some pulled))

/-- The state of a source or trigger stream. -/
structure PullState where
  client : ClientSlot
  buffered : List Record := []
  finished : Bool := false

/-- The next record, given what the pulls to come are answered. -/
def nextRecord (onEmpty : Option Error) (answers : List (Answer PullResult)) (state : PullState) :
    Advance (PullState × List (Answer PullResult)) Record Error :=
  match state.buffered with
  | record :: rest => .yielded record ({ state with buffered := rest }, answers)
  | [] =>
      if state.finished then .finished
      else
        match answers with
        | [] => .waiting (state, [])
        | answer :: answers =>
            match pull onEmpty state.client answer with
            | (_, .error error) => .failed error
            | (client, .ok none) => nextRecord onEmpty answers { state with client := client }
            | (client, .ok (some pulled)) =>
                nextRecord onEmpty answers ⟨client, pulled.records, pulled.done⟩

/-- The next record of a source. -/
def nextSourceRecord (spec : AsyncSpec) :
    PullState × List (Answer PullResult) → Advance (PullState × List (Answer PullResult)) Record
      Error :=
  fun (state, answers) => nextRecord (some (noRecords spec)) answers state

/-- The next record of a trigger. -/
def nextTriggerRecord :
    PullState × List (Answer PullResult) → Advance (PullState × List (Answer PullResult)) Record
      Error :=
  fun (state, answers) => nextRecord none answers state

/-- The stream of a source. -/
def SourceStreams (spec : AsyncSpec) (slot : ClientSlot) (answers : List (Answer PullResult)) :
    List (Except Error Record) → StreamPoll Record Error → Prop :=
  Streams (nextSourceRecord spec) (some (⟨slot, [], false⟩, answers))

/-- The stream of a trigger. -/
def TriggerStreams (slot : ClientSlot) (answers : List (Answer PullResult)) :
    List (Except Error Record) → StreamPoll Record Error → Prop :=
  Streams nextTriggerRecord (some (⟨slot, [], false⟩, answers))

/-- The results of the pulls, in turn. -/
def pullResults (slot : ClientSlot) : List (Answer PullResult) → List (Except Error PullResult)
  | [] => []
  | answer :: answers =>
      (slot.request answer).2 :: pullResults (slot.request answer).1 answers

/-- The records of the results, in order. -/
def pulledRecords (results : List (Except Error PullResult)) : List Record :=
  results.flatMap fun result =>
    match result with
    | .ok pulled => pulled.records
    | .error _ => []

/-- A result after which a stream goes on pulling: a batch that is not the last, and is not empty
where that is an error. -/
def GoesOn (onEmpty : Option Error) (result : Except Error PullResult) : Prop :=
  ∃ records, result = .ok ⟨records, false⟩ ∧ (records = [] → onEmpty = none)

section Pulling

variable {onEmpty : Option Error} {slot : ClientSlot} {answer : Answer PullResult}
  {answers : List (Answer PullResult)} {items : List (Except Error Record)}
  {ending : StreamPoll Record Error} {records : List Record} {done : Bool} {error : Error}

/-- The streams of sources and triggers, from any state. -/
def PullsFrom (onEmpty : Option Error) (state : PullState) (answers : List (Answer PullResult)) :
    List (Except Error Record) → StreamPoll Record Error → Prop :=
  Streams (fun (state, answers) => nextRecord onEmpty answers state) (some (state, answers))

variable (records) in
/-- The buffered records come first. -/
theorem pullsFrom_buffered {finished : Bool}
    (later : PullsFrom onEmpty ⟨slot, [], finished⟩ answers items ending) :
    PullsFrom onEmpty ⟨slot, records, finished⟩ answers (records.map .ok ++ items) ending := by
  induction records with
  | nil => exact later
  | cons record rest ih =>
      refine Streams.yielded ?_ ih
      unfold nextRecord
      rfl

/-- A batch that is taken is buffered. -/
theorem nextRecord_of_ok (pulled : (slot.request answer).2 = .ok ⟨records, done⟩)
    (taken : records = [] → done = true ∨ onEmpty = none) :
    nextRecord onEmpty (answer :: answers) ⟨slot, [], false⟩ =
      nextRecord onEmpty answers ⟨(slot.request answer).1, records, done⟩ := by
  rw [nextRecord]
  unfold pull
  generalize slot.request answer = requested at pulled ⊢
  obtain ⟨client, result⟩ := requested
  cases pulled
  by_cases skipped : done = false ∧ records = []
  · obtain ⟨rfl, rfl⟩ := skipped
    rcases taken rfl with last | skips
    · cases last
    · subst skips
      rfl
  · have some_ : (!done && records.isEmpty) = false := by
      rw [Bool.eq_false_iff]
      intro both
      rw [Bool.and_eq_true, Bool.not_eq_true', List.isEmpty_iff] at both
      exact skipped both
    simp only [some_]
    rfl

/-- A failed request ends the stream. -/
theorem nextRecord_of_error (pulled : (slot.request answer).2 = .error error) :
    nextRecord onEmpty (answer :: answers) ⟨slot, [], false⟩ = .failed error := by
  rw [nextRecord]
  unfold pull
  generalize slot.request answer = requested at pulled ⊢
  obtain ⟨client, result⟩ := requested
  cases pulled
  rfl

/-- So does an empty batch, where it is an error. -/
theorem nextRecord_of_empty (pulled : (slot.request answer).2 = .ok ⟨[], false⟩) :
    nextRecord (some error) (answer :: answers) ⟨slot, [], false⟩ = .failed error := by
  rw [nextRecord]
  unfold pull
  generalize slot.request answer = requested at pulled ⊢
  obtain ⟨client, result⟩ := requested
  cases pulled
  rfl

/-- The records of the batches before come first, whatever the stream comes to after them. -/
theorem pullsFrom_results {before after : List (Except Error PullResult)}
    (goesOn : ∀ result ∈ before, GoesOn onEmpty result)
    (split : pullResults slot answers = before ++ after)
    (later : ∀ slot answers, pullResults slot answers = after →
      PullsFrom onEmpty ⟨slot, [], false⟩ answers items ending) :
    PullsFrom onEmpty ⟨slot, [], false⟩ answers
      ((pulledRecords before).map .ok ++ items) ending := by
  induction before generalizing slot answers with
  | nil => exact later slot answers split
  | cons result before ih =>
      cases answers with
      | nil => cases split
      | cons answer answers =>
          obtain ⟨first, rest⟩ := List.cons.inj split
          obtain ⟨records, rfl, taken⟩ := goesOn result List.mem_cons_self
          have tail := ih (fun other member => goesOn other (List.mem_cons_of_mem _ member)) rest
          have all := pullsFrom_buffered records tail
          rw [← List.append_assoc, ← List.map_append] at all
          exact Streams.of_eq (nextRecord_of_ok first fun none_ => .inr (taken none_)) all

/-- The batch that is done ends the stream after its records. -/
theorem pullsFrom_done {after : List (Except Error PullResult)}
    (split : pullResults slot answers = .ok ⟨records, true⟩ :: after) :
    PullsFrom onEmpty ⟨slot, [], false⟩ answers (records.map .ok) .ended := by
  cases answers with
  | nil => cases split
  | cons answer answers =>
      obtain ⟨first, -⟩ := List.cons.inj split
      have ended : PullsFrom onEmpty ⟨(slot.request answer).1, [], true⟩ answers [] .ended :=
        Streams.finished (by unfold nextRecord; rfl)
      have all := pullsFrom_buffered records ended
      rw [List.append_nil] at all
      exact Streams.of_eq (nextRecord_of_ok first fun _ => .inl rfl) all

/-- An error is yielded once. -/
theorem pullsFrom_error {after : List (Except Error PullResult)}
    (split : pullResults slot answers = .error error :: after) :
    PullsFrom onEmpty ⟨slot, [], false⟩ answers [.error error] .ended := by
  cases answers with
  | nil => cases split
  | cons answer answers =>
      exact Streams.failed (nextRecord_of_error (List.cons.inj split).1)

/-- An empty batch that is not the last is an error where it is not skipped. -/
theorem pullsFrom_empty {after : List (Except Error PullResult)}
    (split : pullResults slot answers = .ok ⟨[], false⟩ :: after) :
    PullsFrom (some error) ⟨slot, [], false⟩ answers [.error error] .ended := by
  cases answers with
  | nil => cases split
  | cons answer answers =>
      exact Streams.failed (nextRecord_of_empty (List.cons.inj split).1)

/-- Without a further answer the stream waits. -/
theorem pullsFrom_nil (split : pullResults slot answers = []) :
    PullsFrom onEmpty ⟨slot, [], false⟩ answers [] .pending := by
  cases answers with
  | nil => exact Streams.waiting (by unfold nextRecord; rfl) (by unfold nextRecord; rfl)
  | cons answer answers => cases split

/-- Results are batches that go on, up to one that does not. -/
theorem exists_goesOn_split (onEmpty : Option Error) (results : List (Except Error PullResult)) :
    ∃ before, (∀ result ∈ before, GoesOn onEmpty result) ∧
      (results = before ∨
        ∃ last after, results = before ++ last :: after ∧ ¬ GoesOn onEmpty last) := by
  induction results with
  | nil => exact ⟨[], List.forall_mem_nil _, .inl rfl⟩
  | cons result rest ih =>
      by_cases goesOn : GoesOn onEmpty result
      · obtain ⟨before, all, ends⟩ := ih
        refine ⟨result :: before, List.forall_mem_cons.mpr ⟨goesOn, all⟩, ?_⟩
        rcases ends with rfl | ⟨last, after, rfl, stops⟩
        · exact .inl rfl
        · exact .inr ⟨last, after, rfl, stops⟩
      · exact ⟨[], List.forall_mem_nil _, .inr ⟨result, rest, rfl, goesOn⟩⟩

end Pulling

/-- **What a pull stream delivers**: the records of the batches that go on, in order. Then the
batch that is done gives its records and ends the stream; an error, which is an empty batch as
well where it is not skipped, is given once and ends it; and without a further result it
waits. -/
def PullsDeliver (streams : List (Except Error Record) → StreamPoll Record Error → Prop)
    (onEmpty : Option Error) (results : List (Except Error PullResult)) : Prop :=
  ∃ before, (∀ result ∈ before, GoesOn onEmpty result) ∧
    ((∃ records after, results = before ++ .ok ⟨records, true⟩ :: after ∧
        streams ((pulledRecords before ++ records).map .ok) .ended) ∨
      (∃ error after, (results = before ++ .error error :: after ∨
          results = before ++ .ok ⟨[], false⟩ :: after ∧ onEmpty = some error) ∧
        streams ((pulledRecords before).map .ok ++ [.error error]) .ended) ∨
      (results = before ∧ streams ((pulledRecords before).map .ok) .pending))

theorem delivered_pullsFrom (onEmpty : Option Error) (slot : ClientSlot)
    (answers : List (Answer PullResult)) :
    PullsDeliver (PullsFrom onEmpty ⟨slot, [], false⟩ answers) onEmpty
      (pullResults slot answers) := by
  obtain ⟨before, goesOn, whole | ⟨last, after, split, stops⟩⟩ :=
    exists_goesOn_split onEmpty (pullResults slot answers)
  · refine ⟨before, goesOn, .inr (.inr ⟨whole, ?_⟩)⟩
    have all := pullsFrom_results goesOn (whole.trans (List.append_nil _).symm)
      fun _ _ none_ => pullsFrom_nil none_
    rwa [List.append_nil] at all
  · refine ⟨before, goesOn, ?_⟩
    cases last with
    | error error =>
        exact .inr (.inl ⟨error, after, .inl split, pullsFrom_results goesOn split
          fun _ _ rest => pullsFrom_error rest⟩)
    | ok pulled =>
        obtain ⟨records, done⟩ := pulled
        cases done with
        | true =>
            refine .inl ⟨records, after, split, ?_⟩
            rw [List.map_append]
            exact pullsFrom_results goesOn split fun _ _ rest => pullsFrom_done rest
        | false =>
            have empty : records = [] := by
              by_contra some_
              exact stops ⟨records, rfl, fun none_ => absurd none_ some_⟩
            subst empty
            cases onEmpty with
            | none => exact absurd ⟨[], rfl, fun _ => rfl⟩ stops
            | some error =>
                exact .inr (.inl ⟨error, after, .inr ⟨split, rfl⟩, pullsFrom_results goesOn split
                  fun _ _ rest => pullsFrom_empty rest⟩)

/-- **Pull streams lose and repeat nothing**, whatever the extension answers. For a source an
empty batch that is not done is an error; a trigger skips it. -/
theorem pull_streams (spec : AsyncSpec) (slot : ClientSlot) (answers : List (Answer PullResult)) :
    PullsDeliver (SourceStreams spec slot answers) (some (noRecords spec))
        (pullResults slot answers) ∧
      PullsDeliver (TriggerStreams slot answers) none (pullResults slot answers) :=
  ⟨delivered_pullsFrom _ slot answers, delivered_pullsFrom _ slot answers⟩

end Sohara
