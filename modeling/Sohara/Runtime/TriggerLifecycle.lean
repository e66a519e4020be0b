import Sohara.Runtime.PullStreams
import Sohara.Transition.Runs

/-! # The lifecycle of extension triggers

Starting, stopping and pulling a trigger are sections under the lock of its client, in any order.
Each of them drops the client when its request fails, and a pull that finds no client spawns one.
So a pull before the start, or after a stop that failed, goes to a process that has not been
started.
-/

namespace Sohara

open Transition

/-- A trigger that an extension serves, with its stream. -/
structure StdioTriggerSource where
  client : ClientSlot := {}
  /-- The processes on which `trigger.start` has succeeded. -/
  started : List Nat := []
  /-- Whether `start` has returned. -/
  startReturned : Bool := false
  /-- Whether `stop` has returned. -/
  stopReturned : Bool := false
  buffered : List Record := []
  finished : Bool := false
  /-- Whether the stream has ended. -/
  ended : Bool := false

/-- What happens to a trigger. -/
inductive TriggerEvent where
  | start (answer : Answer Unit)
  | stop (response : Except Error Unit)
  /-- The stream, without a buffered record, pulls. -/
  | pull (answer : Answer PullResult)
  /-- The stream yields a buffered record, or ends after the last. -/
  | next

namespace StdioTriggerSource

/-- Starts the trigger. -/
def start (source : StdioTriggerSource) (answer : Answer Unit) :
    StdioTriggerSource × Except Error Unit :=
  match source.client.request answer with
  | (client, .ok _) =>
      ({ source with client := client, started := source.started ++ client.client.toList }, .ok ())
  | (client, .error error) => ({ source with client := client }, .error error)

/-- Stops the trigger, if it has a client. -/
def stop (source : StdioTriggerSource) (response : Except Error Unit) :
    StdioTriggerSource × Except Error Unit :=
  match source.client.client with
  | none => (source, .ok ())
  | some _ =>
      match response with
      | .ok _ => (source, .ok ())
      | .error error => ({ source with client := source.client.resetAsyncClient }, .error error)

/-- One turn of the loop that looks for the next record. -/
def pulled (source : StdioTriggerSource) (answer : Answer PullResult) : StdioTriggerSource :=
  match pull none source.client answer with
  | (client, .error _) => { source with client := client, ended := true }
  | (client, .ok none) => { source with client := client }
  | (client, .ok (some result)) =>
      { source with client := client, buffered := result.records, finished := result.done }

/-- What an event makes of a trigger: it is started once, with success, and stopped once. -/
def step (event : TriggerEvent) (source : StdioTriggerSource) : Option StdioTriggerSource :=
  match event with
  | .start answer =>
      if source.startReturned then none
      else
        match source.start answer with
        | (next, .ok _) => some { next with startReturned := true }
        | (_, .error _) => none
  | .stop response =>
      if source.stopReturned then none
      else some { (source.stop response).1 with stopReturned := true }
  | .pull answer =>
      if source.ended || source.finished || !source.buffered.isEmpty then none
      else some (source.pulled answer)
  | .next =>
      match source.buffered with
      | _ :: rest => some { source with buffered := rest }
      | [] => if source.finished then some { source with ended := true } else none

end StdioTriggerSource

/-- A slot with the next process as its client. -/
def ClientSlot.fresh (slot : ClientSlot) : ClientSlot where
  client := some slot.spawned
  spawned := slot.spawned + 1

/-- How a request can go: to the client or to a spawned one, answered or failed, or without a
client that could be spawned. -/
inductive Requested {α : Type} (slot : ClientSlot) (answer : Answer α) :
    ClientSlot × Except Error α → Prop where
  | served (process : Nat) (result : α) (held : slot.client = some process) :
      Requested slot answer (slot, .ok result)
  | failed (process : Nat) (error : Error) (held : slot.client = some process) :
      Requested slot answer (slot.resetAsyncClient, .error error)
  | spawned (result : α) (empty : slot.client = none) (spawned : answer.spawn = .ok ()) :
      Requested slot answer (slot.fresh, .ok result)
  | lost (error : Error) (empty : slot.client = none) (spawned : answer.spawn = .ok ()) :
      Requested slot answer (slot.fresh.resetAsyncClient, .error error)
  | unspawned (error : Error) (empty : slot.client = none) (refused : answer.spawn = .error error) :
      Requested slot answer ({ slot with spawned := slot.spawned + 1 }, .error error)

theorem requested {α : Type} (slot : ClientSlot) (answer : Answer α) :
    Requested slot answer (slot.request answer) := by
  obtain ⟨client, count⟩ := slot
  obtain ⟨spawn, response⟩ := answer
  cases client with
  | some process =>
      cases response with
      | ok result => exact .served process result rfl
      | error error => exact .failed process error rfl
  | none =>
      cases spawn with
      | ok =>
          cases response with
          | ok result => exact .spawned result rfl rfl
          | error error => exact .lost error rfl rfl
      | error error => exact .unspawned error rfl rfl

namespace StdioTriggerSource

variable {source next : StdioTriggerSource}

section Turns

variable (source) (answer : Answer PullResult)

theorem client_pull : (pull none source.client answer).1 = (source.client.request answer).1 := by
  unfold pull
  generalize source.client.request answer = requested
  obtain ⟨client, result⟩ := requested
  cases result with
  | error error => rfl
  | ok pulled => by_cases empty : (!pulled.done && pulled.records.isEmpty) = true <;> simp [empty]

theorem client_pulled : (source.pulled answer).client = (source.client.request answer).1 := by
  rw [← client_pull]
  unfold pulled
  generalize pull none source.client answer = taken
  obtain ⟨client, error | _ | result⟩ := taken <;> rfl

theorem started_pulled : (source.pulled answer).started = source.started := by
  unfold pulled
  generalize pull none source.client answer = taken
  obtain ⟨client, error | _ | result⟩ := taken <;> rfl

/-- The turns of the loop are those of the stream: a turn after which the trigger has not ended is
one turn of the search for the next record. -/
theorem nextRecord_pulled (answers : List (Answer PullResult)) (empty : source.buffered = [])
    (unfinished : source.finished = false) (lives : (source.pulled answer).ended = false) :
    nextRecord none (answer :: answers) ⟨source.client, source.buffered, source.finished⟩ =
      nextRecord none answers ⟨(source.pulled answer).client, (source.pulled answer).buffered,
        (source.pulled answer).finished⟩ := by
  rw [empty, unfinished, nextRecord]
  unfold pulled at lives ⊢
  generalize pull none source.client answer = taken at lives ⊢
  obtain ⟨client, error | _ | result⟩ := taken
  · cases lives
  · dsimp only
    rw [empty, unfinished]
    rfl
  · rfl

/-- The turn that ends a trigger fails the stream. -/
theorem nextRecord_of_ended (answers : List (Answer PullResult)) (empty : source.buffered = [])
    (unfinished : source.finished = false) (lived : source.ended = false)
    (ends : (source.pulled answer).ended = true) : ∃ error,
      nextRecord none (answer :: answers) ⟨source.client, source.buffered, source.finished⟩ =
        .failed error := by
  rw [empty, unfinished, nextRecord]
  unfold pulled at ends
  generalize pull none source.client answer = taken at ends ⊢
  obtain ⟨client, error | _ | result⟩ := taken
  · exact ⟨error, rfl⟩
  · rw [lived] at ends
    cases ends
  · rw [lived] at ends
    cases ends

end Turns

/-- A pull goes to a process on which the trigger has been started, and once `stop` has returned
it spawns none. -/
def Orderly (moment : Moment TriggerEvent StdioTriggerSource) : Prop :=
  ∀ answer, moment.event = .pull answer →
    (∀ process, (moment.before.client.ensureAsyncClient answer.spawn).2 = .ok process →
      process ∈ moment.before.started) ∧
    (moment.before.stopReturned = true →
      moment.after.client.spawned = moment.before.client.spawned)

/-- A pull finds a client; or it comes before `stop` has returned, and none can be spawned. -/
def FindsClient (moment : Moment TriggerEvent StdioTriggerSource) : Prop :=
  ∀ answer, moment.event = .pull answer →
    moment.before.client.client.isSome = true ∨
      moment.before.stopReturned = false ∧ ∃ error, answer.spawn = .error error

section Steps

/-- The processes are numbered in the order in which they were spawned. -/
structure Numbered (source : StdioTriggerSource) : Prop where
  client : ∀ process, source.client.client = some process → process < source.client.spawned
  started : ∀ process ∈ source.started, process < source.client.spawned

theorem numbered_request {α : Type} {slot : ClientSlot} (answer : Answer α)
    (bound : ∀ process, slot.client = some process → process < slot.spawned) :
    slot.spawned ≤ (slot.request answer).1.spawned ∧
      ∀ process, (slot.request answer).1.client = some process →
        process < (slot.request answer).1.spawned := by
  have cases_ := requested slot answer
  generalize slot.request answer = result at cases_
  cases cases_ with
  | served => exact ⟨Nat.le_refl _, bound⟩
  | failed => exact ⟨Nat.le_refl _, fun process none_ => nomatch none_⟩
  | spawned =>
      refine ⟨Nat.le_succ _, fun process fresh => ?_⟩
      cases fresh
      exact Nat.lt_succ_self _
  | lost => exact ⟨Nat.le_succ _, fun process none_ => nomatch none_⟩
  | unspawned error empty =>
      refine ⟨Nat.le_succ _, fun process held => ?_⟩
      cases empty.symm.trans held

/-- A start that succeeds is made on the client that it leaves. -/
theorem start_ok {answer : Answer Unit} {result : Unit}
    (started : source.start answer = (next, .ok result)) :
    next.client = (source.client.request answer).1 ∧
      next.started = source.started ++ next.client.client.toList := by
  unfold start at started
  generalize source.client.request answer = requested at started ⊢
  obtain ⟨client, error | response⟩ := requested
  · cases started
  · cases started
    exact ⟨rfl, rfl⟩

/-- A stop leaves the client, or drops it. -/
theorem client_stop (source : StdioTriggerSource) (response : Except Error Unit) :
    ((source.stop response).1.client = source.client ∨
        (source.stop response).1.client = source.client.resetAsyncClient) ∧
      (source.stop response).1.started = source.started := by
  unfold stop
  cases source.client.client with
  | none => exact ⟨.inl rfl, rfl⟩
  | some process =>
      cases response with
      | ok => exact ⟨.inl rfl, rfl⟩
      | error error => exact ⟨.inr rfl, rfl⟩

/-- **One step.** What it makes of the client and of the started processes. -/
theorem step_cases {event : TriggerEvent} (stepped : step event source = some next) :
    (∃ answer, event = .start answer ∧ next.client = (source.client.request answer).1 ∧
        next.started = source.started ++ next.client.client.toList) ∨
      (next.client = source.client.resetAsyncClient ∧ next.started = source.started) ∨
      (∃ answer, event = .pull answer ∧ next.client = (source.client.request answer).1 ∧
        next.started = source.started) ∨
      (next.client = source.client ∧ next.started = source.started) := by
  cases event with
  | start answer =>
      simp only [step] at stepped
      split at stepped
      · cases stepped
      · split at stepped
        case h_1 result started =>
          cases stepped
          obtain ⟨client, all⟩ := start_ok started
          exact .inl ⟨answer, rfl, client, all⟩
        case h_2 => cases stepped
  | stop response =>
      simp only [step] at stepped
      split at stepped
      · cases stepped
      · cases stepped
        obtain ⟨same | dropped, started⟩ := client_stop source response
        · exact .inr (.inr (.inr ⟨same, started⟩))
        · exact .inr (.inl ⟨dropped, started⟩)
  | pull answer =>
      simp only [step] at stepped
      split at stepped
      · cases stepped
      · cases stepped
        exact .inr (.inr (.inl ⟨answer, rfl, client_pulled source answer,
          started_pulled source answer⟩))
  | next =>
      simp only [step] at stepped
      split at stepped
      · cases stepped
        exact .inr (.inr (.inr ⟨rfl, rfl⟩))
      · split at stepped
        · cases stepped
          exact .inr (.inr (.inr ⟨rfl, rfl⟩))
        · cases stepped

theorem Numbered.step {event : TriggerEvent} (numbered : Numbered source)
    (stepped : StdioTriggerSource.step event source = some next) : Numbered next := by
  rcases step_cases stepped with ⟨answer, -, client, started⟩ | ⟨client, started⟩ |
    ⟨answer, -, client, started⟩ | ⟨client, started⟩
  · obtain ⟨more, bound⟩ := numbered_request answer numbered.client
    rw [← client] at more bound
    refine ⟨bound, fun process member => ?_⟩
    rw [started] at member
    rcases List.mem_append.mp member with old | new
    · exact Nat.lt_of_lt_of_le (numbered.started process old) more
    · exact bound process (Option.mem_toList.mp new)
  · refine ⟨fun process held => ?_, fun process member => ?_⟩
    · rw [client] at held
      cases held
    · rw [started] at member
      rw [client]
      exact numbered.started process member
  · obtain ⟨more, bound⟩ := numbered_request answer numbered.client
    rw [← client] at more bound
    refine ⟨bound, fun process member => ?_⟩
    rw [started] at member
    exact Nat.lt_of_lt_of_le (numbered.started process member) more
  · refine ⟨fun process held => ?_, fun process member => ?_⟩
    · rw [client] at held ⊢
      exact numbered.client process held
    · rw [started] at member
      rw [client]
      exact numbered.started process member

/-- The trigger has been started on its client. -/
def Ready (source : StdioTriggerSource) : Prop :=
  ∀ process, source.client.client = some process → process ∈ source.started

theorem Ready.step {event : TriggerEvent} (ready : Ready source)
    (stepped : StdioTriggerSource.step event source = some next)
    (finds : FindsClient ⟨source, event, next⟩) : Ready next := by
  rcases step_cases stepped with ⟨answer, -, -, started⟩ | ⟨client, -⟩ |
    ⟨answer, rfl, client, started⟩ | ⟨client, started⟩
  · intro process held
    rw [started, held]
    exact List.mem_append_right _ List.mem_cons_self
  · intro process held
    rw [client] at held
    cases held
  · intro process held
    rw [started]
    have cases_ := requested source.client answer
    rw [client] at held
    generalize source.client.request answer = result at cases_ held
    -- a pull that finds a client leaves it or drops it; one that cannot spawn leaves none
    cases cases_ with
    | served => exact ready process held
    | failed => cases held
    | lost => cases held
    | spawned result empty spawned =>
        rcases finds answer rfl with some_ | ⟨-, error, refused⟩
        · rw [empty] at some_
          cases some_
        · cases refused.symm.trans spawned
    | unspawned error empty => cases empty.symm.trans held
  · intro process held
    rw [client] at held
    rw [started]
    exact ready process held

theorem ensure_of_some {slot : ClientSlot} {process : Nat} (held : slot.client = some process)
    (spawn : Except Error Unit) : slot.ensureAsyncClient spawn = (slot, .ok process) := by
  unfold ClientSlot.ensureAsyncClient
  rw [held]

theorem ensure_of_none {slot : ClientSlot} (empty : slot.client = none) :
    slot.ensureAsyncClient (.ok ()) = (slot.fresh, .ok slot.spawned) := by
  unfold ClientSlot.ensureAsyncClient
  rw [empty]
  rfl

theorem step_pull {answer : Answer PullResult}
    (stepped : StdioTriggerSource.step (.pull answer) source = some next) :
    next = source.pulled answer := by
  simp only [StdioTriggerSource.step] at stepped
  split at stepped
  · cases stepped
  · exact (Option.some.inj stepped).symm

/-- A pull on a client on which the trigger has been started is orderly. -/
theorem orderly_of_finds {moment : Moment TriggerEvent StdioTriggerSource}
    (ready : Ready moment.before)
    (stepped : StdioTriggerSource.step moment.event moment.before = some moment.after)
    (finds : FindsClient moment) : Orderly moment := by
  obtain ⟨before, event, after⟩ := moment
  rintro answer rfl
  rw [step_pull stepped, client_pulled]
  have cases_ := requested before.client answer
  generalize before.client.request answer = result at cases_ ⊢
  rcases finds answer rfl with held | ⟨running, error, refused⟩
  · obtain ⟨process, held⟩ := Option.isSome_iff_exists.mp held
    constructor
    · intro other ensured
      rw [ensure_of_some held] at ensured
      cases ensured
      exact ready process held
    · intro _
      cases cases_ with
      | served | failed => rfl
      | spawned result empty | lost error empty | unspawned error empty =>
          cases empty.symm.trans held
  · constructor
    · intro process ensured
      cases held : before.client.client with
      | some client =>
          rw [ensure_of_some held] at ensured
          cases ensured
          exact ready _ held
      | none =>
          unfold ClientSlot.ensureAsyncClient at ensured
          rw [held, refused] at ensured
          cases ensured
    · intro stopped
      rw [running] at stopped
      cases stopped

/-- An orderly pull finds a client, or cannot spawn one. -/
theorem finds_of_orderly {moment : Moment TriggerEvent StdioTriggerSource}
    (numbered : Numbered moment.before)
    (stepped : StdioTriggerSource.step moment.event moment.before = some moment.after)
    (orderly : Orderly moment) : FindsClient moment := by
  obtain ⟨before, event, after⟩ := moment
  rintro answer rfl
  obtain ⟨sent, spawns⟩ := orderly answer rfl
  rw [step_pull stepped, client_pulled] at spawns
  cases held : before.client.client with
  | some process => exact .inl rfl
  | none =>
      right
      cases refused : answer.spawn with
      | ok =>
          -- the process that is spawned has not been started
          rw [refused, ensure_of_none held] at sent
          exact absurd (numbered.started _ (sent _ rfl)) (Nat.lt_irrefl _)
      | error error =>
          refine ⟨?_, error, rfl⟩
          by_contra stopped
          have same := spawns (by rwa [Bool.not_eq_false] at stopped)
          have cases_ := requested before.client answer
          generalize before.client.request answer = result at cases_ same
          cases cases_ with
          | served process result some_ | failed process error some_ =>
              cases some_.symm.trans held
          | spawned | lost | unspawned => exact Nat.succ_ne_self _ same

end Steps

end StdioTriggerSource

open StdioTriggerSource in
/-- **The lifecycle of a trigger.** In every run from a new trigger, with its start, its stop and
any number of pulls in any order, all pulls go to processes on which the trigger has been started,
and none is spawned after the stop, just in case every pull finds a client, or comes before the
stop has returned and cannot spawn one. -/
theorem trigger_lifecycle_iff {moments : List (Moment TriggerEvent StdioTriggerSource)}
    {last : StdioTriggerSource} (run : Run step {} moments last) :
    (∀ moment ∈ moments, Orderly moment) ↔ ∀ moment ∈ moments, FindsClient moment := by
  constructor
  · intro orderly moment member
    have new : Numbered {} := ⟨fun _ none_ => (nomatch none_), fun _ none_ => (nomatch none_)⟩
    obtain ⟨-, all⟩ := run.invariant new fun _ _ _ numbered stepped => numbered.step stepped
    obtain ⟨stepped, numbered, -⟩ := all moment member
    exact finds_of_orderly numbered stepped (orderly moment member)
  · intro finds moment member
    have new : Ready {} := fun _ none_ => nomatch none_
    obtain ⟨-, all⟩ := run.guarded new
      (fun _ _ _ ready stepped allowed => Ready.step ready stepped allowed) finds
    obtain ⟨stepped, ready, -⟩ := all moment member
    exact orderly_of_finds ready stepped (finds moment member)

namespace Sample

/-- An answer without failures. -/
def answered {α : Type} (result : α) : Answer α := ⟨.ok (), .ok result⟩

/-- The trigger is started, and its stop fails. -/
def failedStop : List TriggerEvent := [.start (answered ()), .stop (.error .channelClosed)]

/-- The trigger is started, pulled from, and stopped, and its stream ends. -/
def orderlyStop : List TriggerEvent :=
  [.start (answered ()), .pull (answered ⟨[], false⟩), .stop (.ok ()),
    .pull (answered ⟨[], true⟩), .next]

open StdioTriggerSource

/-- After a stop that fails the stream spawns a second process, on which the trigger is not
started, and pulls from it. -/
theorem failedStop_respawns : ∃ moments last, Run step {} moments last ∧
    ∃ moment ∈ moments, moment.event = .pull (answered ⟨[], false⟩) ∧
      moment.before.stopReturned = true ∧
      moment.after.client.spawned ≠ moment.before.client.spawned ∧
      (moment.before.client.ensureAsyncClient (.ok ())).2 = .ok 1 ∧
      1 ∉ moment.before.started ∧ ¬ Orderly moment := by
  have played : play step {} failedStop = some (_, _) := rfl
  have run := @Run.snoc _ _ step {} _ _ _ (.pull (answered ⟨[], false⟩)) (Run.nil.play played) rfl
  refine ⟨_, _, run, _, List.mem_append_right _ List.mem_cons_self, rfl, rfl, by decide, rfl,
    by decide, fun orderly => ?_⟩
  have sent : 1 ∈ [0] := (orderly _ rfl).1 1 rfl
  exact absurd sent (by decide)

/-- Without failures the pulls go to the process that has been started. -/
theorem orderlyStop_orderly : ∃ moments last, Run step {} moments last ∧
    moments.map (·.event) = orderlyStop ∧ ∀ moment ∈ moments, Orderly moment := by
  have played : play step {} orderlyStop = some (_, _) := rfl
  refine ⟨_, _, Run.nil.play played, rfl,
    (trigger_lifecycle_iff (Run.nil.play played)).mpr ?_⟩
  intro moment member answer here
  simp only [List.nil_append, List.mem_cons, List.not_mem_nil, or_false] at member
  rcases member with rfl | rfl | rfl | rfl | rfl
  all_goals first
  | cases here
    done
  | exact .inl rfl

end Sample

end Sohara
