import Sohara.Runtime.Parking

/-! # Creation and approval under the parking protocol

Creating an executor resolves the run id, which is a UUID or was stored as one.
Approving takes each queue and injects its records behind the gate.
-/

namespace Sohara

open Async Async.Program

namespace Parking

/-- Besides, fresh and stored run ids are plain. -/
def AdmitsPlain (flow : String) : (op : Op) → op.Response → Prop
  | .hasStore, response => response = true
  | .freshUuid, response => PlainId flow response
  | .load key, response => key = runIdKey flow →
      ∀ id, response = .ok (some (.string id)) → PlainId flow id
  | _, _ => True

theorem admits_of_admitsPlain {flow : String} (op : Op) (response : op.Response)
    (admitted : AdmitsPlain flow op response) : Admits op response := by
  cases op <;> first | exact admitted | trivial

end Parking

section Creation

variable {flow : String} {takes : Bool}

/-- The program follows the parking protocol of the flow, with plain run ids. -/
abbrev ParksPlain (flow : String) (takes : Bool) {α : Type} (post : α → Prop)
    (program : Prog α) : Prop :=
  program.Follows (Parking.protocol flow takes) (Parking.AdmitsPlain flow) (InFlow flow)
    (fun value state => state = .idle ∧ post value) .idle

theorem parksPlain_pure {α : Type} {post : α → Prop} {value : α} (holds : post value) :
    ParksPlain flow takes post (pure value) := follows_pure ⟨rfl, holds⟩

theorem ParksPlain.bind {α β : Type} {post : α → Prop} {last : β → Prop} {program : Prog α}
    {after : α → Prog β} (first : ParksPlain flow takes post program)
    (second : ∀ value, post value → ParksPlain flow takes last (after value)) :
    ParksPlain flow takes last (program >>= after) := by
  refine Follows.bind first fun value state reached => ?_
  obtain ⟨rfl, holds⟩ := reached
  exact second value holds

/-- An operation that leaves the queues alone. -/
theorem parksPlain_op (op : Op) (permitted : Parking.Permits flow takes .idle op)
    (rests : ∀ response, Parking.advance flow .idle op response = .idle) :
    ParksPlain flow takes (Parking.AdmitsPlain flow op) (.op (S := Engine) op) :=
  follows_op (fun _ => rfl) permitted fun response admitted => ⟨rests response, admitted⟩

theorem parksPlain_quiet {op : Op} (quiet : op.IsQuiet) :
    ParksPlain flow takes (Parking.AdmitsPlain flow op) (.op (S := Engine) op) := by
  have neutral : Neutral (Parking.protocol flow takes) (fun _ _ => True) op :=
    Executor.neutral_of_quiet op quiet
  exact parksPlain_op op neutral.1 fun response => neutral.2 response trivial

/-- What follows the protocol under all responses follows it under plain ones. -/
theorem parksPlain_of_parks {executor : Executor} (named : executor.flowName = flow) {α : Type}
    {program : Prog α} (parks : executor.Parks takes program) :
    ParksPlain flow takes (fun _ => True) program := by
  subst named
  exact parks.mono Parking.admits_of_admitsPlain (fun _ => id) fun _ _ resting => ⟨resting, trivial⟩

theorem isQueueKey_runIdKey (flow : String) : isQueueKey flow (runIdKey flow) = false := by
  refine Bool.eq_false_iff.mpr fun prefixed => ?_
  unfold isQueueKey runIdKey at prefixed
  rw [List.isPrefixOf_iff_prefix, String.toList_append, String.toList_append,
    List.prefix_append_right_inj] at prefixed
  exact absurd prefixed (by decide)

/-- A stored run id of the flow is plain. -/
def PlainEntry (flow : String) (entries : Entries) : Prop :=
  ∀ id, entries (runIdKey flow) = some (.string id) → PlainId flow id

/-- Permitted writes keep the run id plain. -/
theorem PlainEntry.stored {entries : Entries} (plain : PlainEntry flow entries) {op : Op}
    {takes : Bool} {state : Parking} (permitted : Parking.Permits flow takes state op) :
    PlainEntry flow (World.stored op entries) := by
  intro id found
  by_cases silent : Op.writes (runIdKey flow) op = true
  · have noQueue := Bool.eq_false_iff.mp (isQueueKey_runIdKey flow)
    cases state with
    | idle =>
        cases op with
        | save name value =>
            obtain rfl := of_decide_eq_true silent
            obtain ⟨stored, rfl, named⟩ := permitted.2 rfl
            have same : Function.update entries (runIdKey flow) (some (.string stored))
                (runIdKey flow) = some (.string id) := found
            rw [Function.update_self] at same
            cases same
            exact named
        | delete name => exact permitted.elim
        | _ => cases silent
    | loaded name stored =>
        obtain ⟨isQueue, ⟨item, rfl⟩ | ⟨-, rfl⟩⟩ := permitted
        · obtain rfl := of_decide_eq_true silent
          exact absurd isQueue noQueue
        · obtain rfl := of_decide_eq_true silent
          exact absurd isQueue noQueue
    | parked =>
        obtain rfl : op = .count .waiting := permitted
        cases silent
  · rw [World.stored_of_not_writes entries (Bool.eq_false_iff.mpr silent)] at found
    exact plain id found

section Stores

variable {host : Host} {world : World}

/-- A store is configured, and the stored run id of the flow is plain. -/
def World.PlainStore (flow : String) (world : World) : Prop :=
  ∃ entries, world.store = some entries ∧ PlainEntry flow entries

/-- The responses of a process with a plain store are plain. -/
theorem World.PlainStore.admits (stored : world.PlainStore flow)
    (uuids : ∀ time, PlainId flow (host.uuid time)) (op : Op) :
    Parking.AdmitsPlain flow op (World.perform host world op).1 := by
  obtain ⟨entries, found, plain⟩ := stored
  cases op with
  | hasStore =>
      show world.store.isSome = true
      rw [found]
      rfl
  | freshUuid => exact uuids _
  | load name =>
      rintro rfl id loaded
      have same : (Except.ok (world.store.bind fun entries => entries (runIdKey flow)) :
          Except Error (Option Value)) = .ok (some (.string id)) := loaded
      rw [found] at same
      exact plain id (Except.ok.inj same)
  | _ => trivial

/-- Permitted operations keep the store plain. -/
theorem World.PlainStore.perform (stored : world.PlainStore flow) {takes : Bool}
    {state : Parking} {op : Op} (permitted : Parking.Permits flow takes state op) :
    (World.perform host world op).2.PlainStore flow := by
  obtain ⟨entries, found, plain⟩ := stored
  refine ⟨World.stored op entries, ?_, plain.stored permitted⟩
  rw [World.perform_store, found]
  rfl

end Stores

theorem parksPlain_freshRunId : ParksPlain flow takes (PlainId flow) (freshRunId flow) := by
  refine ParksPlain.bind (parksPlain_quiet trivial) fun id plain => ?_
  refine ParksPlain.bind (parksPlain_quiet trivial) fun stored _ => ?_
  cases stored
  · exact parksPlain_pure plain
  · have saved : ParksPlain flow takes (fun _ => True)
        (Perform.save (runIdKey flow) (.string id)) :=
      (parksPlain_op (.save (runIdKey flow) (.string id))
          ⟨isQueueKey_runIdKey flow, fun _ => ⟨id, rfl, plain⟩⟩ fun _ => rfl).mono
        (fun _ _ same => same) (fun _ same => same) fun _ _ after => ⟨after.1, trivial⟩
    exact ParksPlain.bind saved fun _ _ => parksPlain_pure plain

/-- The run id of a new executor is plain, resumed or not. -/
theorem parksPlain_resolveRunId (resume : Bool) :
    ParksPlain flow takes (PlainId flow) (resolveRunId flow resume) := by
  cases resume
  · exact parksPlain_freshRunId
  · refine ParksPlain.bind (parksPlain_quiet trivial) fun stored _ => ?_
    cases stored
    · exact parksPlain_freshRunId
    · have loaded : ParksPlain flow takes (Parking.AdmitsPlain flow (.load (runIdKey flow)))
          (Perform.load (runIdKey flow)) := by
        refine parksPlain_op (.load (runIdKey flow)) trivial fun response => ?_
        cases response with
        | error _ => rfl
        | ok stored => exact if_neg (Bool.eq_false_iff.mp (isQueueKey_runIdKey flow))
      refine ParksPlain.bind loaded fun response plain => ?_
      match response, plain with
      | .ok (some (.string id)), plain => exact parksPlain_pure (plain rfl id rfl)
      | .ok none, _ | .error _, _ => exact parksPlain_freshRunId
      | .ok (some .null), _ | .ok (some (.bool _)), _ | .ok (some (.number _)), _
      | .ok (some (.array _)), _ | .ok (some (.object _)), _ => exact parksPlain_freshRunId

theorem parksPlain_initialState {runId : String} (plain : PlainId flow runId) (resume : Bool)
    (node : Node) : ParksPlain flow takes (fun _ => True) (initialState runId resume node) := by
  cases resume
  · exact parksPlain_pure trivial
  · refine ParksPlain.bind (parksPlain_quiet trivial) fun stored _ => ?_
    cases stored
    · exact parksPlain_pure trivial
    · have loaded : ParksPlain flow takes (fun _ => True)
          (Perform.load (runId ++ ":state:" ++ node.id)) := by
        refine (parksPlain_op (.load (runId ++ ":state:" ++ node.id)) trivial
          fun response => ?_).mono (fun _ _ => id) (fun _ => id)
          fun _ _ after => ⟨after.1, trivial⟩
        cases response with
        | error _ => rfl
        | ok stored => exact if_neg (Bool.eq_false_iff.mp (plain.state node.id).1)
      refine ParksPlain.bind loaded fun response _ => ?_
      match response with
      | .ok (some saved) => exact parksPlain_pure trivial
      | .ok none | .error _ => exact parksPlain_pure trivial

theorem parksPlain_initialStates {runId : String} (plain : PlainId flow runId) (resume : Bool)
    (nodes : List Node) :
    ParksPlain flow takes (fun _ => True) (initialStates runId resume nodes) := by
  induction nodes with
  | nil => exact parksPlain_pure trivial
  | cons node rest ih =>
      refine (parksPlain_initialState plain resume node).bind fun initial _ => ?_
      by_cases declared : node.state.isSome
      · simp only [declared, if_true]
        exact ParksPlain.bind (parksPlain_op (.setState node.id initial) trivial fun _ => rfl)
          fun _ _ => ih
      · simp only [declared, if_false, Bool.false_eq_true]
        exact ih

/-- **A new executor has a plain run id**, and its creation leaves the queues alone. -/
theorem parksPlain_newExecutor (env : ExecutorEnv) (graph : FlowGraph) (vars : Fields)
    (config : ExecutorConfig) :
    ParksPlain graph.name takes
      (fun executor => executor.flowName = graph.name ∧ PlainId graph.name executor.runId)
      (newExecutor env graph vars config) :=
  (parksPlain_resolveRunId config.resume).bind fun _ plain =>
    (parksPlain_initialStates plain config.resume _).bind fun _ _ =>
      parksPlain_pure ⟨rfl, plain⟩

end Creation

section Approval

variable {executor : Executor}

theorem parks_newRecords {takes : Bool} (payloads : List Value) :
    executor.Parks takes (Executor.newRecords payloads) := by
  induction payloads with
  | nil => exact follows_pure rfl
  | cons payload rest ih =>
      have identified : executor.Parks takes (Perform.newRecord payload) :=
        follows_op (fun _ => rfl) trivial fun _ _ => rfl
      refine Follows.bind identified fun _ _ resting => ?_
      subst resting
      exact Follows.bind ih fun _ _ resting => follows_pure resting

/-- Taking a queue loads and deletes it. -/
theorem parks_takeApproveQueue (id : String) :
    executor.Parks true (executor.takeApproveQueue id) := by
  refine Follows.bind Executor.parks_hasStore fun stored state after => ?_
  obtain ⟨rfl, rfl⟩ := after
  refine Follows.bind (Executor.parks_loadQueue id) fun loaded state after => ?_
  cases loaded with
  | error _ => exact follows_pure after
  | ok content =>
      obtain rfl : state = .loaded (executor.approveKey id) content := after
      have emptied : (Perform.delete (executor.approveKey id)).Follows
          (Parking.protocol executor.flowName true) Parking.Admits (InFlow executor.flowName)
          (fun _ state => state = .idle) (.loaded (executor.approveKey id) content) :=
        follows_op (fun yields => nomatch yields)
          ⟨Executor.isQueueKey_approveKey _ id, .inr ⟨rfl, rfl⟩⟩ fun _ _ => rfl
      refine Follows.bind emptied fun deleted _ resting => ?_
      subst resting
      cases deleted with
      | error _ => exact follows_pure rfl
      | ok _ =>
          refine Follows.bind (parks_newRecords _) fun _ _ resting => ?_
          exact follows_pure resting

variable (plain : PlainId executor.flowName executor.runId)
include plain

theorem parks_approveNode (node : Node) : executor.Parks true (executor.approveNode node) := by
  refine Follows.bind (parks_takeApproveQueue node.id) fun taken _ resting => ?_
  subst resting
  cases taken with
  | error _ => exact follows_pure rfl
  | ok parked =>
      refine Follows.bind (Executor.parks_injectAll plain node parked) fun injected _ resting => ?_
      cases injected <;> exact follows_pure resting

theorem parks_approveNodes (approved : Nat) (nodes : List Node) :
    executor.Parks true (executor.approveNodes approved nodes) := by
  induction nodes generalizing approved with
  | nil => exact follows_pure rfl
  | cons node rest ih =>
      refine Follows.bind (parks_approveNode plain node) fun released _ resting => ?_
      subst resting
      cases released with
      | error _ => exact follows_pure rfl
      | ok count => exact ih (approved + count)

end Approval

/-- **An approval pass follows the parking protocol**, from opening to its end. -/
theorem parksPlain_approveGraph (env : ExecutorEnv) (graph : FlowGraph) (vars : Fields)
    (step : Option String) :
    ParksPlain graph.name true (fun _ => True) (approveGraph env graph vars step) :=
  (parksPlain_newExecutor env graph vars _).bind fun executor created =>
    parksPlain_of_parks created.1 <| parks_approveNodes (by rw [created.1]; exact created.2) 0 _

end Sohara
