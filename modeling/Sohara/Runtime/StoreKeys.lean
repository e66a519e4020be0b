import Sohara.Parsing.Segments
import Sohara.Runtime.Creation
import Sohara.Runtime.ParkingRaces
import Sohara.Runtime.StateRaces
import Sohara.Runtime.TracedRun

/-! # Keys of the store

What the runtime keeps in the store has a purpose: the run id of a flow, the approve queue of
a step, the state of a step, or the marker of a delivered record. A key is the name of the
flow or the id of the run, a word for the purpose, and the step or the marker, with colons in
between, and nothing forbids colons in the names that are joined. The keys of two flows are
apart just in case the name of neither goes on behind a beginning of a key of the other.
-/

namespace Sohara

open Async Async.Program Parsing

/-- What an entry of the store is for. -/
inductive Purpose where
  | runId
  | approve (step : String)
  | state (step : String)
  | delivered (marker : String)
  deriving DecidableEq

namespace Purpose

/-- The word of a purpose in the keys. -/
def word : Purpose → String
  | .runId => "run_id"
  | .approve _ => "approve"
  | .state _ => "state"
  | .delivered _ => "delivered"

/-- What follows the word in the keys. -/
def rest : Purpose → String
  | .runId => ""
  | .approve step => ":" ++ step
  | .state step => ":" ++ step
  | .delivered marker => ":" ++ marker

theorem plain_word (purpose : Purpose) : ':' ∉ purpose.word.toList := by
  cases purpose <;> simp [word]

/-- The word and what follows tell the purpose. -/
theorem eq_of_word_rest {purpose other : Purpose}
    (same : purpose.word.toList ++ purpose.rest.toList = other.word.toList ++ other.rest.toList) :
    purpose = other := by
  cases purpose <;> cases other <;>
    simp [word, rest, String.toList_append, String.toList_inj] at same ⊢ <;> assumption

end Purpose

namespace Executor

/-- The step with this id asks for approval. -/
def Approves (executor : Executor) (step : String) : Prop :=
  ∃ node title, executor.graph.node step = some node ∧ node.step = .control (.approve title)

/-- The step with this id has a state: it declares one or it updates one. -/
def KeepsState (executor : Executor) (step : String) : Prop :=
  ∃ node, executor.graph.node step = some node ∧
    (node.state.isSome = true ∨ ∃ exprs, node.step = .control (.state exprs))

/-- The entries that a flow can write. -/
def Writes (executor : Executor) : Purpose → Prop
  | .runId => True
  | .approve step => executor.Approves step
  | .state step => executor.KeepsState step
  | .delivered _ => True

/-- The key of an entry. -/
def keyOf (executor : Executor) : Purpose → String
  | .runId => runIdKey executor.flowName
  | .approve step => executor.approveKey step
  | .state step => executor.stateKey step
  | .delivered marker => executor.runId ++ ":delivered:" ++ marker

/-- The name that a key starts with. -/
def owner (executor : Executor) : Purpose → String
  | .runId | .approve _ => executor.flowName
  | .state _ | .delivered _ => executor.runId

/-- Equal keys are of the same flow and for the same purpose, step and marker included. -/
def KeysApart (first second : Executor) : Prop :=
  ∀ purpose other, first.Writes purpose → second.Writes other →
    first.keyOf purpose = second.keyOf other →
    first.flowName = second.flowName ∧ purpose = other

/-- The run ids of two flows are UUIDs: they have no colons, and only runs of the same flow
share one. -/
structure RunIds (first second : Executor) : Prop where
  plain : ':' ∉ first.runId.toList
  plain' : ':' ∉ second.runId.toList
  own : first.runId = second.runId → first.flowName = second.flowName

/-- What follows a beginning is the end of a key of the flow behind its name. -/
def Ends (executor : Executor) (beginning text : String) : Prop :=
  text = beginning ++ ":run_id" ∨
    ∃ gate, executor.Approves gate ∧ text = beginning ++ ":approve:" ++ gate

/-- The name of a flow goes on behind a beginning of a key of another flow, so that a key of
the one can be a key of the other. -/
inductive Confuses (one other : Executor) : Prop where
  | queue (step beginning : String) (approves : one.Approves step)
      (named : other.flowName = one.flowName ++ ":approve" ++ beginning)
      (ends : other.Ends beginning (":" ++ step))
  | state (step beginning : String) (keeps : one.KeepsState step)
      (named : other.flowName = one.runId ++ ":state" ++ beginning)
      (ends : other.Ends beginning (":" ++ step))
  | marker (beginning : String) (named : other.flowName = one.runId ++ ":delivered" ++ beginning)
      (begins : beginning = "" ∨ ∃ more, beginning = ":" ++ more)

variable {executor one other first second : Executor} {purpose purpose' : Purpose}

theorem deliveredKey_eq_keyOf (executor : Executor) (record : Record) :
    executor.deliveredKey record = executor.keyOf (.delivered (executor.idempotencyKey record)) :=
  rfl

theorem toList_keyOf (executor : Executor) (purpose : Purpose) :
    (executor.keyOf purpose).toList =
      (executor.owner purpose).toList ++ ':' :: (purpose.word.toList ++ purpose.rest.toList) := by
  cases purpose <;>
    simp [keyOf, owner, Purpose.word, Purpose.rest, runIdKey, approveKey, stateKey]

/-- Only the name of a flow goes on behind another with a colon. -/
theorem ends_of_longer (plain : ':' ∉ other.runId.toList) (writes : other.Writes purpose')
    {start behind : List Char} {text : String}
    (longer : (other.owner purpose').toList = start ++ ':' :: behind) {beginning : List Char}
    (ends : text.toList = beginning ++ ':' :: (purpose'.word.toList ++ purpose'.rest.toList)) :
    other.owner purpose' = other.flowName ∧ other.Ends (String.ofList beginning) text := by
  have inside : ':' ∈ (other.owner purpose').toList := by
    rw [longer]
    exact List.mem_append_right _ List.mem_cons_self
  cases purpose' with
  | runId =>
      refine ⟨rfl, .inl (String.toList_injective ?_)⟩
      rw [ends, String.toList_append, String.toList_ofList]
      rfl
  | approve gate =>
      refine ⟨rfl, .inr ⟨gate, writes, String.toList_injective ?_⟩⟩
      rw [ends]
      simp [Purpose.word, Purpose.rest]
  | state => exact absurd inside plain
  | delivered => exact absurd inside plain

/-- A key whose name goes on behind a beginning of another key is confused with it. -/
theorem confuses_of_longer (plain : ':' ∉ other.runId.toList) (writes : one.Writes purpose)
    (writes' : other.Writes purpose') {behind : List Char}
    (longer : (other.owner purpose').toList =
      (one.owner purpose).toList ++ ':' :: (purpose.word.toList ++ behind))
    (ends : purpose.rest.toList =
      behind ++ ':' :: (purpose'.word.toList ++ purpose'.rest.toList)) :
    one.Confuses other := by
  obtain ⟨flow, ended⟩ := ends_of_longer plain writes' longer ends
  rw [flow] at longer
  have named : other.flowName =
      one.owner purpose ++ (":" ++ purpose.word) ++ String.ofList behind := by
    refine String.toList_injective ?_
    rw [longer]
    simp
  cases purpose with
  | runId =>
      have absurd_length := congrArg List.length ends
      simp [Purpose.rest] at absurd_length
  | approve step =>
      exact .queue step (String.ofList behind) writes named ended
  | state step =>
      exact .state step (String.ofList behind) writes named ended
  | delivered marker =>
      refine .marker (String.ofList behind) named ?_
      cases behind with
      | nil => exact .inl rfl
      | cons char more =>
          have colon : char = ':' := by
            have starts := congrArg List.head? ends
            simpa [Purpose.rest] using starts.symm
          subst colon
          exact .inr ⟨String.ofList more, String.toList_injective (by simp)⟩

theorem keyOf_eq_of_longer {beginning : String}
    (named : other.owner purpose' = one.owner purpose ++ (":" ++ purpose.word) ++ beginning)
    (ends : purpose.rest = beginning ++ (":" ++ purpose'.word) ++ purpose'.rest) :
    one.keyOf purpose = other.keyOf purpose' := by
  refine String.toList_injective ?_
  rw [toList_keyOf, toList_keyOf, named, ends]
  simp

theorem Ends.exists_purpose {beginning text : String} (ends : other.Ends beginning text) :
    ∃ purpose, other.Writes purpose ∧ other.owner purpose = other.flowName ∧
      text = beginning ++ (":" ++ purpose.word) ++ purpose.rest ∧
      ∀ step, purpose ≠ .state step := by
  rcases ends with runId | ⟨gate, approves, queue⟩
  · exact ⟨.runId, trivial, rfl, runId.trans String.append_empty.symm, nofun⟩
  · refine ⟨.approve gate, approves, rfl, ?_, nofun⟩
    rw [queue]
    refine String.toList_injective ?_
    simp [Purpose.word, Purpose.rest]

/-- A longer name is another name. -/
theorem ne_append_word (name beginning : String) {word : String} (nonempty : 0 < word.length) :
    name ≠ name ++ word ++ beginning := by
  intro same
  have lengths := congrArg String.length same
  rw [String.length_append, String.length_append] at lengths
  omega

/-- A confusion is one of two entries. -/
theorem Confuses.collides (confuses : one.Confuses other) :
    ∃ purpose purpose', one.Writes purpose ∧ other.Writes purpose' ∧
      one.keyOf purpose = other.keyOf purpose' ∧
      ¬ (one.flowName = other.flowName ∧ purpose = purpose') := by
  cases confuses with
  | queue step beginning approves named ends =>
      obtain ⟨purpose', writes, owned, text, -⟩ := ends.exists_purpose
      refine ⟨.approve step, purpose', approves, writes,
        keyOf_eq_of_longer (owned.trans named) text, fun both => ?_⟩
      exact ne_append_word one.flowName beginning (by decide) (both.1.trans named)
  | state step beginning keeps named ends =>
      obtain ⟨purpose', writes, owned, text, other_kind⟩ := ends.exists_purpose
      exact ⟨.state step, purpose', keeps, writes,
        keyOf_eq_of_longer (owned.trans named) text, fun both => other_kind step both.2.symm⟩
  | marker beginning named begins =>
      obtain ⟨marker, text⟩ : ∃ marker, ":" ++ marker = beginning ++ ":run_id" := by
        rcases begins with rfl | ⟨more, rfl⟩
        · exact ⟨"run_id", rfl⟩
        · exact ⟨more ++ ":run_id", String.append_assoc.symm⟩
      refine ⟨.delivered marker, .runId, trivial, trivial,
        keyOf_eq_of_longer named (text.trans String.append_empty.symm), fun both => ?_⟩
      cases both.2

/-- A name without colons goes on behind no key. -/
theorem not_confuses_of_plain (plain : ':' ∉ other.flowName.toList) : ¬ one.Confuses other := by
  intro confuses
  cases confuses with
  | queue step beginning approves named ends =>
      rw [named] at plain
      simp at plain
  | state step beginning keeps named ends =>
      rw [named] at plain
      simp at plain
  | marker beginning named begins =>
      rw [named] at plain
      simp at plain

/-- **When keys are apart.** The entries of two flows, or of two runs of one, have equal keys
only if they are the same, just in case the name of neither flow goes on behind a beginning of
a key of the other: the approve queue of a step, the state of a step, or a delivered marker. -/
theorem keysApart_iff (ids : RunIds first second) :
    KeysApart first second ↔ ¬ first.Confuses second ∧ ¬ second.Confuses first := by
  constructor
  · intro apart
    refine ⟨fun confuses => ?_, fun confuses => ?_⟩
    · obtain ⟨purpose, other, writes, writes', same, different⟩ := confuses.collides
      exact different (apart purpose other writes writes' same)
    · obtain ⟨purpose, other, writes, writes', same, different⟩ := confuses.collides
      obtain ⟨flow, equal⟩ := apart other purpose writes' writes same.symm
      exact different ⟨flow.symm, equal.symm⟩
  · rintro ⟨first_not, second_not⟩ purpose other writes writes' same
    have joined := congrArg String.toList same
    rw [toList_keyOf, toList_keyOf] at joined
    rcases append_separator_cases purpose.plain_word other.plain_word joined with
      ⟨owners, follows⟩ | ⟨behind, longer, ends⟩ | ⟨behind, longer, ends⟩
    · obtain rfl := Purpose.eq_of_word_rest follows
      refine ⟨?_, rfl⟩
      have owners := String.toList_injective owners
      cases purpose with
      | runId => exact owners
      | approve => exact owners
      | state => exact ids.own owners
      | delivered => exact ids.own owners
    · exact absurd (confuses_of_longer ids.plain' writes writes' longer ends) first_not
    · exact absurd (confuses_of_longer ids.plain writes' writes longer ends) second_not

end Executor

/-- The operation uses an entry of the store. -/
def Op.Touches (key : String) : Op → Prop
  | .load used | .save used _ | .delete used => used = key
  | _ => False

namespace Executor

section Runs

variable {executor : Executor} {host : Host} {world : World} {node : Node}
  {steps : List (Occurrence Engine World)} {config : Config Engine World}

/-- The operation uses the entries of the flow only, and sets only states of its steps. -/
structure UsesOwn (executor : Executor) (op : Op) : Prop where
  entries : ∀ key, op.Touches key → ∃ purpose, executor.Writes purpose ∧
    executor.keyOf purpose = key
  states : ∀ id value, op = .setState id value → executor.KeepsState id

/-- The listed states are those of steps of the flow. -/
def KeepsAll (executor : Executor) (states : Assoc Value) : Prop :=
  ∀ entry ∈ states, executor.KeepsState entry.1

/-- When the states are listed, they are those of steps of the flow. -/
def ListsOwn (executor : Executor) : (op : Op) → op.Response → Prop
  | .states, states => executor.KeepsAll states
  | _, _ => True

theorem usesOwn_of_untouched {op : Op} (untouched : ∀ key, ¬ op.Touches key)
    (silent : ∀ id value, op ≠ .setState id value) : executor.UsesOwn op :=
  ⟨fun key touches => absurd touches (untouched key), fun id value sets =>
    absurd sets (silent id value)⟩

theorem usesOwn_of_quiet {op : Op} (quiet : op.IsQuiet) : executor.UsesOwn op := by
  refine ⟨fun key touches => ?_, ?_⟩
  · cases op <;> first | exact quiet.elim | exact touches.elim
  · rintro id value rfl
    exact quiet.elim

theorem usesOwn_save {purpose : Purpose} (writes : executor.Writes purpose) (value : Value) :
    executor.UsesOwn (.save (executor.keyOf purpose) value) :=
  ⟨fun _ touches => ⟨purpose, writes, touches⟩, fun _ _ => Op.noConfusion⟩

theorem usesOwn_load {purpose : Purpose} (writes : executor.Writes purpose) :
    executor.UsesOwn (.load (executor.keyOf purpose)) :=
  ⟨fun _ touches => ⟨purpose, writes, touches⟩, fun _ _ => Op.noConfusion⟩

theorem safe_saveStates_own {onCall : Call → Prop} {states : Assoc Value}
    (kept : executor.KeepsAll states) :
    Safe (S := Engine) executor.ListsOwn executor.UsesOwn onCall (executor.saveStates states) := by
  induction states with
  | nil => exact safe_pure _
  | cons entry rest ih =>
      have own : executor.Writes (.state entry.1) := kept entry List.mem_cons_self
      exact (safe_op (usesOwn_save own entry.2)).bind fun _ =>
        ih fun other member => kept other (List.mem_cons_of_mem _ member)

theorem safe_checkpoint_own {onCall : Call → Prop} :
    Safe (S := Engine) executor.ListsOwn executor.UsesOwn onCall executor.checkpoint := by
  refine Safe.bind (safe_op (usesOwn_of_quiet trivial)) fun stored => ?_
  cases stored with
  | false => exact safe_pure _
  | true =>
      refine Obeys.bind (⟨usesOwn_of_quiet trivial, fun states kept => kept⟩ :
        Program.Obeys (S := Engine) executor.ListsOwn executor.UsesOwn onCall
          (fun states => executor.KeepsAll states) Perform.states) fun states kept => ?_
      exact (safe_saveStates_own kept).bind fun _ => safe_op (usesOwn_of_quiet trivial)

/-- A step of the flow performs operations on the entries of the flow. -/
theorem performs_own {onCall : Call → Prop}
    (found : ∀ control, node.step = .control control → executor.graph.node node.id = some node) :
    executor.Performs executor.ListsOwn executor.UsesOwn onCall node where
  quiet _ quiet := usesOwn_of_quiet quiet
  update isState value := by
    obtain ⟨exprs, isState⟩ := isState
    have keeps : executor.KeepsState node.id := ⟨node, found _ isState, .inr ⟨exprs, isState⟩⟩
    have sets : executor.UsesOwn (.setState node.id value) := by
      refine ⟨fun _ touches => touches.elim, ?_⟩
      rintro id set_ ⟨⟩
      exact keeps
    refine Safe.bind (safe_op sets) fun _ =>
      Safe.bind (safe_op (usesOwn_of_quiet trivial)) fun stored => ?_
    cases stored
    · exact safe_pure _
    · have own : executor.Writes (.state node.id) := keeps
      exact (safe_op (usesOwn_save own value)).bind fun _ => safe_pure _
  checkpoint := safe_checkpoint_own
  send _ _ := usesOwn_of_untouched (fun _ => id) nofun
  lookup _ record := by
    have own : executor.Writes (.delivered (executor.idempotencyKey record)) := trivial
    exact usesOwn_load own
  marker _ record := by
    have own : executor.Writes (.delivered (executor.idempotencyKey record)) := trivial
    exact usesOwn_save own _
  queue title isApprove := by
    have own : executor.Writes (.approve node.id) := ⟨node, title, found _ isApprove, isApprove⟩
    exact usesOwn_load own
  park title isApprove items := by
    have own : executor.Writes (.approve node.id) := ⟨node, title, found _ isApprove, isApprove⟩
    exact usesOwn_save own _
  wait _ _ := usesOwn_of_untouched (fun _ => id) nofun
  join _ _ _ _ _ _ _ := usesOwn_of_untouched (fun _ => id) nofun
  collect _ _ _ _ := usesOwn_of_untouched (fun _ => id) nofun
  merge _ := usesOwn_of_untouched (fun _ => id) nofun
  emit _ _ := usesOwn_of_untouched (fun _ => id) nofun

/-- The world holds states of steps of the flow only. -/
def HoldsOwn (executor : Executor) (world : World) : Prop :=
  ∀ id, world.states.get? id ≠ none → executor.KeepsState id

theorem HoldsOwn.keepsAll (holds : executor.HoldsOwn world) :
    executor.KeepsAll (world.listStates host) := by
  intro entry member
  obtain ⟨id, -, listed⟩ := List.mem_filterMap.mp member
  obtain ⟨state, present, rfl⟩ := Option.map_eq_some_iff.mp listed
  refine holds id fun absent => ?_
  rw [present] at absent
  cases absent

/-- States that are set in a history are those of steps of the flow. -/
theorem HoldsOwn.history {after : World} (holds : executor.HoldsOwn world)
    (history : History (World.perform host) world steps after)
    (permitted : Permitted (S := Engine) executor.UsesOwn steps) : executor.HoldsOwn after := by
  intro id present
  by_contra foreign
  have silent : Permitted (S := Engine) (fun op => ∀ value, op ≠ .setState id value) steps :=
    fun step inside value sets => foreign ((permitted step inside).states id value sets)
  rw [(states_of_history history silent).2] at present
  exact foreign (holds id present)

/-- Creating an executor sets up states of steps of its flow only. -/
theorem holdsOwn_created {env : ExecutorEnv} {graph : FlowGraph} {vars : Fields}
    {settings : ExecutorConfig} {opened : World} (formed : graph.WellFormed)
    (fresh : world.states = [])
    (created : Yields host (newExecutor env graph vars settings) world steps executor opened) :
    executor.graph = graph ∧ executor.HoldsOwn opened := by
  obtain ⟨_, _, runId, between, -, resolved, continued⟩ := evaluates_bind.mp created
  obtain ⟨_, _, done, ready, -, initial, finished⟩ := evaluates_bind.mp continued
  obtain ⟨-, rfl, rfl⟩ := evaluates_pure.mp finished
  refine ⟨rfl, fun id present => ?_⟩
  have empty : between.states = [] := by
    rcases yields_resolveRunId resolved with ⟨-, -, rfl⟩ | ⟨-, kept, -⟩
    · exact fresh
    · exact kept.trans fresh
  obtain ⟨-, each, others⟩ := yields_initialStates formed.nodup_ids initial
  by_cases listed : id ∈ graph.nodeList.map (·.id)
  · obtain ⟨node, member, rfl⟩ := List.mem_map.mp listed
    rw [each node member, empty] at present
    obtain ⟨⟨name, _⟩, entry, rfl⟩ := List.mem_map.mp member
    have found := (BTreeMap.mem_toList _ _ _).mp entry
    refine ⟨_, (formed.named found).symm ▸ found, .inl ?_⟩
    by_contra undeclared
    unfold startingState at present
    rw [Option.not_isSome_iff_eq_none.mp undeclared] at present
    exact present rfl
  · rw [others id listed, empty] at present
    exact absurd rfl present

/-- A run uses the entries of its flow only, beside any walks of the flow. -/
theorem permitted_run {walks : List Call} (formed : executor.graph.WellFormed)
    (holds : executor.HoldsOwn world) (known : ∀ call ∈ walks, executor.Known call)
    (run : executor.RunBeside walks host world steps config) :
    Permitted (S := Engine) executor.UsesOwn steps := by
  have bodies : ∀ call, executor.Known call →
      Safe (S := Engine) executor.ListsOwn executor.UsesOwn executor.Known (walkCall call) := by
    rintro call ⟨rfl, node, found⟩
    have named : call.executor.graph.node node.id = some node := by
      rw [formed.named found]
      exact found
    exact safe_walk found (performs_own fun _ _ => named) (leads_known formed found) call.record
  have own := safe_programs formed (performs_own nofun)
    (fun _ _ => usesOwn_of_untouched (fun _ => id) nofun)
    (fun _ _ => usesOwn_of_untouched (fun _ => id) nofun)
    fun _ => usesOwn_of_untouched (fun _ => id) nofun
  have obeys := obeys_beside bodies own known world
  refine (Config.Run.permitted_of_earlier bodies obeys run ?_).1
  intro before step rest split permitted
  have history := run.leads
  rw [split] at history
  have holds := holds.history history.at.1 fun earlier member =>
    permitted earlier (List.mem_append_left _ member)
  cases op : step.op with
  | states => exact holds.keepsAll
  | _ => trivial

/-- **What runs use.** An executor is created in a fresh process and runs, beside any walks of
its flow. Every key of the store that is used is the key of an entry of the flow. -/
theorem exists_purpose_of_touches {registry : Registry} {hashOrder : HashOrder}
    {flow : FlowConfig} {ctx : BuildContext} {env : ExecutorEnv} {graph : FlowGraph}
    {vars : Fields} {settings : ExecutorConfig} {opened : World} {walks : List Call}
    {first : List (Occurrence Engine World)}
    (accepted : FlowGraph.Accepted registry hashOrder flow ctx graph)
    (fresh : world.states = [])
    (created : Yields host (newExecutor env graph vars settings) world first executor opened)
    (known : ∀ call ∈ walks, executor.Known call)
    (run : executor.RunBeside walks host opened steps config) :
    ∀ step ∈ steps, ∀ key, step.op.Touches key →
      ∃ purpose, executor.Writes purpose ∧ executor.keyOf purpose = key := by
  obtain ⟨same, holds⟩ := holdsOwn_created accepted.wellFormed fresh created
  have formed : executor.graph.WellFormed := by
    rw [same]
    exact accepted.wellFormed
  intro step member
  exact (permitted_run formed holds known run step member).entries

end Runs

end Executor

namespace Sample

open Executor

/-- A step that asks for approval between a source and a sink. -/
def gatedFlow (name gate : String) : FlowConfig :=
  { FlowGraph.Sample.intake with
    name := name
    triggers := []
    steps := [FlowGraph.Sample.source "in",
      FlowGraph.Sample.step gate .control "approve", FlowGraph.Sample.sink "out"]
    edges := [.pair "in" gate, .pair gate "out"] }

/-- The graph of the step that asks for approval. -/
def gatedGraph (name gate : String) : FlowGraph where
  name := name
  nodes := (((∅ : BTreeMap Node).insert gate
    ⟨gate, none, .fail, .control (.approve "approval"), [⟨"out", none⟩], 1, none⟩).insert "in"
      ⟨"in", none, .fail, .source, [⟨gate, none⟩], 0, none⟩).insert "out"
        ⟨"out", none, .fail, .sink, [], 1, none⟩
  roots := ["in"]

/-- The executor of a run of the flow. -/
def gatedExecutor (name gate runId : String) : Executor :=
  { executor (gatedGraph name gate) with runId := runId }

/-- The id of the run of one flow. -/
def oneRun : String := "0e8ad1a4-8c5a-4c39-9f0e-3f2f5a3b6c11"

/-- The id of the run of another flow. -/
def otherRun : String := "7b1f6d0c-2a44-4b7e-a1d9-c4f0e8b95a20"

/-- **Two flows share an approve queue**: both are valid, and both park under
`a:approve:b:approve:c`. -/
theorem gates_collide :
    (gatedFlow "a" "b:approve:c").validate gateRegistry FlowGraph.Sample.hashOrder = .ok () ∧
      (gatedFlow "a:approve:b" "c").validate gateRegistry FlowGraph.Sample.hashOrder = .ok () ∧
      FlowGraph.build gateRegistry FlowGraph.Sample.hashOrder (gatedFlow "a" "b:approve:c")
        FlowGraph.Sample.ctx = .ok (gatedGraph "a" "b:approve:c") ∧
      FlowGraph.build gateRegistry FlowGraph.Sample.hashOrder (gatedFlow "a:approve:b" "c")
        FlowGraph.Sample.ctx = .ok (gatedGraph "a:approve:b" "c") ∧
      ¬ KeysApart (gatedExecutor "a" "b:approve:c" oneRun)
        (gatedExecutor "a:approve:b" "c" otherRun) := by
  refine ⟨rfl, rfl, rfl, rfl, fun apart => ?_⟩
  have same := (apart (.approve "b:approve:c") (.approve "c") ⟨_, _, rfl, rfl⟩ ⟨_, _, rfl, rfl⟩
    (by decide)).1
  exact absurd same (by decide)

/-- Flows whose names have no colons keep their keys apart. -/
theorem plain_gates_apart :
    KeysApart (gatedExecutor "orders" "gate" oneRun) (gatedExecutor "mail" "gate" otherRun) := by
  refine (keysApart_iff ⟨by decide, by decide, fun same => absurd same (by decide)⟩).mpr ⟨?_, ?_⟩
  · exact not_confuses_of_plain (by decide)
  · exact not_confuses_of_plain (by decide)

end Sample

end Sohara
