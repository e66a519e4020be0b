import Sohara.Runtime.Approving

/-! # Processes over one store file

Every process of a flow opens the store file with a handle of its own, which reads
the file once, caches all its entries, and rewrites the whole file on each write.
`Fleet` is the file with the processes over it; serving and approving processes run
their tasks over it in any order.
-/

namespace Sohara

open Async Async.Program

/-- The store file, and the processes that have opened it. -/
structure Fleet where
  file : Entries
  processes : Nat → Option World

namespace Fleet

/-- A process as it finds the file; a new one reads it. -/
def process (fleet : Fleet) (index : Nat) : World :=
  match fleet.processes index with
  | some world => { world with file := fleet.file }
  | none => .start (some fleet.file) fleet.file fun _ => []

/-- The response to an operation of one process, and its effect. -/
def perform (hosts : Nat → Host) (index : Nat) : Handler Engine Fleet := fun fleet op =>
  let answered := World.perform (hosts index) (fleet.process index) op
  (answered.1, ⟨answered.2.file, Function.update fleet.processes index (some answered.2)⟩)

/-- A process opens the file before its first operation. -/
inductive Opens (fleet : Fleet) : Fleet → Prop where
  | opens (index : Nat) (closed : fleet.processes index = none) :
      Opens fleet
        ⟨fleet.file, Function.update fleet.processes index (some (fleet.process index))⟩

/-- The handle of a process is as new as the file. -/
def Fresh (fleet : Fleet) (index : Nat) : Prop :=
  (fleet.process index).store = some fleet.file

end Fleet

/-- The context in which an approval pass builds its graph. -/
def approvalContext (flow : FlowConfig) : BuildContext where
  vars := flow.vars.toList
  bus := false
  flow := flow.name
  step := none

/-- A process approves what is pending. -/
def approval (env : ExecutorEnv) (registry : Registry) (flow : FlowConfig)
    (step : Option String) : Prog Outcome := do
  let approved ← approvePending env registry flow step
  return approved.map fun _ => ()

/-- The tasks of a serving process: creating an executor, running a source, and flushing. -/
inductive ServesFlow (flow : String) : Prog Outcome → Prop where
  | create (env : ExecutorEnv) (graph : FlowGraph) (vars : Fields) (config : ExecutorConfig)
      (named : graph.name = flow) :
      ServesFlow flow (do let _ ← newExecutor env graph vars config; return .ok ())
  | source (executor : Executor) (root : String) (named : executor.flowName = flow)
      (plain : PlainId flow executor.runId) : ServesFlow flow (executor.runSource root)
  | flush (executor : Executor) (named : executor.flowName = flow)
      (plain : PlainId flow executor.runId) : ServesFlow flow executor.flushAll

/-- The tasks of the processes of a flow. -/
inductive Duty (flow : String) : Prog Outcome → Prop where
  | serve {program : Prog Outcome} (serves : ServesFlow flow program) : Duty flow program
  | approve (env : ExecutorEnv) (registry : Registry) (config : FlowConfig) (step : Option String)
      (named : config.name = flow) : Duty flow (approval env registry config step)

/-- ServesFlow parks, and takes nothing. -/
theorem ServesFlow.parks {flow : String} {takes : Bool} {program : Prog Outcome}
    (serves : ServesFlow flow program) : ParksPlain flow takes (fun _ => True) program := by
  cases serves with
  | create env graph vars config named =>
      subst named
      exact (parksPlain_newExecutor env graph vars config).bind fun _ _ => parksPlain_pure trivial
  | source executor root named plain =>
      subst named
      exact parksPlain_of_parks rfl (Executor.parks_runSource plain root)
  | flush executor named plain =>
      subst named
      exact parksPlain_of_parks rfl (Executor.parks_flushAll plain)

/-- A pass parks too, and takes queues. -/
theorem parksPlain_approval {flow : FlowConfig} (env : ExecutorEnv) (registry : Registry)
    (step : Option String) :
    ParksPlain flow.name true (fun _ => True) (approval env registry flow step) := by
  have approves : ParksPlain flow.name true (fun _ => True)
      (approvePending env registry flow step) := by
    unfold approvePending
    dsimp only
    split
    · exact parksPlain_pure trivial
    · next graph built =>
        rw [← FlowGraph.name_of_build built]
        exact parksPlain_approveGraph env graph _ step
  exact approves.bind fun _ _ => parksPlain_pure trivial

/-- Every task follows the parking protocol. -/
theorem Duty.parks {flow : String} {program : Prog Outcome} (duty : Duty flow program) :
    ParksPlain flow true (fun _ => True) program := by
  cases duty with
  | serve serves => exact serves.parks
  | approve env registry config step named =>
      subst named
      exact parksPlain_approval env registry step

section Ledger

/-- What the tasks have seen of a queue, and what has been taken from it. -/
structure Ledger where
  seen : Nat → List Value
  taken : List Value

/-- A load sees the queue; a delete takes what its task has seen. -/
def Ledger.note (key : String) (owner : Nat → Nat) (ledger : Ledger)
    (step : Occurrence Engine Fleet) : Ledger :=
  match step.op with
  | .load other =>
      let found := (step.world.process (owner step.task)).queue key
      if other = key then { ledger with seen := Function.update ledger.seen step.task found }
      else ledger
  | .delete other =>
      if other = key then { ledger with taken := ledger.taken ++ ledger.seen step.task }
      else ledger
  | _ => ledger

/-- The ledger of a queue after a run. -/
def ledger (key : String) (owner : Nat → Nat) (steps : List (Occurrence Engine Fleet)) : Ledger :=
  steps.foldl (Ledger.note key owner) ⟨fun _ => [], []⟩

/-- The records taken from a queue, in the order in which they are taken. -/
def takenAt (key : String) (owner : Nat → Nat) (steps : List (Occurrence Engine Fleet)) :
    List Value := (ledger key owner steps).taken

/-- The file all writes of a run have gone through to, one after the other. -/
def writtenThrough (file : Entries) (steps : List (Occurrence Engine Fleet)) : Entries :=
  steps.foldl (fun entries step => World.stored step.op entries) file

/-- Every write is by a process whose handle is as new as the file, and writes to
approve queues are undisturbed. -/
def Careful (flow : String) (owner : Nat → Nat) (steps : List (Occurrence Engine Fleet)) : Prop :=
  EachStep (fun before step => ∀ key, Op.writes key step.op = true →
    step.world.Fresh (owner step.task) ∧
      (isQueueKey flow key = true → UpToDate key step.task before)) steps

variable {key : String} {owner : Nat → Nat} {steps : List (Occurrence Engine Fleet)}
  {step : Occurrence Engine Fleet}

theorem ledger_snoc :
    ledger key owner (steps ++ [step]) = (ledger key owner steps).note key owner step :=
  List.foldl_concat ..

theorem writtenThrough_snoc {file : Entries} : writtenThrough file (steps ++ [step]) =
    World.stored step.op (writtenThrough file steps) :=
  List.foldl_concat ..

/-- Runs are careful when all writes are by fresh handles and no queue is disturbed. -/
theorem careful_of_fresh {flow : String}
    (fresh : ∀ step ∈ steps, ∀ key, Op.writes key step.op = true →
      step.world.Fresh (owner step.task))
    (queues : ∀ key, isQueueKey flow key = true → Undisturbed key steps) :
    Careful flow owner steps := by
  rintro before step after rfl key writes
  have member : step ∈ before ++ step :: after :=
    List.mem_append_right _ List.mem_cons_self
  exact ⟨fresh step member key writes, fun isQueue =>
    queues key isQueue before step after rfl writes⟩

variable (step) in
/-- Operations that neither load nor write the key leave its ledger as it is. -/
theorem Ledger.note_other (ledger : Ledger) (loads : Op.loads key step.op = false)
    (writes : Op.writes key step.op = false) : ledger.note key owner step = ledger := by
  obtain ⟨task, fleet, op⟩ := step
  cases op with
  | load other => exact if_neg (of_decide_eq_false loads)
  | delete other => exact if_neg (of_decide_eq_false writes)
  | _ => rfl

end Ledger

namespace Fleet

variable {fleet : Fleet} {hosts : Nat → Host} {index : Nat} {op : Op}

theorem process_file (index : Nat) : (fleet.process index).file = fleet.file := by
  unfold process
  cases fleet.processes index <;> rfl

theorem processes_perform_self : (perform hosts index fleet op).2.processes index =
    some (World.perform (hosts index) (fleet.process index) op).2 :=
  Function.update_self ..

/-- The process that performs an operation. -/
theorem process_perform_self : ((perform hosts index fleet op).2.process index).store =
    (fleet.process index).store.map (World.stored op) := by
  unfold process
  rw [processes_perform_self]
  exact World.perform_store (hosts index) (fleet.process index) op

variable (hosts op) in
theorem processes_perform_of_ne {other : Nat} (different : other ≠ index) :
    (perform hosts index fleet op).2.processes other = fleet.processes other :=
  Function.update_of_ne different _ _

/-- Under a key that is not written, every open handle keeps its queue. -/
theorem queue_perform {key : String} (silent : Op.writes key op = false) {other : Nat}
    (opened : (fleet.processes other).isSome = true) :
    ((perform hosts index fleet op).2.process other).queue key =
      (fleet.process other).queue key := by
  unfold World.queue
  by_cases same : other = index
  · subst same
    rw [process_perform_self]
    cases (fleet.process other).store with
    | none => rfl
    | some entries => exact congrArg Executor.queued (World.stored_of_not_writes entries silent)
  · obtain ⟨world, found⟩ := Option.isSome_iff_exists.mp opened
    have kept := (processes_perform_of_ne hosts op same).trans found
    unfold process
    rw [kept, found]

/-- A write by a fresh handle changes the file by that write only. -/
theorem file_perform (persists : ∀ time, (hosts index).persist time = .ok ())
    (fresh : ∀ key, Op.writes key op = true → fleet.Fresh index) :
    (perform hosts index fleet op).2.file = World.stored op fleet.file := by
  have through := World.perform_file (hosts index) (fleet.process index) persists op
  rw [process_file] at through
  exact through fresh

variable (fleet hosts index op) in
/-- The file is left alone or replaced by the cached entries. -/
theorem file_perform_cases : (perform hosts index fleet op).2.file = fleet.file ∨
    ∃ entries, (fleet.process index).store = some entries ∧
      (perform hosts index fleet op).2.file = World.stored op entries := by
  have cases_ := World.perform_file_cases (hosts index) (fleet.process index) op
  rwa [process_file] at cases_

/-- Operations that write nothing leave all entries alone. -/
theorem stored_of_silent {entries : Entries} (silent : ∀ key, Op.writes key op = false) :
    World.stored op entries = entries :=
  funext fun key => World.stored_of_not_writes entries (silent key)

/-- Operations by the process itself, and those that write nothing, leave its handle fresh. -/
theorem Fresh.perform {process : Nat} (persists : ∀ time, (hosts index).persist time = .ok ())
    (fresh : fleet.Fresh process) (sole : ∀ key, Op.writes key op = true → index = process) :
    (Fleet.perform hosts index fleet op).2.Fresh process := by
  by_cases same : process = index
  · subst same
    unfold Fresh
    rw [process_perform_self, fresh, file_perform persists fun _ _ => fresh]
    rfl
  · have silent : ∀ key, Op.writes key op = false := fun key =>
      Bool.eq_false_iff.mpr fun writes => same (sole key writes).symm
    have file : (Fleet.perform hosts index fleet op).2.file = fleet.file := by
      rw [file_perform persists fun key writes => absurd (sole key writes).symm same]
      exact stored_of_silent silent
    unfold Fresh Fleet.process at fresh ⊢
    rw [processes_perform_of_ne hosts op same, file]
    cases opened : fleet.processes process with
    | none => rfl
    | some world =>
        rw [opened] at fresh
        exact fresh

/-- A handle stays fresh when files are opened. -/
theorem Fresh.opens {after : Fleet} {process : Nat} (fresh : fleet.Fresh process)
    (opens : Opens fleet after) : after.Fresh process := by
  obtain ⟨index, closed⟩ := opens
  by_cases same : process = index
  · subst same
    unfold Fresh
    rw [show (Fleet.process ⟨fleet.file, Function.update fleet.processes process
        (some (fleet.process process))⟩ process).store = (fleet.process process).store by
      unfold Fleet.process
      dsimp only
      rw [Function.update_self]]
    exact fresh
  · unfold Fresh Fleet.process at fresh ⊢
    dsimp only
    rw [Function.update_of_ne same]
    exact fresh

section SoleWriter

variable {owner : Nat → Nat} {start config : Config Engine Fleet}
  {steps : List (Occurrence Engine Fleet)} {process : Nat}

/-- **A sole writer stays fresh.** As long as only one process writes, and its handle is as new
as the file at first, all writes are by a fresh handle. -/
theorem fresh_of_sole_writer (persists : ∀ process time, (hosts process).persist time = .ok ())
    (run : Config.Run (S := Engine) walkCall (fun task => perform hosts (owner task)) Opens start
      steps config)
    (fresh : start.world.Fresh process)
    (sole : ∀ step ∈ steps, ∀ key, Op.writes key step.op = true → owner step.task = process) :
    config.world.Fresh process ∧
      ∀ step ∈ steps, ∀ key, Op.writes key step.op = true →
        step.world.Fresh (owner step.task) := by
  induction run with
  | refl => exact ⟨fresh, fun _ member => nomatch member⟩
  | silent index run selected step ih => exact ih sole
  | environment run opens ih =>
      obtain ⟨kept, writers⟩ := ih sole
      exact ⟨kept.opens opens, writers⟩
  | event index op run selected step ih =>
      obtain ⟨kept, writers⟩ := ih fun other member => sole other (List.mem_append_left _ member)
      have last := sole _ (List.mem_append_right _ List.mem_cons_self)
      refine ⟨kept.perform (persists _) last, fun other member key writes => ?_⟩
      rcases List.mem_append.mp member with old | new
      · exact writers other old key writes
      · obtain rfl := List.mem_singleton.mp new
        rw [last key writes]
        exact kept

end SoleWriter

end Fleet

end Sohara
