import Sohara.Async.History
import Sohara.Builtins.Accumulation
import Sohara.Runtime.Approval

/-! # Files of approved records

An approval pass flushes the sinks behind each record that it injects, and never otherwise. So
it calls a sink once for what each record leads to there, and a file keeps what several records
lead to only when lines are appended.
-/

namespace Sohara

open Async Async.Program

/-- What an operation calls of a sink, on a disk. -/
def Op.calls (sink : String) (disk : FileDisk) : Op → List FileSink.Call
  | .send other record => if other = sink then [.send record] else []
  | .flush other => if other = sink then [.flush disk] else []
  | _ => []

/-- Operations that do not flush. -/
def Op.IsUnflushed : Op → Prop
  | .flush _ => False
  | _ => True

/-- Operations that call no sink. -/
def Op.IsUncalled : Op → Prop
  | .flush _ => False
  | .send _ _ => False
  | _ => True

/-- The calls of a sink, each on the disk as it is then. -/
def sinkCalls (disk : World → FileDisk) (sink : String) (steps : List (Occurrence Engine World)) :
    List FileSink.Call :=
  steps.flatMap fun step => step.op.calls sink (disk step.world)

section Calls

variable {disk : World → FileDisk} {sink : String} {steps more : List (Occurrence Engine World)}

/-- The calls of two runs, one after the other. -/
theorem sinkCalls_append : sinkCalls disk sink (steps ++ more) =
    sinkCalls disk sink steps ++ sinkCalls disk sink more := List.flatMap_append

/-- Without flushes, records are sent. -/
theorem sinkCalls_of_unflushed (unflushed : Permitted Op.IsUnflushed steps) :
    ∃ records : List Record, sinkCalls disk sink steps = records.map .send := by
  induction steps with
  | nil => exact ⟨[], rfl⟩
  | cons step rest ih =>
      obtain ⟨records, same⟩ := ih fun other member =>
        unflushed other (List.mem_cons_of_mem _ member)
      have first : ∃ sent : List Record, step.op.calls sink (disk step.world) = sent.map .send := by
        have allowed := unflushed step List.mem_cons_self
        obtain ⟨task, world, op⟩ := step
        cases op with
        | flush other => exact allowed.elim
        | send other record =>
            by_cases here : other = sink
            · exact ⟨[record], if_pos here⟩
            · exact ⟨[], if_neg here⟩
        | _ => exact ⟨[], rfl⟩
      obtain ⟨sent, called⟩ := first
      refine ⟨sent ++ records, ?_⟩
      rw [List.map_append, ← called, ← same]
      rfl

/-- Other operations call no sink. -/
theorem sinkCalls_of_uncalled (uncalled : Permitted Op.IsUncalled steps) :
    sinkCalls disk sink steps = [] := by
  refine List.flatMap_eq_nil_iff.mpr fun step member => ?_
  have allowed := uncalled step member
  obtain ⟨task, world, op⟩ := step
  cases op with
  | flush other => exact allowed.elim
  | send other record => exact allowed.elim
  | _ => rfl

end Calls

namespace Executor

variable {executor : Executor}

/-- Nothing that happens at a node flushes. -/
theorem allows_unflushed (node : Node) : executor.Allows Op.IsUnflushed node where
  quiet op quiet := by cases op <;> first | exact quiet.elim | trivial
  state _ _ := trivial
  send _ _ := trivial
  lookup _ _ := trivial
  marker _ _ := trivial
  queue _ _ := trivial
  park _ _ _ := trivial
  wait _ _ := trivial
  join _ _ _ _ _ _ _ := trivial
  update _ _ := trivial
  collect _ _ _ _ := trivial
  merge _ := trivial
  emit _ _ := trivial

/-- Any calls may be awaited. -/
theorem leads_all (executor : Executor) (node : Node) : executor.Leads (fun _ => True) node :=
  ⟨fun _ _ _ => trivial, fun _ _ _ _ _ => trivial⟩

/-- Walks do not flush. -/
theorem unflushed_walkCall (call : Call) :
    Safe (S := Engine) (fun _ _ => True) Op.IsUnflushed (fun _ => True) (walkCall call) := by
  cases found : call.executor.graph.node call.node with
  | none =>
      unfold walkCall walk
      rw [found]
      exact Safe.bind (safe_op trivial) fun _ => safe_pure _
  | some node => exact safe_walk found (allows_unflushed node).performs (leads_all _ node) _

end Executor

section Passes

variable {host : Host} {executor : Executor} {gate : Node} {world after : World}
  {steps : List (Occurrence Engine World)} (disk : World → FileDisk) (sink : String)

/-- A program whose own operations do not flush sends records to a sink. -/
theorem sinkCalls_of_walks {α : Type} {program : Prog α} {value : α}
    (safe : Safe (S := Engine) (fun _ _ => True) Op.IsUnflushed (fun _ => True) program)
    (yields : Yields host program world steps value after) :
    ∃ records : List Record, sinkCalls disk sink steps = records.map .send :=
  sinkCalls_of_unflushed <|
    yields.permitted (fun call _ => Executor.unflushed_walkCall call) safe

/-- A program that calls neither a sink nor a walk. -/
abbrev Uncalled {α : Type} (program : Prog α) : Prop :=
  Safe (S := Engine) (fun _ _ => True) Op.IsUncalled (fun _ => False) program

/-- Such a program leaves every sink alone. -/
theorem sinkCalls_of_alone {α : Type} {program : Prog α} {value : α} (uncalled : Uncalled program)
    (yields : Yields host program world steps value after) : sinkCalls disk sink steps = [] :=
  sinkCalls_of_uncalled (yields.permitted (fun _ never => never.elim) uncalled)

/-- A checkpoint calls no sink. -/
theorem uncalled_checkpoint : Uncalled executor.checkpoint := by
  have saved : ∀ states, Uncalled (executor.saveStates states) := by
    intro states
    induction states with
    | nil => exact safe_pure _
    | cons entry rest ih => exact Safe.bind (safe_op trivial) fun _ => ih
  refine Safe.bind (safe_op trivial) fun stored => ?_
  cases stored with
  | false => exact safe_pure _
  | true =>
      exact Safe.bind (safe_op trivial) fun states =>
        (saved states).bind fun _ => safe_op trivial

/-- Each of the listed sinks is flushed once. -/
theorem sinkCalls_flushSinks {ids : List String} (distinct : ids.Nodup)
    (yields : Yields host (Executor.flushSinks ids) world steps (.ok ()) after) :
    (sink ∉ ids → sinkCalls disk sink steps = []) ∧
      (sink ∈ ids → ∃ found, sinkCalls disk sink steps = [.flush found]) := by
  induction ids generalizing world steps with
  | nil =>
      obtain ⟨rfl, -, -⟩ := evaluates_pure.mp yields
      exact ⟨fun _ => rfl, nofun⟩
  | cons id rest ih =>
      obtain ⟨more, rfl, others⟩ := evaluates_op_bind yields
      cases flushed : (World.perform host world (.flush id)).1 with
      | error failure =>
          rw [flushed] at others
          obtain ⟨-, same, -⟩ := evaluates_pure.mp others
          cases same
      | ok _ =>
          rw [flushed] at others
          rw [List.nodup_cons] at distinct
          obtain ⟨absent, present⟩ := ih distinct.2 others
          have split : sinkCalls disk sink (⟨0, world, .flush id⟩ :: more) =
              (if id = sink then [.flush (disk world)] else []) ++ sinkCalls disk sink more := rfl
          rw [split]
          by_cases here : id = sink
          · subst here
            rw [if_pos rfl, absent distinct.1]
            exact ⟨fun other => absurd List.mem_cons_self other, fun _ => ⟨_, rfl⟩⟩
          · rw [if_neg here, List.nil_append, List.mem_cons, or_iff_right (Ne.symm here)]
            exact ⟨absent, present⟩

/-- **One injection** sends records to a sink, and flushes it once. -/
theorem sinkCalls_injectAndFlush {record : Record} (listed : sink ∈ executor.sinks)
    (yields : Yields host (executor.injectAndFlush gate record) world steps (.ok ()) after) :
    ∃ chunk : FileSink.Chunk, sinkCalls disk sink steps =
      chunk.records.map .send ++ [.flush chunk.disk] := by
  have unflushed : ∀ node, executor.Performs (fun _ _ => True) Op.IsUnflushed (fun _ => True) node :=
    fun node => (Executor.allows_unflushed node).performs
  rcases evaluates_andThen.mp yields with ⟨_, same, -⟩ | ⟨routing, _, _, rfl, routed, flushing⟩
  · cases same
  rcases evaluates_andThen.mp flushing with ⟨_, same, -⟩ | ⟨batches, _, _, rfl, emitted, rest⟩
  · cases same
  rcases evaluates_andThen.mp rest with ⟨_, same, -⟩ | ⟨flushes, saving, _, rfl, flushed, saved⟩
  · cases same
  obtain ⟨first, forwarded⟩ := sinkCalls_of_walks disk sink
    (Executor.safe_route (unflushed gate) (executor.leads_all gate) record) routed
  obtain ⟨second, collected⟩ := sinkCalls_of_walks disk sink
    (Executor.safe_flushBatches_of_emits (fun _ _ => trivial) fun _ _ node _ _ =>
      Executor.safe_emitBatch (unflushed node) (executor.leads_all node) trivial) emitted
  have distinct : executor.sinks.Nodup := List.Nodup.filter _ Std.TreeMap.nodup_keys
  obtain ⟨found, once⟩ := (sinkCalls_flushSinks disk sink distinct flushed).2 listed
  have silent : sinkCalls disk sink saving = [] :=
    sinkCalls_of_alone disk sink (uncalled_checkpoint.bind fun _ => safe_pure _) saved
  refine ⟨⟨first ++ second, found⟩, ?_⟩
  simp only [sinkCalls_append, forwarded, collected, once, silent, List.map_append,
    List.append_nil, List.append_assoc]

/-- **Injections** call a sink as approvals do, once for each record. -/
theorem sinkCalls_injectAll {records : List Record} (listed : sink ∈ executor.sinks)
    (yields : Yields host (executor.injectAll gate records) world steps (.ok ()) after) :
    ∃ parts : List FileSink.Chunk, parts.length = records.length ∧
      sinkCalls disk sink steps = FileSink.approvals parts := by
  induction records generalizing world steps with
  | nil =>
      obtain ⟨rfl, -, -⟩ := evaluates_pure.mp yields
      exact ⟨[], rfl, rfl⟩
  | cons record rest ih =>
      rcases evaluates_andThen.mp yields with ⟨_, same, -⟩ | ⟨_, _, _, rfl, injected, others⟩
      · cases same
      obtain ⟨chunk, called⟩ := sinkCalls_injectAndFlush disk sink listed injected
      obtain ⟨parts, length, more⟩ := ih others
      refine ⟨chunk :: parts, congrArg (· + 1) length, ?_⟩
      rw [sinkCalls_append, called, more]
      rfl

/-- Making records calls no sink. -/
theorem uncalled_newRecords (payloads : List Value) : Uncalled (Executor.newRecords payloads) := by
  induction payloads with
  | nil => exact safe_pure _
  | cons payload rest ih => exact Safe.bind (safe_op trivial) fun _ => ih.bind fun _ => safe_pure _

/-- Taking a queue calls no sink. -/
theorem uncalled_takeApproveQueue (id : String) : Uncalled (executor.takeApproveQueue id) := by
  refine Safe.bind (safe_op trivial) fun stored => ?_
  cases stored with
  | false => exact safe_pure _
  | true =>
      refine Safe.bind (safe_op trivial) fun loaded => ?_
      cases loaded with
      | error failure => exact safe_pure _
      | ok content =>
          refine Safe.bind (safe_op trivial) fun deleted => ?_
          cases deleted with
          | error failure => exact safe_pure _
          | ok _ => exact (uncalled_newRecords _).bind fun _ => safe_pure _

/-- The release of a gate calls a sink once for each record of its queue. -/
theorem sinkCalls_approveNode {count : Nat} (listed : sink ∈ executor.sinks)
    (yields : Yields host (executor.approveNode gate) world steps (.ok count) after) :
    ∃ parts : List FileSink.Chunk, parts.length = count ∧
      sinkCalls disk sink steps = FileSink.approvals parts := by
  rcases yields_approveNode yields with
    ⟨_, same, -⟩ | ⟨taking, injecting, released, _, outcome, rfl, took, injected, same⟩
  · cases same
  cases outcome with
  | error failure => cases same
  | ok _ =>
      cases same
      obtain ⟨parts, length, called⟩ := sinkCalls_injectAll disk sink listed injected
      refine ⟨parts, length, ?_⟩
      rw [sinkCalls_append, sinkCalls_of_alone disk sink (uncalled_takeApproveQueue gate.id) took,
        List.nil_append, called]

/-- Gates are released one after the other. -/
theorem sinkCalls_approveNodes {nodes : List Node} {approved total : Nat}
    (listed : sink ∈ executor.sinks)
    (yields : Yields host (executor.approveNodes approved nodes) world steps (.ok total) after) :
    ∃ parts : List FileSink.Chunk, approved + parts.length = total ∧
      sinkCalls disk sink steps = FileSink.approvals parts := by
  induction nodes generalizing world steps approved with
  | nil =>
      obtain ⟨rfl, same, -⟩ := evaluates_pure.mp yields
      cases same
      exact ⟨[], rfl, rfl⟩
  | cons node rest ih =>
      obtain ⟨_, _, visited, _, rfl, released, others⟩ := evaluates_bind.mp yields
      cases visited with
      | error failure =>
          obtain ⟨-, same, -⟩ := evaluates_pure.mp others
          cases same
      | ok count =>
          obtain ⟨parts, length, called⟩ := sinkCalls_approveNode disk sink listed released
          obtain ⟨later, total, more⟩ := ih others
          refine ⟨parts ++ later, ?_, ?_⟩
          · rw [List.length_append]
            omega
          · rw [sinkCalls_append, called, more]
            exact List.flatMap_append.symm

theorem uncalled_freshRunId (flow : String) : Uncalled (freshRunId flow) := by
  refine Safe.bind (safe_op trivial) fun id => Safe.bind (safe_op trivial) fun stored => ?_
  cases stored with
  | false => exact safe_pure _
  | true => exact Safe.bind (safe_op trivial) fun _ => safe_pure _

/-- The id of the run is looked up, or drawn and saved. -/
theorem uncalled_resolveRunId (flow : String) : Uncalled (resolveRunId flow true) := by
  refine Safe.bind (safe_op trivial) fun stored => ?_
  cases stored with
  | false => exact uncalled_freshRunId flow
  | true =>
      refine Safe.bind (safe_op trivial) fun loaded => ?_
      match loaded with
      | .ok (some (.string id)) => exact safe_pure _
      | .ok (some .null) | .ok (some (.bool _)) | .ok (some (.number _)) | .ok (some (.array _))
      | .ok (some (.object _)) | .ok none | .error _ => exact uncalled_freshRunId flow

/-- Setting up the states calls no sink. -/
theorem uncalled_initialStates (runId : String) (nodes : List Node) :
    Uncalled (initialStates runId true nodes) := by
  induction nodes with
  | nil => exact safe_pure _
  | cons node rest ih =>
      have initial : Uncalled (initialState runId true node) := by
        refine Safe.bind (safe_op trivial) fun stored => ?_
        cases stored with
        | false => exact safe_pure _
        | true =>
            refine Safe.bind (safe_op trivial) fun loaded => ?_
            match loaded with
            | .ok (some _) => exact safe_pure _
            | .ok none | .error _ => exact safe_pure _
      refine initial.bind fun value => ?_
      split
      · exact Safe.bind (safe_op trivial) fun _ => ih
      · exact ih

/-- **The calls of an approval pass**: those of as many approvals as it has released records,
at every sink of the flow. -/
theorem approved_calls {env : ExecutorEnv} {registry : Registry} {flow : FlowConfig}
    {step : Option String} {graph : FlowGraph} {approved : Nat} {node : Node}
    (built : FlowGraph.build registry env.hashOrder flow (approvalContext flow) = .ok graph)
    (found : graph.node sink = some node) (isSink : node.step = .sink)
    (yields : Yields host (approvePending env registry flow step) world steps (.ok approved)
      after) :
    ∃ parts : List FileSink.Chunk, parts.length = approved ∧
      sinkCalls disk sink steps = FileSink.approvals parts := by
  have opened : approvePending env registry flow step =
      approveGraph env graph flow.vars.toList step := by
    unfold approvePending
    dsimp only
    unfold approvalContext at built
    rw [built]
  rw [opened] at yields
  obtain ⟨creating, passing, executor, _, rfl, created, released⟩ := evaluates_bind.mp yields
  obtain ⟨resolving, _, runId, _, rfl, resolved, others⟩ := evaluates_bind.mp created
  obtain ⟨starting, _, _, _, rfl, started, ended⟩ := evaluates_bind.mp others
  obtain ⟨rfl, rfl, rfl⟩ := evaluates_pure.mp ended
  have passed := fun listed => sinkCalls_approveNodes disk sink listed released
  obtain ⟨parts, length, called⟩ := passed <| Executor.mem_sinks.mpr
    ⟨(BTreeMap.mem_keys _ _).mpr ⟨node, found⟩, (Executor.isSink_iff found).mpr isSink⟩
  rw [Nat.zero_add] at length
  refine ⟨parts, length, ?_⟩
  rw [sinkCalls_append, sinkCalls_append, sinkCalls_append, called,
    sinkCalls_of_alone disk sink (uncalled_resolveRunId graph.name) resolved,
    sinkCalls_of_alone disk sink (uncalled_initialStates runId graph.nodeList) started]
  rfl

/-- **Files of approved records.** When at least two released records send something to a file
sink, its file has everything that is sent exactly when lines are appended and no flush has
found a disk that fails. -/
theorem approved_held_iff {env : ExecutorEnv} {registry : Registry} {flow : FlowConfig}
    {step : Option String} {graph : FlowGraph} {approved : Nat} {node : Node}
    (built : FlowGraph.build registry env.hashOrder flow (approvalContext flow) = .ok graph)
    (found : graph.node sink = some node) (isSink : node.step = .sink)
    (yields : Yields host (approvePending env registry flow step) world steps (.ok approved)
      after)
    {json : JsonCodec} {csv : CsvCodec} {file : FileSink} {path : String} {format : Format}
    {append : Bool} (lawful : json.Lawful) (opened : FileSink.build path format append = .ok file)
    (storable : FileSink.Storable json csv format (FileSink.sent (sinkCalls disk sink steps)))
    (countable : FileSink.Countable csv file (sinkCalls disk sink steps))
    (several : 1 < (FileSink.chunks (sinkCalls disk sink steps)).length) :
    FileSink.Holds json csv file (file.run json csv (sinkCalls disk sink steps)).file
        (FileSink.sent (sinkCalls disk sink steps)) ↔
      file.format = .jsonl ∧ file.append = true ∧
        ∀ chunk ∈ FileSink.chunks (sinkCalls disk sink steps), chunk.disk.Serves := by
  obtain ⟨parts, -, called⟩ := approved_calls disk sink built found isSink yields
  rw [called] at storable countable several ⊢
  have sending : FileSink.chunks (FileSink.approvals parts) = FileSink.sending parts :=
    congrArg Prod.fst (FileSink.chunksFrom_approvals parts)
  rw [sending] at several ⊢
  have some_ : parts ≠ [] := by
    rintro rfl
    cases several
  obtain ⟨_, flushed⟩ := FileSink.getLast?_approvals some_
  rw [← (FileSink.mode_of_build opened).1] at storable
  rw [← FileSink.kept_approvals_iff several]
  exact ⟨FileSink.kept_of_holds lawful opened flushed storable countable,
    FileSink.holds_of_kept lawful flushed storable⟩

end Passes

end Sohara
