import Sohara.Async.Ensures
import Sohara.Async.History
import Sohara.Runtime.RunMeaning
import Sohara.Runtime.Serve

/-! # What is left when an executor returns

An executor returns early when it finds that a source has failed, when the final flush fails,
and, served, when a trigger does not stop; then other sources may still run, and sinks may
hold records that are not flushed. When it takes no early exit, every source has ended when it
returns, and every sink has been flushed after the last record it accepted.
-/

namespace Sohara

open Async Async.Program

namespace World

variable (host : Host) (world : World)

/-- What the sinks hold changes only when a record is sent or a sink is flushed. -/
theorem perform_buffered {op : Op} (unsent : ∀ sink record, op ≠ .send sink record)
    (unflushed : ∀ sink, op ≠ .flush sink) :
    (perform host world op).2.buffered = world.buffered := by
  have writes : op.isWrite = true → (perform host world op).2.buffered = world.buffered := by
    intro writes
    obtain ⟨_, _, _, same⟩ := perform_write_frame host world writes
    exact (congrArg buffered same :)
  cases op with
  | send sink record => exact absurd rfl (unsent sink record)
  | flush sink => exact absurd rfl (unflushed sink)
  | save key value => exact writes rfl
  | delete key => exact writes rfl
  | _ => rfl

/-- A flush empties its sink and leaves the others. -/
theorem flush_buffered (sink other : String) :
    (perform host world (.flush sink)).2.buffered other =
      if other = sink then [] else world.buffered other := by
  show (world.flush host sink).2.buffered other = _
  unfold flush
  by_cases empty : world.buffered sink = []
  · rw [if_pos empty]
    split
    · next same => rw [same, empty]
    · rfl
  · rw [if_neg empty]
    have updated : Function.update world.buffered sink [] other =
        if other = sink then [] else world.buffered other := Function.update_apply ..
    cases host.flush sink (world.buffered sink) <;> exact updated

/-- A send leaves the other sinks. -/
theorem send_buffered_of_ne {sink other : String} (different : other ≠ sink) (record : Record) :
    (perform host world (.send sink record)).2.buffered other = world.buffered other := by
  show (world.send host sink record).2.buffered other = _
  unfold send
  cases host.send sink (historyOf sink world.sent) record with
  | error error => rfl
  | ok _ => exact Function.update_of_ne different _ _

end World

namespace Executor

section Contents

variable {executor : Executor} {host : Host} {world after : World}

/-- Records are sent to sinks only. -/
def SendsToSinks (executor : Executor) (op : Op) : Prop :=
  ∀ sink record, op = .send sink record → sink ∈ executor.sinks

/-- Only sinks hold records. -/
def Contained (executor : Executor) (world : World) : Prop :=
  ∀ sink, world.buffered sink ≠ [] → sink ∈ executor.sinks

/-- The walks of an executor. -/
def Own (executor : Executor) (call : Call) : Prop := call.executor = executor

theorem Contained.perform {op : Op} (contained : executor.Contained world)
    (permitted : executor.SendsToSinks op) :
    executor.Contained (World.perform host world op).2 := by
  intro sink holds
  by_cases sending : ∃ other record, op = .send other record
  · obtain ⟨other, record, rfl⟩ := sending
    by_cases same : sink = other
    · rw [same]
      exact permitted other record rfl
    · rw [World.send_buffered_of_ne host world same] at holds
      exact contained sink holds
  · by_cases flushing : ∃ other, op = .flush other
    · obtain ⟨other, rfl⟩ := flushing
      rw [World.flush_buffered] at holds
      split at holds
      · exact absurd rfl holds
      · exact contained sink holds
    · rw [World.perform_buffered host world (fun other record same =>
        sending ⟨other, record, same⟩) fun other same => flushing ⟨other, same⟩] at holds
      exact contained sink holds

theorem allows_sendsToSinks {node : Node} (isSink : node.step = .sink → node.id ∈ executor.sinks) :
    executor.Allows executor.SendsToSinks node where
  quiet op quiet sink record same := by
    subst same
    exact quiet.elim
  state _ _ _ _ same := by cases same
  send sends record sink other same := by
    cases same
    exact isSink sends
  lookup _ _ _ _ same := by cases same
  marker _ _ _ _ same := by cases same
  queue _ _ _ _ same := by cases same
  park _ _ _ _ _ same := by cases same
  wait _ _ _ _ same := by cases same
  join _ _ _ _ _ _ _ _ _ same := by cases same
  update _ _ _ _ same := by cases same
  collect _ _ _ _ _ _ same := by cases same
  merge _ _ _ same := by cases same
  emit _ _ _ _ same := by cases same

theorem leads_own (node : Node) : executor.Leads executor.Own node :=
  ⟨fun _ _ _ => rfl, fun _ _ _ _ _ => rfl⟩

variable (formed : executor.graph.WellFormed)
include formed

/-- Walks send to sinks only. -/
theorem sendsToSinks_walkCall (call : Call) (own : executor.Own call) :
    (walkCall call).Obeys (S := Engine) (fun _ _ => True) executor.SendsToSinks executor.Own
      fun _ => True := by
  unfold walkCall
  rw [own]
  cases found : executor.graph.node call.node with
  | none =>
      unfold walk
      rw [found]
      exact Safe.bind (safe_op fun _ _ same => nomatch same) fun _ => safe_pure _
  | some node =>
      refine safe_walk found (allows_sendsToSinks fun sends => ?_).performs (leads_own node) _
      rw [mem_sinks, formed.named found]
      exact ⟨Std.TreeMap.mem_keys.mpr (Std.TreeMap.isSome_getElem?_iff_mem.mp (by
        show (executor.graph.node call.node).isSome = true
        rw [found]
        rfl)), (isSink_iff found).mpr sends⟩

omit formed in
theorem sendsToSinks_process (root : String) (item : Item) :
    (executor.process root item).Obeys (S := Engine) (fun _ _ => True) executor.SendsToSinks
      executor.Own fun _ => True := by
  cases item with
  | ok record => exact safe_call rfl
  | error error =>
      exact Safe.bind (safe_op fun _ _ same => nomatch same) fun _ =>
        Safe.bind (safe_op fun _ _ same => nomatch same) fun _ => safe_pure _

omit formed in
theorem sendsToSinks_flushBatches : Safe (S := Engine) (fun _ _ => True) executor.SendsToSinks
    executor.Own (executor.flushBatches executor.batches) :=
  safe_flushBatches (@allows_sendsToSinks executor default nofun).performs
    (fun _ member => (mem_batches.mp member).2) (fun _ _ _ _ same => nomatch same)
    (fun _ _ _ same => nomatch same) fun _ node _ _ => leads_own node

omit formed in
theorem sendsToSinks_flushAll : Safe (S := Engine) (fun _ _ => True) executor.SendsToSinks
    executor.Own executor.flushAll :=
  safe_flushAll (@allows_sendsToSinks executor default nofun).performs
    (fun _ _ _ _ same => nomatch same) (fun _ _ _ _ same => nomatch same)
    (fun _ _ _ same => nomatch same) fun _ node _ _ => leads_own node

omit formed in
/-- When all of the listed sinks are flushed, they are empty, and so are those that were. -/
theorem ensures_flushSinks (ids : List String) :
    Ensures (S := Engine) walkCall (World.perform host) (flushSinks ids) world
      fun outcome after => outcome = .ok () → ∀ sink,
        sink ∈ ids ∨ world.buffered sink = [] → after.buffered sink = [] := by
  induction ids generalizing world with
  | nil =>
      apply ensures_pure
      intro _ sink emptied
      rcases emptied with member | empty
      · cases member
      · exact empty
  | cons id rest ih =>
      apply ensures_op_bind
      have flushed := World.flush_buffered host world id
      cases answered : (World.perform host world (.flush id)).1 with
      | error error => exact ensures_pure nofun
      | ok _ =>
          refine ih.mono fun outcome after emptied succeeded sink listed => ?_
          apply emptied succeeded
          rw [flushed]
          by_cases here : sink = id
          · exact .inr (if_pos here)
          · rw [if_neg here]
            rcases listed with member | empty
            · exact .inl ((List.mem_cons.mp member).resolve_left here)
            · exact .inr empty

omit formed in
/-- A checkpoint leaves the sinks alone. -/
theorem ensures_checkpoint : Ensures (S := Engine) walkCall (World.perform host)
    executor.checkpoint world fun _ after => after.buffered = world.buffered := by
  have saved (states : Assoc Value) (world : World) :
      Ensures (S := Engine) walkCall (World.perform host) (executor.saveStates states) world
        fun _ after => after.buffered = world.buffered := by
    induction states generalizing world with
    | nil => exact ensures_pure rfl
    | cons entry rest ih =>
        have kept : (World.perform host world
            (.save (executor.stateKey entry.1) entry.2)).2.buffered = world.buffered :=
          World.perform_buffered host world nofun nofun
        apply ensures_op_bind
        exact (ih _).mono fun _ after same => same.trans kept
  apply ensures_op_bind
  split
  · apply ensures_op_bind
    apply Ensures.bind
    refine (saved _ _).mono fun _ after same => ?_
    have kept : (World.perform host after .resetCheckpoint).2.buffered = after.buffered :=
      World.perform_buffered host after nofun nofun
    exact ensures_op (kept.trans same)
  · exact ensures_pure rfl

/-- **A final flush that succeeds** leaves nothing in any sink. -/
theorem ensures_flushAll (contained : executor.Contained world) :
    Ensures (S := Engine) walkCall (World.perform host) executor.flushAll world
      fun outcome after => outcome = .ok () → ∀ sink, after.buffered sink = [] := by
  intro steps outcome after evaluates succeeded sink
  rcases evaluates_andThen.mp evaluates with ⟨failure, rfl, -⟩ | ⟨_, _, middle, -, emitted, rest⟩
  · cases succeeded
  · have held : executor.Contained middle := by
      have permitted := emitted.permitted (sendsToSinks_walkCall formed) sendsToSinks_flushBatches
      exact emitted.keeps (fun step member kept => kept.perform (permitted step member)) contained
    rcases evaluates_andThen.mp rest with ⟨failure, rfl, -⟩ | ⟨_, _, between, -, flushed, last⟩
    · cases succeeded
    · have emptied := ensures_flushSinks executor.sinks _ _ _ flushed rfl sink
      obtain ⟨_, _, _, final, -, checkpointed, returned⟩ := evaluates_bind.mp last
      obtain ⟨-, -, rfl⟩ := evaluates_pure.mp returned
      rw [ensures_checkpoint _ _ _ checkpointed]
      apply emptied
      by_cases empty : middle.buffered sink = []
      · exact .inr empty
      · exact .inl (held sink empty)

end Contents

end Executor

namespace Serving

section Invariant

/-- Every source has ended, and no sink holds a record. -/
structure Quiescent (state : Serving) : Prop where
  ended : ∀ pumping ∈ state.sources, ∃ outcome, pumping = .ended outcome
  flushed : ∀ sink, state.world.buffered sink = []

/-- No early exit is taken at a moment: not for a failed source, not for a failure of the
final flush, and not for a trigger that does not stop. -/
def Moment.Smooth (moment : Moment) : Prop :=
  match moment.event with
  | .failed => False
  | .finished (.error _) => False
  | .unstopped _ _ => False
  | _ => True

variable (executor : Executor) (host : Host) (triggers : List String)

/-- No run from a state sends a record to a sink. -/
def Silent (state : Serving) : Prop :=
  ∀ moments later, Run executor host triggers state moments later →
    later.world.sent = state.world.sent

/-- What the main task has seen: the sources it has joined, all of them and the final flush so
far, or everything. -/
def Seen (state : Serving) : Prop :=
  match state.main with
  | .joining index => ∀ earlier < index, state.sources[earlier]? = some (.ended (.ok ()))
  | .finishing task =>
      (∀ pumping ∈ state.sources, ∃ outcome, pumping = .ended outcome) ∧
        ∃ world steps, executor.Contained world ∧
          Task.Ran (S := Engine) walkCall (World.perform host) (.run executor.flushAll) world
            steps task state.world
  | .returned _ => state.Quiescent

/-- The state of a run in which no early exit has been taken. -/
structure Sound (state : Serving) : Prop where
  contained : executor.Contained state.world
  working : ∀ (index : Nat) (task : Task Engine), state.sources[index]? = some (.working task) →
    task.Obeys (fun _ _ => True) executor.SendsToSinks executor.Own
  seen : state.Seen executor host
  answered : ∀ outcome, state.phase = .returned outcome → ∃ result, state.main = .returned result

/-- What a source does with the world in a step. -/
inductive Moved : Pumping → World → Pumping → World → Prop where
  | idle {before after : Pumping} (world : World) (resting : ∀ task, after ≠ .working task) :
      Moved before world after world
  | start {before : Pumping} (world : World) (root : String) (item : Item) :
      Moved before world (.working (.run (executor.process root item))) world
  | work {task next : Task Engine} {world after : World}
      (moves : Task.Moves walkCall (World.perform host) task world next after) :
      Moved (.working task) world (.working next) after

end Invariant

section Steps

variable {executor : Executor} {host : Host} {triggers : List String} {state next last : Serving}
  {event : ServeEvent} {moments : List Moment} {index : Nat} {before after : Pumping}
  {world : World} {gate : PauseGate Nat Nat}

/-- While a source is active, the main task joins. -/
theorem Sound.joining (sound : state.Sound executor host)
    (here : state.sources[index]? = some before) (active : before.Active) :
    ∃ joined, state.main = .joining joined ∧
      ∀ earlier < joined, state.sources[earlier]? = some (.ended (.ok ())) := by
  have unended : ¬∀ pumping ∈ state.sources, ∃ outcome, pumping = .ended outcome := by
    intro ended
    obtain ⟨outcome, same⟩ := ended before (List.mem_of_getElem? here)
    rw [same] at active
    exact active
  have seen := sound.seen
  unfold Seen at seen
  split at seen
  · next joined same => exact ⟨joined, same, seen⟩
  · exact absurd seen.1 unended
  · exact absurd seen.ended unended

/-- A step of a source keeps the state sound. -/
theorem Sound.source (formed : executor.graph.WellFormed) (sound : state.Sound executor host)
    (here : state.sources[index]? = some before) (active : before.Active)
    (moved : Moved executor host before state.world after world) :
    Sound executor host
      { state with sources := state.sources.set index after, world := world, gate := gate } := by
  obtain ⟨joined, main, ended⟩ := sound.joining here active
  have inside : index < state.sources.length := (List.getElem?_eq_some_iff.mp here).1
  have source (other : Nat) : (state.sources.set index after)[other]? =
      if index = other then some after else state.sources[other]? := by
    rw [List.getElem?_set, if_pos inside]
  have stepped : executor.Contained world ∧ ∀ task, after = .working task →
      task.Obeys (fun _ _ => True) executor.SendsToSinks executor.Own := by
    cases moved with
    | idle _ resting => exact ⟨sound.contained, fun task same => absurd same (resting task)⟩
    | start _ root item =>
        refine ⟨sound.contained, fun task same => ?_⟩
        cases same
        exact Executor.sendsToSinks_process root item
    | work moves =>
        obtain ⟨obeys, contained⟩ := (sound.working index _ here).moves
          (Executor.sendsToSinks_walkCall formed) (fun _ _ _ _ => trivial)
          (fun _ _ held permitted => held.perform permitted) sound.contained moves
        refine ⟨contained, fun task same => ?_⟩
        cases same
        exact obeys
  refine ⟨stepped.1, fun other task working => ?_, ?_, ?_⟩
  · dsimp only at working
    rw [source] at working
    split at working
    · exact stepped.2 task (Option.some.inj working)
    · exact sound.working other task working
  · unfold Seen
    dsimp only
    rw [main]
    intro earlier below
    rw [source, if_neg]
    · exact ended earlier below
    · rintro rfl
      cases here.symm.trans (ended index below)
      exact active
  · intro outcome returned
    exact sound.answered outcome returned

/-- A step of the gate or of serve mode keeps the state sound. -/
theorem Sound.quiet (sound : state.Sound executor host) (sources : next.sources = state.sources)
    (world : next.world = state.world) (main : next.main = state.main)
    (answered : ∀ outcome, next.phase = .returned outcome →
      ∃ result, next.main = .returned result) : next.Sound executor host := by
  obtain ⟨contained, working, seen, -⟩ := sound
  refine ⟨by rwa [world], by rwa [sources], ?_, answered⟩
  unfold Seen at seen ⊢
  rw [main]
  split at seen
  · rwa [sources]
  · rwa [sources, world]
  · exact ⟨by rw [sources]; exact seen.ended, by rw [world]; exact seen.flushed⟩

/-- **Every step that is no early exit keeps the state sound.** -/
theorem sound_step (formed : executor.graph.WellFormed) (sound : state.Sound executor host)
    (smooth : Moment.Smooth ⟨state, event, next⟩)
    (step : Step executor host triggers state event next) : next.Sound executor host := by
  obtain ⟨contained, working, seen, answered⟩ := id sound
  cases step with
  | opened _ _ opening => exact sound.source formed opening trivial (.idle _ nofun)
  | skipped _ _ opening => exact sound.source formed opening trivial (.idle _ nofun)
  | refused _ _ _ opening => exact sound.source formed opening trivial (.idle _ nofun)
  | pulled item _ polling => exact sound.source formed polling trivial (.start _ _ item)
  | held _ polling => exact sound.source formed polling trivial (.idle _ nofun)
  | passed _ gated => exact sound.source formed gated trivial (.start ..)
  | worked working moves => exact sound.source formed working trivial (.work moves)
  | @processed index outcome working =>
      cases outcome <;> exact sound.source formed working trivial (.idle _ nofun)
  | drained polling => exact sound.source formed polling trivial (.idle _ nofun)
  | @joined index joining done =>
      unfold Seen at seen
      rw [joining] at seen
      refine ⟨contained, working, ?_, fun outcome returned => ?_⟩
      · intro earlier below
        rcases Nat.lt_succ_iff_lt_or_eq.mp below with before | rfl
        · exact seen earlier before
        · exact done
      · obtain ⟨result, same⟩ := answered outcome returned
        cases joining.symm.trans same
  | failed => exact smooth.elim
  | @finishing index joining all =>
      unfold Seen at seen
      rw [joining] at seen
      refine ⟨contained, working, ⟨?_, _, _, contained, .refl ..⟩,
        fun outcome returned => ?_⟩
      · intro pumping member
        obtain ⟨earlier, inside, rfl⟩ := List.mem_iff_getElem.mp member
        have ended := seen earlier (Nat.lt_of_lt_of_le inside all)
        rw [List.getElem?_eq_getElem inside] at ended
        exact ⟨_, Option.some.inj ended⟩
      · obtain ⟨result, same⟩ := answered outcome returned
        cases joining.symm.trans same
  | @flushed task following after flushing moves =>
      unfold Seen at seen
      rw [flushing] at seen
      obtain ⟨ended, world, steps, held, ran⟩ := seen
      obtain ⟨more, extended⟩ : ∃ more, Task.Ran (S := Engine) walkCall (World.perform host)
          (.run executor.flushAll) world more following after := by
        cases moves with
        | silent _ step => exact ⟨_, ran.trans (.silent step (.refl ..))⟩
        | event _ op step => exact ⟨_, ran.trans (.event op step (.refl ..))⟩
      have obeys : Task.Obeys (S := Engine) (fun _ _ => True) executor.SendsToSinks executor.Own
          (.run executor.flushAll) := Executor.sendsToSinks_flushAll
      have permitted := (extended.history (Executor.sendsToSinks_walkCall formed) obeys).2
      refine ⟨extended.keeps (fun step member kept => kept.perform (permitted step member)) held,
        working, ⟨ended, world, more, held, extended⟩, fun outcome returned => ?_⟩
      obtain ⟨result, same⟩ := answered outcome returned
      cases flushing.symm.trans same
  | @finished outcome flushing =>
      unfold Seen at seen
      rw [flushing] at seen
      obtain ⟨ended, world, steps, held, ran⟩ := seen
      cases outcome with
      | error => exact smooth.elim
      | ok _ =>
          have emptied := Executor.ensures_flushAll formed held _ _ _ (evaluates_of_ran ran) rfl
          exact ⟨contained, working, ⟨ended, emptied⟩, fun _ _ => ⟨_, rfl⟩⟩
  | gate => exact sound.quiet rfl rfl rfl answered
  | requested => exact sound.quiet rfl rfl rfl nofun
  | stopped => exact sound.quiet rfl rfl rfl nofun
  | unstopped => exact smooth.elim
  | allStopped => exact sound.quiet rfl rfl rfl nofun
  | answered _ returned => exact sound.quiet rfl rfl rfl fun _ _ => ⟨_, returned⟩

/-- After a quiescent return, nothing moves the world. -/
theorem Quiescent.step {outcome : Outcome} (quiescent : state.Quiescent)
    (returned : state.main = .returned outcome)
    (step : Step executor host triggers state event next) :
    next.Quiescent ∧ next.main = .returned outcome ∧ next.world = state.world := by
  have ended (index : Nat) (pumping : Pumping) (here : state.sources[index]? = some pumping) :
      ∃ result, pumping = .ended result :=
    quiescent.ended pumping (List.mem_of_getElem? here)
  have unmoved (other : Main Engine) (main : state.main = other) : other = .returned outcome :=
    main.symm.trans returned
  cases step with
  | opened _ _ here => obtain ⟨_, same⟩ := ended _ _ here; cases same
  | skipped _ _ here => obtain ⟨_, same⟩ := ended _ _ here; cases same
  | refused _ _ _ here => obtain ⟨_, same⟩ := ended _ _ here; cases same
  | pulled _ _ here => obtain ⟨_, same⟩ := ended _ _ here; cases same
  | held _ here => obtain ⟨_, same⟩ := ended _ _ here; cases same
  | passed _ here => obtain ⟨_, same⟩ := ended _ _ here; cases same
  | worked here => obtain ⟨_, same⟩ := ended _ _ here; cases same
  | processed here => obtain ⟨_, same⟩ := ended _ _ here; cases same
  | drained here => obtain ⟨_, same⟩ := ended _ _ here; cases same
  | joined main => cases unmoved _ main
  | failed main => cases unmoved _ main
  | finishing main => cases unmoved _ main
  | flushed main => cases unmoved _ main
  | finished main => cases unmoved _ main
  | _ => exact ⟨⟨quiescent.ended, quiescent.flushed⟩, returned, rfl⟩

/-- A quiescent return is silent. -/
theorem Quiescent.silent {outcome : Outcome} (quiescent : state.Quiescent)
    (returned : state.main = .returned outcome) : state.Silent executor host triggers := by
  intro moments later run
  have still : later.Quiescent ∧ later.main = .returned outcome ∧ later.world = state.world := by
    induction run with
    | nil => exact ⟨quiescent, returned, rfl⟩
    | snoc _ step ih =>
        obtain ⟨kept, main, world⟩ := ih.1.step ih.2.1 step
        exact ⟨kept, main, world.trans ih.2.2⟩
  rw [still.2.2]

/-- **Quiescence on return.** In a run that takes no early exit, every source has ended and
every sink is flushed when the executor returns and when serve mode returns, and no record is
sent from then on. -/
theorem quiescent_of_smooth {registry : Registry} {hashOrder : HashOrder} {flow : FlowConfig}
    {ctx : BuildContext}
    (accepted : FlowGraph.Accepted registry hashOrder flow ctx executor.graph)
    {store : Option Entries} {file : Entries} {written : String → List Record}
    (run : Run executor host triggers (executor.serving (.start store file written)) moments last)
    (smooth : ∀ moment ∈ moments, moment.Smooth) :
    (∀ outcome, last.main = .returned outcome →
        last.Quiescent ∧ last.Silent executor host triggers) ∧
      ∀ outcome, last.phase = .returned outcome →
        last.Quiescent ∧ last.Silent executor host triggers := by
  have sound : last.Sound executor host := by
    induction run with
    | nil =>
        have opening (index : Nat) (pumping : Pumping)
            (here : (executor.serving (.start store file written)).sources[index]? =
              some pumping) :
            pumping = .opening := by
          obtain ⟨root, -, rfl⟩ := List.mem_map.mp (List.mem_of_getElem? here)
          rfl
        refine ⟨fun sink holds => absurd rfl holds, fun index task here => ?_,
          fun _ below => absurd below (Nat.not_lt_zero _), nofun⟩
        cases opening index _ here
    | snoc run step ih =>
        rw [List.forall_mem_append, List.forall_mem_singleton] at smooth
        exact sound_step accepted.wellFormed (ih smooth.1) smooth.2 step
  have returned (outcome : Outcome) (same : last.main = .returned outcome) :
      last.Quiescent ∧ last.Silent executor host triggers := by
    have seen := sound.seen
    unfold Seen at seen
    rw [same] at seen
    exact ⟨seen, seen.silent same⟩
  refine ⟨returned, fun outcome same => ?_⟩
  obtain ⟨result, main⟩ := sound.answered outcome same
  exact returned result main

end Steps

end Serving

namespace Sample

open Serving

/-- Two sources in front of one sink, one of them behind a transform. -/
def strandedFlow : FlowConfig :=
  { FlowGraph.Sample.intake with
    triggers := []
    steps := [FlowGraph.Sample.source "a", FlowGraph.Sample.source "b",
      { FlowGraph.Sample.step "t" .transform "assert" with extra := [("expect", .array [])] },
      FlowGraph.Sample.sink "out"]
    edges := [.pair "a" "t", .pair "t" "out", .pair "b" "out"] }

/-- The graph of the stranded flow. -/
def strandedGraph : FlowGraph where
  name := "intake"
  nodes := ((((∅ : BTreeMap Node).insert "a"
    ⟨"a", none, .fail, .source, [⟨"t", none⟩], 0, none⟩).insert "b"
      ⟨"b", none, .fail, .source, [⟨"out", none⟩], 0, none⟩).insert "out"
        ⟨"out", none, .fail, .sink, [], 2, none⟩).insert "t"
          ⟨"t", none, .fail, .transform, [⟨"out", none⟩], 1, none⟩
  roots := ["a", "b"]

theorem strandedFlow_built : FlowGraph.build FlowGraph.Sample.registry
    FlowGraph.Sample.hashOrder strandedFlow FlowGraph.Sample.ctx = .ok strandedGraph := rfl

/-- A process without a store. -/
abbrev unstored : World := .start none (fun _ => none) fun _ => []

/-- The copying flow copies a record and returns. -/
theorem copyFlow_served : ∃ moments last,
    Run (executor copyGraph) (host twoRecords) [] ((executor copyGraph).serving unstored)
      moments last ∧
    (∀ moment ∈ moments, moment.Smooth) ∧ last.main = .returned (.ok ()) ∧
    last.world.written "out" = [record .null] := by
  have root : (executor copyGraph).graph.roots[0]? = some "in" := rfl
  have start : Run (executor copyGraph) (host twoRecords) []
      ((executor copyGraph).serving unstored) [] _ := .nil
  have opened := start.snoc (.opened root rfl rfl)
  have pulled := opened.snoc (.pulled (.ok (record .null)) root rfl rfl)
  obtain ⟨working, processed, worked⟩ := pulled.process 0 rfl
    (ran_of_play (List.replicate 20 0) rfl).choose_spec
  have drained := processed.snoc (show Step _ _ _ _ (.drained 0) _ from .drained rfl)
  have finishing := (drained.snoc (.joined rfl rfl)).snoc (.finishing rfl (by decide))
  obtain ⟨flushing, finished, flushed⟩ := finishing.finish rfl
    (ran_of_play (List.replicate 20 0) rfl).choose_spec
  refine ⟨_, _, finished, ?_, rfl, rfl⟩
  have walked (moment : Moment) (member : moment ∈ working) : moment.Smooth := by
    unfold Moment.Smooth
    rcases worked moment member with event | event <;> rw [event] <;> trivial
  have wrote (moment : Moment) (member : moment ∈ flushing) : moment.Smooth := by
    unfold Moment.Smooth
    rcases flushed moment member with event | event <;> rw [event] <;> trivial
  simp only [List.forall_mem_append, List.forall_mem_singleton]
  exact ⟨⟨⟨⟨⟨⟨⟨List.forall_mem_nil _, trivial⟩, trivial⟩, walked⟩, trivial⟩, trivial⟩, trivial⟩,
    wrote⟩

/-- The copying flow leaves nothing behind. -/
theorem copyFlow_quiescent : ∃ moments last,
    Run (executor copyGraph) (host twoRecords) [] ((executor copyGraph).serving unstored)
      moments last ∧
    last.main = .returned (.ok ()) ∧ last.world.written "out" = [record .null] ∧
    last.Quiescent ∧ last.Silent (executor copyGraph) (host twoRecords) [] := by
  obtain ⟨moments, last, run, smooth, returned, written⟩ := copyFlow_served
  have quiescent := (@quiescent_of_smooth (executor copyGraph) _ _ _ _ FlowGraph.Sample.registry
    FlowGraph.Sample.hashOrder copyFlow FlowGraph.Sample.ctx (.inl rfl) _ _ _ run smooth).1 _
    returned
  exact ⟨moments, last, run, returned, written, quiescent⟩

/-- A host whose transforms fail. -/
def failing : Host :=
  { host twoRecords with transform := fun _ _ _ => .error (.assertion "amount is negative") }

/-- **An executor returns while a source sends on**: the error of the first source ends it, the
record of the second is not flushed, and the second sends another one. -/
theorem strandedFlow_sends_on :
    FlowGraph.build FlowGraph.Sample.registry FlowGraph.Sample.hashOrder strandedFlow
        FlowGraph.Sample.ctx = .ok strandedGraph ∧
      ∃ moments last,
        Run (executor strandedGraph) failing [] ((executor strandedGraph).serving unstored)
          moments last ∧
        last.main = .returned (.error (.assertion "amount is negative")) ∧
        last.world.buffered "out" = [record .null] ∧
        ¬last.Silent (executor strandedGraph) failing [] := by
  have first : (executor strandedGraph).graph.roots[0]? = some "a" := rfl
  have second : (executor strandedGraph).graph.roots[1]? = some "b" := rfl
  have start : Run (executor strandedGraph) failing []
      ((executor strandedGraph).serving unstored) [] _ := .nil
  have opened := (start.snoc (.opened first rfl rfl)).snoc (.opened second rfl rfl)
  have pulled := opened.snoc (.pulled (.ok (record .null)) second rfl rfl)
  obtain ⟨_, sent, -⟩ := pulled.process 1 rfl (ran_of_play (List.replicate 20 0) rfl).choose_spec
  have rejected := sent.snoc (.pulled (.ok (record (.bool true))) first rfl rfl)
  obtain ⟨_, ended, -⟩ := rejected.process 0 rfl
    (ran_of_play (List.replicate 20 0) rfl).choose_spec
  have returned := ended.snoc (.failed rfl rfl)
  refine ⟨strandedFlow_built, _, _, returned, rfl, rfl, fun silent => ?_⟩
  have again := returned.anew.snoc (.pulled (.ok (record (.bool true))) second rfl rfl)
  obtain ⟨_, later, -⟩ := again.process 1 rfl (ran_of_play (List.replicate 20 0) rfl).choose_spec
  exact absurd (congrArg List.length (silent _ _ later)) (by decide)

end Sample

end Sohara
