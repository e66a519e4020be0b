import Sohara.Async.Heredity
import Sohara.Runtime.ArrivingOnce
import Sohara.Runtime.Carrying
import Sohara.Runtime.JoinBarrier
import Sohara.Runtime.JoinChunks

/-! # Where merged records come from

A parallel step gives a record a correlation unless it has one, and the steps behind it hand
the correlation on. What a join merges therefore comes from one execution of one parallel step,
unless the correlation has come in from outside, or the record has none and is released alone.
-/

namespace Sohara

open Async Async.Program

/-- The correlation of a record. -/
def Record.correlation (record : Record) : Option String := record.metadata.get? "correlation"

/-- A visit is an execution of a parallel step that gives its record a correlation. -/
def Executor.Forks (executor : Executor) (visit : Visit Engine) : Prop :=
  ∃ record name node branches, visit.call = some ⟨executor, record, name⟩ ∧
    executor.graph.node name = some node ∧ node.step = .control (.parallel branches) ∧
      record.correlation = none

/-- A correlation comes in from outside: with an item of a source, or with the answer of a
transform to a record that does not have it. -/
def Op.BringsIn (host : Host) (world : World) (correlation : String) : Op → Prop
  | .stream source => ∃ items record, host.streams source = .ok items ∧ .ok record ∈ items ∧
      record.correlation = some correlation
  | .transform node record => record.correlation ≠ some correlation ∧
      ∃ made ∈ yielded (host.transform node (World.historyOf node world.transformed) record),
        made.correlation = some correlation
  | _ => False

/-- A visit draws an id. -/
def DrawsId (host : Host) (visit : Visit Engine) (id : String)
    (step : Occurrence (Traced Engine) World) : Prop :=
  step.op = (.freshUuid, visit) ∧ host.uuid step.world.asked = id

section Origins

variable (executor : Executor) (host : Host) (steps : List (Occurrence (Traced Engine) World))

/-- The correlation has come in from outside. -/
def CameIn (correlation : String) : Prop :=
  ∃ step ∈ steps, step.op.1.BringsIn host step.world correlation

/-- The correlation was drawn by an execution of a parallel step. -/
def OpenedBy (correlation : String) (execution : Visit Engine) : Prop :=
  executor.Forks execution ∧ ∃ step ∈ steps, DrawsId host execution correlation step

/-- A visit may have a correlation: it has come in, or an execution above has drawn it. -/
def Inherits (visit : Visit Engine) (correlation : String) : Prop :=
  CameIn host steps correlation ∨
    ∃ execution, OpenedBy executor host steps correlation execution ∧ execution.Below visit

/-- A visit may have a record. -/
def Carries (visit : Visit Engine) (record : Record) : Prop :=
  ∀ correlation, record.correlation = some correlation →
    Inherits executor host steps visit correlation

/-- What a visit may do: its record arrives at a join under its own correlation, or, if it has
none, under an id drawn for it. -/
def ArrivesByRight (visit : Visit Engine) : Op → Prop
  | .joinArrive _ correlation _ _ _ record =>
      (record.correlation = some correlation ∧ Inherits executor host steps visit correlation) ∨
        (record.correlation = none ∧ ¬ executor.Forks visit ∧
          ∃ step ∈ steps, DrawsId host visit correlation step)
  | _ => True

/-- What a visit is told. -/
def IsTold (visit : Visit Engine) : (op : Op) → op.Response → Prop
  | .freshUuid, id => ∃ step ∈ steps, DrawsId host visit id step
  | .stream _, streamed => ∀ items, streamed = .ok items → ∀ record, .ok record ∈ items →
      Carries executor host steps visit record
  | .transform _ record, result => Carries executor host steps visit record →
      ∀ made ∈ yielded result, Carries executor host steps visit made
  | .joinArrive _ _ _ _ _ _, group => ∀ records, group = some records → ∀ made ∈ records,
      Carries executor host steps visit made
  | .newRecord _, made => made.correlation = none
  | _, _ => True

/-- What a visit calls: walks of its run, with records it may have. -/
def HandsOn (visit : Visit Engine) (call : Call) : Prop :=
  call.executor = executor ∧ Carries executor host steps visit call.record

/-- A call in its own visit, with a record it may have. -/
def CallsWithin (target : Call × Visit Engine) : Prop :=
  target.2.call = some target.1 ∧ HandsOn executor host steps target.2 target.1

end Origins

section Programs

variable {executor : Executor} {host : Host} {steps : List (Occurrence (Traced Engine) World)}
  {visit other : Visit Engine} {record : Record} {node : Node} {α : Type}

theorem Inherits.below {correlation : String} (above : visit.Below other)
    (inherits : Inherits executor host steps visit correlation) :
    Inherits executor host steps other correlation := by
  rcases inherits with outside | ⟨execution, opened, upper⟩
  · exact .inl outside
  · exact .inr ⟨execution, opened, upper.trans above⟩

theorem carries_of_none (none_ : record.correlation = none) :
    Carries executor host steps visit record := by
  intro correlation present
  rw [none_] at present
  cases present

theorem carries_of_metadata {made : Record} (same : made.metadata = record.metadata)
    (carries : Carries executor host steps visit record) :
    Carries executor host steps visit made := by
  intro correlation present
  refine carries correlation ?_
  unfold Record.correlation at present ⊢
  rw [← same]
  exact present

variable (executor host steps visit) in
/-- A program of a visit that keeps to its correlations. -/
abbrev KeepsTo (post : α → Prop) (program : Prog α) : Prop :=
  program.Obeys (S := Engine) (IsTold executor host steps visit)
    (ArrivesByRight executor host steps visit) (HandsOn executor host steps visit) post

/-- What a visit hands on stays below it. -/
theorem HandsOn.within {call : Call} (hands : HandsOn executor host steps visit call)
    (round position : Nat) :
    CallsWithin executor host steps (call, visit.enter ⟨round, position, call⟩) :=
  ⟨rfl, hands.1, fun correlation present =>
    (hands.2 correlation present).below (Visit.below_enter _ _)⟩

theorem handsOn (made : Record) (target : String)
    (carries : Carries executor host steps visit made) :
    HandsOn executor host steps visit ⟨executor, made, target⟩ := ⟨rfl, carries⟩

theorem allows_away (notJoin : ∀ mode n, node.step ≠ .control (.join mode n)) :
    executor.Allows (ArrivesByRight executor host steps visit) node where
  quiet op quiet := by
    cases op with
    | joinArrive => exact quiet.elim
    | _ => trivial
  state _ _ := trivial
  send _ _ := trivial
  lookup _ _ := trivial
  marker _ _ := trivial
  queue _ _ := trivial
  park _ _ _ := trivial
  wait _ _ := trivial
  join isJoin := by
    obtain ⟨mode, n, same⟩ := isJoin
    exact absurd same (notJoin mode n)
  update _ _ := trivial
  collect _ _ _ _ := trivial
  merge _ := trivial
  emit _ _ := trivial

/-- Around the joins nothing arrives. -/
theorem performs_away : executor.Performs (IsTold executor host steps visit)
    (ArrivesByRight executor host steps visit) (HandsOn executor host steps visit) default := by
  have notJoin : ∀ mode n, (default : Node).step ≠ .control (.join mode n) := fun _ _ => nofun
  exact (allows_away notJoin).performs

theorem keepsTo_correlated {branches : List String} {name : String}
    (called : visit.call = some ⟨executor, record, name⟩)
    (found : executor.graph.node name = some node)
    (isParallel : node.step = .control (.parallel branches))
    (carries : Carries executor host steps visit record) :
    KeepsTo executor host steps visit (Carries executor host steps visit)
      (Executor.correlated record) := by
  unfold Executor.correlated
  cases present : record.metadata.get? "correlation" with
  | some correlation => exact carries
  | none =>
      have forks : executor.Forks visit :=
        ⟨record, name, node, branches, called, found, isParallel, present⟩
      refine ⟨trivial, fun id drawn correlation same => ?_⟩
      have own : correlation = id := by
        have inserted := Assoc.get?_insert "correlation" "correlation" id record.metadata
        rw [if_pos rfl] at inserted
        exact Option.some.inj (same.symm.trans inserted)
      subst own
      exact .inr ⟨visit, ⟨forks, drawn⟩, Visit.Below.refl visit⟩

theorem keepsTo_correlationOf (notFork : ¬ executor.Forks visit)
    (carries : Carries executor host steps visit record) :
    KeepsTo executor host steps visit (fun correlation => ∀ name mode expected threshold,
        ArrivesByRight executor host steps visit
          (.joinArrive name correlation mode expected threshold record))
      (Executor.correlationOf record) := by
  unfold Executor.correlationOf
  cases present : record.metadata.get? "correlation" with
  | some correlation => exact fun _ _ _ _ => .inl ⟨present, carries correlation present⟩
  | none => exact ⟨trivial, fun id drawn _ _ _ _ => .inr ⟨present, notFork, drawn⟩⟩

theorem keepsTo_mergeRecords {records : List Record}
    (each : ∀ made ∈ records, Carries executor host steps visit made) :
    KeepsTo executor host steps visit (Carries executor host steps visit)
      (Executor.mergeRecords records) := by
  cases records with
  | nil => exact ⟨trivial, fun made none_ => carries_of_none none_⟩
  | cons first rest =>
      exact carries_of_metadata (Executor.metadata_mergeGroup first rest)
        (each first List.mem_cons_self)

theorem keepsTo_applyJoin {mode : JoinMode} {n : Nat} {name : String}
    (called : visit.call = some ⟨executor, record, name⟩)
    (found : executor.graph.node name = some node)
    (isJoin : node.step = .control (.join mode n))
    (carries : Carries executor host steps visit record) :
    KeepsTo executor host steps visit (fun _ => True) (executor.applyJoin node record) := by
  have notFork : ¬ executor.Forks visit := by
    rintro ⟨_, _, _, _, same, other, isParallel, -⟩
    rw [called] at same
    cases same
    rw [found] at other
    cases other
    rw [isJoin] at isParallel
    cases isParallel
  refine Obeys.bind (keepsTo_correlationOf notFork carries) fun correlation arrives => ?_
  cases executor.joinBuffer node.id with
  | none => exact safe_pure _
  | some settings =>
      refine ⟨arrives _ _ _ _, fun group told => ?_⟩
      cases group with
      | none => exact safe_pure _
      | some records =>
          have merges := keepsTo_mergeRecords (told records rfl)
          exact merges.bind fun merged carried =>
            Executor.carries_route performs_away handsOn carried

theorem keepsTo_applyParallel {branches : List String} {name : String}
    (called : visit.call = some ⟨executor, record, name⟩)
    (found : executor.graph.node name = some node)
    (isParallel : node.step = .control (.parallel branches))
    (carries : Carries executor host steps visit record) :
    KeepsTo executor host steps visit (fun _ => True)
      (executor.applyParallel branches record) := by
  have correlates := keepsTo_correlated called found isParallel carries
  refine correlates.bind fun made carried => safe_joinAll fun call member => ?_
  obtain ⟨branch, -, rfl⟩ := List.mem_map.mp member
  exact handsOn made branch carried

/-- A step keeps to the correlations of its visit. -/
theorem keepsTo_applyStep {name : String} (called : visit.call = some ⟨executor, record, name⟩)
    (found : executor.graph.node name = some node)
    (carries : Carries executor host steps visit record) :
    KeepsTo executor host steps visit (fun _ => True) (executor.applyStep node record) := by
  by_cases isJoin : ∃ mode n, node.step = .control (.join mode n)
  · obtain ⟨mode, n, isJoin⟩ := isJoin
    unfold Executor.applyStep
    rw [isJoin]
    exact keepsTo_applyJoin called found isJoin carries
  · have performs : executor.Performs (IsTold executor host steps visit)
        (ArrivesByRight executor host steps visit) (HandsOn executor host steps visit) node :=
      (allows_away fun mode n same => isJoin ⟨mode, n, same⟩).performs
    unfold Executor.applyStep
    cases step : node.step with
    | sink => exact (Executor.safe_deliver performs step record).bind fun _ => safe_pure _
    | transform =>
        exact Executor.carries_applyTransform performs handsOn fun result told => told carries
    | source => exact Executor.carries_route performs handsOn carries
    | control control =>
        by_cases isParallel : ∃ branches, control = .parallel branches
        · obtain ⟨branches, rfl⟩ := isParallel
          exact keepsTo_applyParallel called found step carries
        · refine Executor.carries_applyControl performs handsOn step
            (fun branches same => isParallel ⟨branches, same⟩)
            (fun mode n same => isJoin ⟨mode, n, same ▸ step⟩) carries (fun field item => ?_)
            fun _ _ _ _ _ => carries_of_none
          exact carries_of_metadata (Record.metadata_set ..) carries

/-- **A walk keeps to the correlations of its visit.** -/
theorem keepsTo_walkCall {call : Call} (within : CallsWithin executor host steps (call, visit)) :
    KeepsTo executor host steps visit (fun _ => True) (walkCall call) := by
  obtain ⟨called, rfl, carries⟩ := within
  obtain ⟨executor, record, name⟩ := call
  show KeepsTo executor host steps visit _ (executor.walk record name)
  unfold Executor.walk
  cases found : executor.graph.node name with
  | none => exact Safe.bind (safe_op trivial) fun _ => safe_pure _
  | some node =>
      have away : executor.Performs (IsTold executor host steps visit) _ _ _ := performs_away
      refine (Executor.safe_nodeOpen away.quiet record.payload).bind fun isOpen => ?_
      cases isOpen
      · exact safe_pure _
      · exact keepsTo_applyStep called found carries

/-- A source and the final flush keep to the correlations of their visit. -/
theorem keepsTo_programs {program : Prog Outcome} (member : program ∈ executor.programs) :
    KeepsTo executor host steps visit (fun _ => True) program := by
  rcases List.mem_append.mp member with source | flush
  · obtain ⟨root, -, rfl⟩ := List.mem_map.mp source
    exact Executor.carries_runSource performs_away handsOn fun _ _ told => told
  · rw [List.mem_singleton.mp flush]
    exact Executor.carries_flushAll performs_away handsOn (fun _ _ => trivial) (fun _ _ => trivial)
      (fun _ => trivial) fun _ _ => carries_of_none

end Programs

section Drawing

variable {host : Host} {world after : World} {steps : List (Occurrence (Traced Engine) World)}

/-- The count of what has been asked only grows. -/
theorem World.asked_perform (host : Host) (world : World) (op : Op) :
    world.asked ≤ (perform host world op).2.asked := by
  have writes : op.isWrite = true → world.asked ≤ (perform host world op).2.asked := by
    intro writes
    obtain ⟨_, _, _, same⟩ := perform_write_frame host world writes
    exact (congrArg asked same).ge
  cases op with
  | send sink record =>
      obtain ⟨_, same⟩ := perform_send_frame host world sink record
      exact (congrArg asked same).ge
  | flush sink =>
      obtain ⟨_, _, same⟩ := perform_flush_frame host world sink
      exact (congrArg asked same).ge
  | save key value => exact writes rfl
  | delete key => exact writes rfl
  | eval platform ctx expr value => exact Nat.le_succ _
  | freshUuid => exact Nat.le_succ _
  | newRecord payload => exact Nat.le_succ _
  | batchArrive id size within record => exact Nat.le_succ _
  | _ => exact Nat.le_refl _

/-- Of two draws, each has a number of its own. -/
def ApartInDrawing (first second : Occurrence (Traced Engine) World) : Prop :=
  first.op.1 = .freshUuid → second.op.1 = .freshUuid → first.world.asked ≠ second.world.asked

instance : Std.Symm ApartInDrawing :=
  ⟨fun _ _ apart draws other => (apart other draws).symm⟩

theorem draws_apart
    (history : History (tracedHandle (World.perform host)) world steps after) :
    (∀ step ∈ steps, step.op.1 = .freshUuid → step.world.asked < after.asked) ∧
      steps.Pairwise ApartInDrawing := by
  induction history with
  | nil => exact ⟨(fun _ member => nomatch member), .nil⟩
  | snoc _ task op ih =>
      obtain ⟨below, apart⟩ := ih
      refine ⟨fun step member draws => ?_, ?_⟩
      · rcases List.mem_append.mp member with old | new
        · exact (below step old draws).trans_le (World.asked_perform host _ op.1)
        · obtain rfl := List.mem_singleton.mp new
          have drawn : op.1 = .freshUuid := draws
          show _ < (World.perform host _ op.1).2.asked
          rw [drawn]
          exact Nat.lt_succ_self _
      · refine List.pairwise_append.mpr ⟨apart, List.pairwise_singleton _ _, ?_⟩
        intro first early second late draws _
        obtain rfl := List.mem_singleton.mp late
        exact (below first early draws).ne

/-- **Ids are drawn once**: the visits that draw the same id are the same. -/
theorem visit_of_drawsId (distinct : Function.Injective host.uuid)
    (apart : steps.Pairwise ApartInDrawing) {visit other : Visit Engine} {id : String}
    (drawn : ∃ step ∈ steps, DrawsId host visit id step)
    (again : ∃ step ∈ steps, DrawsId host other id step) : visit = other := by
  obtain ⟨first, early, firstDraws, firstId⟩ := drawn
  obtain ⟨second, late, secondDraws, secondId⟩ := again
  have same : first.world.asked = second.world.asked := distinct (firstId.trans secondId.symm)
  by_cases one : first = second
  · subst one
    exact congrArg Prod.snd (firstDraws.symm.trans secondDraws)
  · exact absurd same (apart.forall early late one (congrArg Prod.fst firstDraws)
      (congrArg Prod.fst secondDraws))

end Drawing

section Runs

variable {registry : Registry} {hashOrder : HashOrder} {flow : FlowConfig} {ctx : BuildContext}
  {executor : Executor} {host : Host} {world : World}
  {steps before after : List (Occurrence (Traced Engine) World)}
  {config : Config (Traced Engine) World} {step : Occurrence (Traced Engine) World}
  {name correlation : String} {group : List Record}

/-- What a release merges has arrived under its correlation. -/
theorem arrived_of_merged (here : step.op.1.arrivesAt name correlation = true)
    {arrival : Occurrence (Traced Engine) World}
    (member : arrival ∈ mergedArrivals name correlation before step) :
    arrival ∈ before ++ [step] ∧ arrival.op.1.arrivesAt name correlation = true := by
  rcases List.mem_append.mp member with pending | last
  · obtain ⟨early, arrives⟩ := arrived_of_pending pending
    exact ⟨List.mem_append_left _ early, arrives⟩
  · obtain rfl := List.mem_singleton.mp last
    exact ⟨List.mem_append_right _ List.mem_cons_self, here⟩

/-- An arrival by right, with its record. -/
theorem ArrivesByRight.of_arrival {visit : Visit Engine} {op : Op}
    (here : op.arrivesAt name correlation = true)
    (right_ : ArrivesByRight executor host steps visit op) :
    (op.arriving.correlation = some correlation ∧
        Inherits executor host steps visit correlation) ∨
      (op.arriving.correlation = none ∧ ¬ executor.Forks visit ∧
        ∃ step ∈ steps, DrawsId host visit correlation step) := by
  cases op with
  | joinArrive other group mode expected threshold record =>
      obtain ⟨rfl, rfl⟩ := of_decide_eq_true here
      exact right_
  | _ => cases here

/-- Where the correlation of an arrival was drawn: above, by a parallel step, or by the arriving
visit itself. -/
theorem ArrivesByRight.drawn {visit : Visit Engine} {op : Op}
    (here : op.arrivesAt name correlation = true)
    (right_ : ArrivesByRight executor host steps visit op)
    (inside : ¬ CameIn host steps correlation) :
    ∃ source, (∃ step ∈ steps, DrawsId host source correlation step) ∧
      ((executor.Forks source ∧ source.Below visit) ∨
        (¬ executor.Forks source ∧ visit = source ∧ op.arriving.correlation = none)) := by
  rcases right_.of_arrival here with ⟨-, outside | ⟨execution, ⟨forks, drawn⟩, above⟩⟩ |
    ⟨none_, notFork, drawn⟩
  · exact absurd outside inside
  · exact ⟨execution, drawn, .inl ⟨forks, above⟩⟩
  · exact ⟨visit, drawn, .inr ⟨notFork, rfl, none_⟩⟩

/-- What one arrival has by inheritance, every arrival under that correlation has: the id drawn
for a record without correlation is no other's. -/
theorem Inherits.at_arrival (distinct : Function.Injective host.uuid)
    (apart : steps.Pairwise ApartInDrawing) {visit other : Visit Engine} {op : Op}
    (inherits : Inherits executor host steps visit correlation)
    (here : op.arrivesAt name correlation = true)
    (right_ : ArrivesByRight executor host steps other op) :
    Inherits executor host steps other correlation := by
  rcases right_.of_arrival here with ⟨-, own⟩ | ⟨-, notFork, drawn⟩
  · exact own
  · rcases inherits with outside | ⟨execution, ⟨forks, again⟩, -⟩
    · exact .inl outside
    · obtain rfl := visit_of_drawsId distinct apart drawn again
      exact absurd forks notFork

/-- **What a visit is told in a run**, when all arrivals before are by right. -/
theorem isTold_of_permitted (formed : executor.graph.WellFormed)
    (fresh : ∀ name, world.joins name = []) (distinct : Function.Injective host.uuid)
    (run : executor.TracedRun host world steps config) (split : steps = before ++ step :: after)
    (permitted : Permitted (S := Traced Engine)
      (fun op => ArrivesByRight executor host steps op.2 op.1) (before ++ [step])) :
    IsTold executor host steps step.op.2 step.op.1
      (World.perform host step.world step.op.1).1 := by
  have member : step ∈ steps := split ▸ List.mem_append_right _ List.mem_cons_self
  have last := permitted step (List.mem_append_right _ List.mem_cons_self)
  obtain ⟨index, between, op, visit⟩ := step
  cases op with
  | freshUuid => exact ⟨_, member, rfl, rfl⟩
  | newRecord payload => rfl
  | stream source =>
      intro items opened record inside correlation present
      exact .inl ⟨_, member, items, record, opened, inside, present⟩
  | transform node record =>
      intro carries made yields correlation present
      by_cases known : record.correlation = some correlation
      · exact carries correlation known
      · exact .inl ⟨_, member, known, made, yields, present⟩
  | joinArrive name correlation mode expected threshold record =>
      intro records released made inside
      have here : (Op.joinArrive name correlation mode expected threshold record).arrivesAt name
          correlation = true := decide_eq_true ⟨rfl, rfl⟩
      have merged := (merged_of_released formed fresh run split here released).2
      rw [merged] at inside
      obtain ⟨arrival, among, rfl⟩ := List.mem_map.mp inside
      obtain ⟨early, arrives⟩ := arrived_of_merged here among
      have apart := (draws_apart run.leads).2
      intro own present
      rcases (permitted arrival early).of_arrival arrives with ⟨same, inherits⟩ | ⟨none_, -⟩
      · obtain rfl := Option.some.inj (same.symm.trans present)
        exact inherits.at_arrival distinct apart here last
      · exact absurd (none_.symm.trans present) (by simp)
  | _ => trivial

/-- **Arrivals are by right** in every run. -/
theorem arrivesByRight_run (formed : executor.graph.WellFormed)
    (fresh : ∀ name, world.joins name = []) (distinct : Function.Injective host.uuid)
    (run : executor.TracedRun host world steps config) : Permitted (S := Traced Engine)
      (fun op => ArrivesByRight executor host steps op.2 op.1) steps := by
  have bodies : ∀ call visit, CallsWithin executor host steps (call, visit) →
      (walkCall call).ObeysAt (S := Engine) (fun op => IsTold executor host steps op.2 op.1)
        (fun op => ArrivesByRight executor host steps op.2 op.1)
        (CallsWithin executor host steps) visit fun _ => True := fun call visit within =>
    (keepsTo_walkCall within).mono (fun _ => id) (fun _ => HandsOn.within) fun _ => id
  refine Config.Run.permitted_traced bodies (fun program member origin => ?_) run
    fun before step rest split permitted =>
      isTold_of_permitted formed fresh distinct run split permitted
  exact (keepsTo_programs member).mono (fun _ => id) (fun _ => HandsOn.within) fun _ => id

theorem CameIn.of_snoc (here : step.op.1.arrivesAt name correlation = true)
    (came : CameIn host (before ++ [step]) correlation) : CameIn host before correlation := by
  obtain ⟨other, member, brings⟩ := came
  rcases List.mem_append.mp member with early | last
  · exact ⟨other, early, brings⟩
  · obtain rfl := List.mem_singleton.mp last
    obtain ⟨_, _, op, _⟩ := other
    cases op with
    | joinArrive => exact brings.elim
    | _ => cases here

theorem OpenedBy.of_snoc {execution : Visit Engine}
    (here : step.op.1.arrivesAt name correlation = true)
    (opened : OpenedBy executor host (before ++ [step]) correlation execution) :
    OpenedBy executor host before correlation execution := by
  obtain ⟨forks, other, member, draws, same⟩ := opened
  refine ⟨forks, ?_⟩
  rcases List.mem_append.mp member with early | last
  · exact ⟨other, early, draws, same⟩
  · obtain rfl := List.mem_singleton.mp last
    rw [draws] at here
    cases here

/-- **What a join merges.** The records of a release have all come from one execution of one
parallel step, which has drawn their correlation; or their correlation has come in from outside;
or there is one record only, which has no correlation. -/
theorem merged_of_one_execution
    (accepted : FlowGraph.Accepted registry hashOrder flow ctx executor.graph)
    (fresh : ∀ name, world.joins name = []) (distinct : Function.Injective host.uuid)
    (run : executor.TracedRun host world steps config) (split : steps = before ++ step :: after)
    (here : step.op.1.arrivesAt name correlation = true)
    (released : step.op.1.releasedIn step.world = some group) :
    group = recordsOf Occurrence.erase (mergedArrivals name correlation before step) ∧
      ((∃ execution, OpenedBy executor host before correlation execution ∧
          ∀ arrival ∈ mergedArrivals name correlation before step,
            execution.Below arrival.op.2) ∨
        CameIn host before correlation ∨
          (mergedArrivals name correlation before step = [step] ∧
            step.op.1.arriving.correlation = none)) := by
  have formed := accepted.wellFormed
  refine ⟨(merged_of_released formed fresh run split here released).2, ?_⟩
  subst split
  obtain ⟨-, next, -, -, earlier, -⟩ := run.split
  have rights := arrivesByRight_run formed fresh distinct earlier
  have drawing := (draws_apart earlier.leads).2
  by_cases outside : CameIn host (before ++ [step]) correlation
  · exact .inr (.inl (outside.of_snoc here))
  -- all arrivals of the group have their correlation from the visit that drew it
  have each : ∀ source, (∃ other ∈ before ++ [step], DrawsId host source correlation other) →
      ∀ arrival ∈ before ++ [step], arrival.op.1.arrivesAt name correlation = true →
        (executor.Forks source ∧ source.Below arrival.op.2) ∨
          (¬ executor.Forks source ∧ arrival.op.2 = source ∧
            arrival.op.1.arriving.correlation = none) := by
    intro source drawn arrival member arrives
    obtain ⟨other, again, from_⟩ := (rights arrival member).drawn arrives outside
    obtain rfl := visit_of_drawsId distinct drawing drawn again
    exact from_
  have last : step ∈ before ++ [step] := List.mem_append_right _ List.mem_cons_self
  obtain ⟨source, drawn, ⟨forks, -⟩ | ⟨notFork, own, none_⟩⟩ :=
    (rights step last).drawn here outside
  · refine .inl ⟨source, OpenedBy.of_snoc here ⟨forks, drawn⟩, fun arrival member => ?_⟩
    obtain ⟨early, arrives⟩ := arrived_of_merged here member
    rcases each source drawn arrival early arrives with ⟨-, above⟩ | ⟨notFork, -⟩
    · exact above
    · exact absurd forks notFork
  · refine .inr (.inr ⟨?_, none_⟩)
    have alone : (joinLedger Occurrence.erase name correlation before).pending = [] := by
      refine List.eq_nil_iff_forall_not_mem.mpr fun arrival pending => ?_
      obtain ⟨early, arrives⟩ := arrived_of_pending pending
      rcases each source drawn arrival (List.mem_append_left _ early) arrives with
        ⟨forks, -⟩ | ⟨-, same, -⟩
      · exact notFork forks
      · have apart := (List.pairwise_append.mp (arrivals_apart formed earlier)).2.2 arrival early
          step List.mem_cons_self
        exact apart (isArrival_of_arrivesAt arrives) (isArrival_of_arrivesAt here)
          (same.trans own.symm)
    unfold mergedArrivals
    rw [alone, List.nil_append]

end Runs

namespace Sample

/-- Ids of growing length. -/
def longer (number : Nat) : String := String.ofList (List.replicate number 'x')

theorem longer_injective : Function.Injective longer := by
  intro first second same
  have lists := congrArg String.toList same
  unfold longer at lists
  rw [String.toList_ofList, String.toList_ofList] at lists
  simpa using congrArg List.length lists

/-- A host that draws them. -/
def counting : Host := { host single with uuid := longer }

/-- The run over both branches. -/
def forked : List (Occurrence (Traced Engine) World) × Config (Traced Engine) World :=
  Config.play (S := Traced Engine) (tracedBody walkCall)
    (fun _ => tracedHandle (World.perform counting))
    ⟨storeless, spawnedAll (executor forkGraph).programs⟩ (List.replicate 40 0)

theorem forked_run : (executor forkGraph).TracedRun counting storeless forked.1 forked.2 :=
  Config.run_play _ _

/-- The release of the run merges the records of both branches. -/
theorem forked_release : ∃ before step after group, forked.1 = before ++ step :: after ∧
    step.op.1.arrivesAt "meet" "" = true ∧ step.op.1.releasedIn step.world = some group ∧
      (mergedArrivals "meet" "" before step).length = 2 :=
  ⟨forked.1.take 7, _, _, _, rfl, rfl, rfl, rfl⟩

/-- The two records come from one execution, unless their id has come in from outside. -/
theorem forked_meets_one : ∃ before step after, forked.1 = before ++ step :: after ∧
    step.op.1.arrivesAt "meet" "" = true ∧
      (mergedArrivals "meet" "" before step).length = 2 ∧
        ((∃ execution, OpenedBy (executor forkGraph) counting before "" execution ∧
            ∀ arrival ∈ mergedArrivals "meet" "" before step, execution.Below arrival.op.2) ∨
          CameIn counting before "") := by
  obtain ⟨before, step, after, group, split, here, released, two⟩ := forked_release
  refine ⟨before, step, after, split, here, two, ?_⟩
  have merged := merged_of_one_execution forkGraph_accepted (fun _ => rfl) longer_injective
    forked_run split here released
  rcases merged.2 with one | outside | ⟨alone, -⟩
  · exact .inl one
  · exact .inr outside
  · rw [alone] at two
    cases two

/-- Components with a join that waits for a number of records. -/
def meetRegistry (n : Nat) : Registry :=
  { FlowGraph.Sample.registry with
    build := fun kind type config ctx =>
      match kind, type with
      | .control, "join" =>
          FlowGraph.Sample.requiring ["mode", "n"] (.control (.join .n n)) config
      | _, _ => FlowGraph.Sample.registry.build kind type config ctx }

/-- A source in front of a join, without a parallel step. -/
def meetFlow (n : Nat) : FlowConfig :=
  { FlowGraph.Sample.intake with
    triggers := []
    steps := [FlowGraph.Sample.source "in",
      { FlowGraph.Sample.step "meet" .control "join" with
        extra := [("mode", .string "n"), ("n", .number (.posInt n))] },
      FlowGraph.Sample.sink "out"]
    edges := [.pair "in" "meet", .pair "meet" "out"] }

/-- Its graph. -/
def meetGraph (n : Nat) : FlowGraph where
  name := "intake"
  nodes := (((∅ : BTreeMap Node).insert "in"
    ⟨"in", none, .fail, .source, [⟨"meet", none⟩], 0, none⟩).insert "meet"
      ⟨"meet", none, .fail, .control (.join .n n), [⟨"out", none⟩], 1, none⟩).insert "out"
        ⟨"out", none, .fail, .sink, [], 1, none⟩
  roots := ["in"]

theorem meetGraph_not_fork {n : Nat} {branches : List String} {visit : Visit Engine} :
    ¬ (executor (meetGraph n)).IsFork branches visit := by
  rintro ⟨hop, _, node, -, found, isParallel⟩
  have present : (meetGraph n).nodes[hop.call.node]? = some node := found
  unfold meetGraph at present
  rw [Std.TreeMap.getElem?_insert, Std.TreeMap.getElem?_insert, Std.TreeMap.getElem?_insert]
    at present
  split at present
  · cases present
    cases isParallel
  · split at present
    · cases present
      cases isParallel
    · split at present
      · cases present
        cases isParallel
      · cases present

theorem meetGraph_without_fork {n : Nat} {merges : Visit Engine → Prop} :
    ¬ ∃ branches execution, (executor (meetGraph n)).IsFork branches execution ∧
      merges execution := by
  rintro ⟨branches, execution, isFork, -⟩
  exact meetGraph_not_fork isFork

/-- Two records that come with one correlation. -/
def tagged : Host :=
  { host (fun _ => .ok [.ok { record (.bool false) with metadata := [("correlation", "order")] },
      .ok { record (.bool true) with metadata := [("correlation", "order")] }]) with
    uuid := longer }

/-- The run of the join. -/
def meeting (n : Nat) (host : Host) :
    List (Occurrence (Traced Engine) World) × Config (Traced Engine) World :=
  Config.play (S := Traced Engine) (tracedBody walkCall)
    (fun _ => tracedHandle (World.perform host))
    ⟨storeless, spawnedAll (executor (meetGraph n)).programs⟩ (List.replicate 20 0)

theorem meeting_run (n : Nat) (host : Host) : (executor (meetGraph n)).TracedRun host storeless
    (meeting n host).1 (meeting n host).2 := Config.run_play _ _

/-- Without any parallel step, a join merges two records that have come with one correlation,
and another join releases a record that has none. -/
theorem meets_without_fork :
    (FlowGraph.build (meetRegistry 2) FlowGraph.Sample.hashOrder (meetFlow 2)
        FlowGraph.Sample.ctx = .ok (meetGraph 2) ∧
      ∃ steps config before step after group,
        (executor (meetGraph 2)).TracedRun tagged storeless steps config ∧
          steps = before ++ step :: after ∧ step.op.1.arrivesAt "meet" "order" = true ∧
            step.op.1.releasedIn step.world = some group ∧
              group.map (·.payload) = [.bool false, .bool true] ∧
                ¬ ∃ branches execution, (executor (meetGraph 2)).IsFork branches execution ∧
                  ∀ arrival ∈ mergedArrivals "meet" "order" before step,
                    execution.Below arrival.op.2) ∧
    FlowGraph.build (meetRegistry 1) FlowGraph.Sample.hashOrder (meetFlow 1)
        FlowGraph.Sample.ctx = .ok (meetGraph 1) ∧
      ∃ steps config before step after group,
        (executor (meetGraph 1)).TracedRun counting storeless steps config ∧
          steps = before ++ step :: after ∧ step.op.1.arrivesAt "meet" "" = true ∧
            step.op.1.releasedIn step.world = some group ∧
              group.map (·.metadata) = [[]] ∧
                ¬ ∃ branches execution, (executor (meetGraph 1)).IsFork branches execution ∧
                  ∀ arrival ∈ mergedArrivals "meet" "" before step,
                    execution.Below arrival.op.2 :=
  ⟨⟨rfl, _, _, (meeting 2 tagged).1.take 2, _, _, _, meeting_run 2 tagged, rfl, rfl, rfl, rfl,
      meetGraph_without_fork⟩,
    rfl, _, _, (meeting 1 counting).1.take 2, _, _, _, meeting_run 1 counting, rfl, rfl, rfl, rfl,
      meetGraph_without_fork⟩

end Sample

end Sohara
