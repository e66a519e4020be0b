import Sohara.Buffer.Overlay
import Sohara.Runtime.JoinStarve

/-! # What a join merges

A released record has the fields of the records of its group, those of later arrivals over
those of earlier ones. Every record carries copies of the fields its branch has left
alone, so the order of arrival decides which updates of common fields survive.
-/

namespace Sohara

open Async Async.Program Overlay

namespace Executor

/-- The record merged from a group of at least one record. -/
def mergeGroup (first : Record) (rest : List Record) : Record := rest.foldl mergeInto first

theorem mergeRecords_cons (first : Record) (rest : List Record) :
    mergeRecords (first :: rest) = pure (mergeGroup first rest) := rfl

/-- **What is merged**: the fields of all records, later ones over earlier ones. -/
theorem payload_mergeGroup {ι : Type} {branch : ι → Fields} {order : List ι} {i : ι}
    (distinct : ∀ j ∈ order, ((branch j).map Prod.fst).Nodup) {first : Record}
    {rest : List Record} (start : first.payload = .object (branch i))
    (payloads : rest.map (·.payload) = order.map fun j => .object (branch j)) :
    ∃ fields, (mergeGroup first rest).payload = .object fields ∧ ∀ key,
      Assoc.get? key fields =
        overlayAll ((i :: order).map fun j key => Assoc.get? key (branch j)) key := by
  induction order using List.reverseRecOn generalizing rest with
  | nil =>
      obtain rfl := List.map_eq_nil_iff.mp payloads
      refine ⟨branch i, start, fun key => ?_⟩
      exact (overlayAll_eq_of_alone List.mem_cons_self fun j member other =>
        absurd (List.mem_singleton.mp member) other).symm
  | append_singleton earlier last ih =>
      rw [List.map_append, List.map_singleton] at payloads
      obtain ⟨before, final, rfl, sameBefore, sameFinal⟩ := List.map_eq_append_iff.mp payloads
      obtain ⟨record, rfl, payload⟩ := List.map_eq_singleton_iff.mp sameFinal
      obtain ⟨fields, merged, shown⟩ := ih
        (fun j member => distinct j (List.mem_append_left _ member)) sameBefore
      have after : mergeGroup first (before ++ [record]) =
          mergeInto (mergeGroup first before) record := by
        unfold mergeGroup
        rw [List.foldl_append, List.foldl_cons, List.foldl_nil]
      refine ⟨(branch last).foldl (fun fields entry => Assoc.insert entry.1 entry.2 fields) fields,
        ?_, fun key => ?_⟩
      · rw [after]
        unfold mergeInto
        rw [merged, payload]
      · rw [Assoc.get?_foldl_insert (distinct last (List.mem_append_right _ List.mem_cons_self)),
          shown key, ← List.cons_append, List.map_append, List.map_singleton, overlayAll_snoc]

end Executor

/-- The records of a group come from the branches of one execution of a parallel step, in
the given order: an object record has entered, and each branch has changed fields of its
own only. -/
structure BranchUpdates (fork : Visit Engine) (base : Fields) (branch : Nat → Fields)
    (fields : Nat → Set String) (arrived : List (Occurrence (Traced Engine) World))
    (order : List Nat) : Prop where
  entered : ∃ hop rest, fork.hops = hop :: rest ∧ hop.call.record.payload = .object base
  behind : List.Forall₂ (fun arrival i => BehindBranch fork i arrival.op.2 ∧
    arrival.op.1.arriving.payload = .object (branch i)) arrived order
  distinct : ∀ i ∈ order, ((branch i).map Prod.fst).Nodup
  updates : Updates (fun key => base.get? key) (fun i key => (branch i).get? key) fields order

section Released

variable {executor : Executor} {host : Host} {world : World}
  {steps before after : List (Occurrence (Traced Engine) World)}
  {config : Config (Traced Engine) World} {step : Occurrence (Traced Engine) World}
  {name correlation : String} {group : List Record}

/-- **When a join merges all updates.** A join in mode `all` releases the records of the
branches of a parallel step. The released record is the entering one with the updates of
every branch exactly when every field of the entering record that a branch changes is
changed by the branch whose record has arrived last, which does not remove it unless it is
the only one. -/
theorem merges_updates_iff {registry : Registry} {hashOrder : HashOrder} {flow : FlowConfig}
    {ctx : BuildContext}
    (accepted : FlowGraph.Accepted registry hashOrder flow ctx executor.graph)
    (fresh : ∀ name, world.joins name = [])
    (run : executor.TracedRun host world steps config) (split : steps = before ++ step :: after)
    {expected threshold : Nat} {record : Record}
    (arrives : step.op.1 = .joinArrive name correlation .all expected threshold record)
    (released : step.op.1.releasedIn step.world = some group) {fork : Visit Engine} {base : Fields}
    {branch : Nat → Fields} {fields : Nat → Set String} {order : List Nat}
    (updates : BranchUpdates fork base branch fields (mergedArrivals name correlation before step)
      order) :
    ∃ merged result, Executor.mergeRecords group = pure merged ∧ merged.payload = .object result ∧
      (Applied (fun key => base.get? key) (fun i key => (branch i).get? key) fields order
          (fun key => Assoc.get? key result) ↔
        OnTop (fun key => base.get? key) (fun i key => (branch i).get? key) order) := by
  have here : step.op.1.arrivesAt name correlation = true := by
    rw [arrives]
    exact decide_eq_true ⟨rfl, rfl⟩
  obtain ⟨-, rfl⟩ := merged_of_released accepted.wellFormed fresh run split here released
  have payloads : (recordsOf Occurrence.erase (mergedArrivals name correlation before step)).map
      (·.payload) = order.map fun i => .object (branch i) := by
    have behind := updates.behind
    generalize mergedArrivals name correlation before step = arrived at behind
    clear updates
    induction behind with
    | nil => rfl
    | cons each _ ih => exact congrArg₂ List.cons each.2 ih
  obtain ⟨first, rest, grouped⟩ : ∃ first rest,
      recordsOf Occurrence.erase (mergedArrivals name correlation before step) = first :: rest := by
    unfold mergedArrivals
    cases (joinLedger Occurrence.erase name correlation before).pending <;> exact ⟨_, _, rfl⟩
  rw [grouped] at payloads ⊢
  cases order with
  | nil => cases payloads
  | cons i order =>
      rw [List.map_cons, List.map_cons] at payloads
      obtain ⟨start, others⟩ := List.cons.inj payloads
      obtain ⟨result, merged, shown⟩ := Executor.payload_mergeGroup
        (fun j member => updates.distinct j (List.mem_cons_of_mem _ member)) start others
      refine ⟨_, result, Executor.mergeRecords_cons first rest, merged, ?_⟩
      rw [← applied_iff updates.updates (List.cons_ne_nil i order)]
      exact iff_of_eq (congrArg _ (funext shown))

end Released

namespace Sample

/-- The first branch raises the flag of its record. -/
def raising : Host :=
  { host fun _ => .ok [.ok (record (.object [("flag", .bool false)]))] with
    transform := fun node _ record =>
      if node = "a" then .ok (.pass (record.set "flag" (.bool true))) else .ok (.pass record) }

/-- The run whose first branch raises the flag. -/
def raised : List (Occurrence (Traced Engine) World) × Config (Traced Engine) World :=
  Config.play (S := Traced Engine) (tracedBody walkCall)
    (fun _ => tracedHandle (World.perform raising))
    ⟨storeless, spawnedAll (executor forkGraph).programs⟩ (List.replicate 60 0)

theorem raised_run : (executor forkGraph).TracedRun raising storeless raised.1 raised.2 :=
  Config.run_play _ _

/-- The entering record. -/
def lowered : Record := record (.object [("flag", .bool false)])

/-- The visit of the parallel step. -/
def raisedFork : Visit Engine where
  origin := 0
  hops :=
    [⟨0, 0, ⟨executor forkGraph, lowered, "fork"⟩⟩, ⟨0, 0, ⟨executor forkGraph, lowered, "in"⟩⟩]

/-- What the branches make of the entering record. -/
def raisedBranch (i : Nat) : Fields := [("flag", .bool (i == 0))]

/-- What the branches change. -/
def raisedFields (i : Nat) : Set String := {key | i = 0 ∧ key = "flag"}

/-- A walk behind the parallel step. -/
def raisedCall (flag : Bool) (node : String) : Call :=
  ⟨executor forkGraph, { record (.object [("flag", .bool flag)]) with
    metadata := [("correlation", "id")] }, node⟩

/-- The visits of the join. -/
def raisedVisits : List (Visit Engine) :=
  [(raisedFork.enter ⟨0, 0, raisedCall false "a"⟩).enter ⟨0, 0, raisedCall true "meet"⟩,
    (raisedFork.enter ⟨0, 1, raisedCall false "b"⟩).enter ⟨0, 0, raisedCall false "meet"⟩]

/-- The release, and where the merged records come from. -/
theorem raised_release : ∃ step after record group,
    raised.1 = raised.1.take 7 ++ step :: after ∧
    step.op.1 = .joinArrive "meet" "id" .all 2 1 record ∧
    step.op.1.releasedIn step.world = some group ∧
    (mergedArrivals "meet" "id" (raised.1.take 7) step).map (fun arrival => arrival.op.2) =
      raisedVisits ∧
    (mergedArrivals "meet" "id" (raised.1.take 7) step).map
        (fun arrival => arrival.op.1.arriving.payload) =
      [.object (raisedBranch 0), .object (raisedBranch 1)] ∧
    Executor.mergeRecords group = pure (raisedCall false "out").record :=
  ⟨_, _, _, _, rfl, rfl, rfl, rfl, rfl, rfl⟩

theorem raised_updates : Updates (fun key => Assoc.get? key [("flag", .bool false)])
    (fun i key => (raisedBranch i).get? key) raisedFields [0, 1] where
  nodup := by decide
  only i member key outside := by
    rcases List.mem_cons.mp member with rfl | rest
    · have other : ¬ "flag" = key := fun same => outside ⟨rfl, same.symm⟩
      simp only [raisedBranch, Assoc.get?_cons, if_neg other]
    · obtain rfl := List.mem_singleton.mp rest
      rfl
  apart i first j second other := by
    apply Set.disjoint_left.mpr
    rintro key ⟨rfl, -⟩ ⟨rfl, -⟩
    exact other rfl

theorem raised_branchUpdates {arrived : List (Occurrence (Traced Engine) World)}
    (visits : arrived.map (fun arrival => arrival.op.2) = raisedVisits)
    (payloads : arrived.map (fun arrival => arrival.op.1.arriving.payload) =
      [.object (raisedBranch 0), .object (raisedBranch 1)]) :
    BranchUpdates raisedFork [("flag", .bool false)] raisedBranch raisedFields arrived [0, 1] where
  entered := ⟨_, _, rfl, rfl⟩
  behind := by
    obtain ⟨first, rest, rfl, left, others⟩ := List.map_eq_cons_iff.mp visits
    obtain ⟨second, none_, rfl, right, done⟩ := List.map_eq_cons_iff.mp others
    obtain rfl := List.map_eq_nil_iff.mp done
    obtain ⟨payload, more⟩ := List.cons.inj payloads
    refine .cons ⟨⟨raisedCall false "a", ?_⟩, payload⟩
      (.cons ⟨⟨raisedCall false "b", ?_⟩, (List.cons.inj more).1⟩ .nil)
    · rw [left]
      exact Visit.below_enter _ _
    · rw [right]
      exact Visit.below_enter _ _
  distinct i _ := List.nodup_singleton _
  updates := raised_updates

/-- The flag is raised by one branch only, and the released record has it lowered. -/
theorem raised_loses :
    FlowGraph.build forkRegistry FlowGraph.Sample.hashOrder forkFlow FlowGraph.Sample.ctx =
        .ok forkGraph ∧
      ∃ steps config before step after record group merged result,
        (executor forkGraph).TracedRun raising storeless steps config ∧
        steps = before ++ step :: after ∧ step.op.1 = .joinArrive "meet" "id" .all 2 1 record ∧
        step.op.1.releasedIn step.world = some group ∧
        BranchUpdates raisedFork [("flag", .bool false)] raisedBranch raisedFields
          (mergedArrivals "meet" "id" before step) [0, 1] ∧
        Executor.mergeRecords group = pure merged ∧ merged.payload = .object result ∧
        Assoc.get? "flag" (raisedBranch 0) = some (.bool true) ∧ "flag" ∈ raisedFields 0 ∧
        Assoc.get? "flag" result = some (.bool false) := by
  obtain ⟨step, after, record, group, split, arrives, released, visits, payloads, merges⟩ :=
    raised_release
  exact ⟨rfl, _, _, _, step, after, record, group, _, _, raised_run, split, arrives, released,
    raised_branchUpdates visits payloads, merges, rfl, rfl, ⟨rfl, rfl⟩, rfl⟩

/-- The branch that has raised the flag has not arrived last. -/
theorem raised_covered : ∃ result : Fields,
    ¬ Applied (fun key => Assoc.get? key [("flag", .bool false)])
      (fun i key => (raisedBranch i).get? key) raisedFields [0, 1]
      (fun key => Assoc.get? key result) := by
  obtain ⟨step, after, record, group, split, arrives, released, visits, payloads, -⟩ :=
    raised_release
  obtain ⟨merged, result, -, -, applied⟩ := merges_updates_iff forkGraph_accepted
    (fun _ => rfl) raised_run split arrives released (raised_branchUpdates visits payloads)
  refine ⟨result, fun shown => ?_⟩
  have changed :
      Assoc.get? "flag" (raisedBranch 0) ≠ Assoc.get? "flag" [("flag", .bool false)] := by
    intro same
    have equal : some (Value.bool true) = some (.bool false) := same
    cases equal
  exact absurd (applied.mp shown 0 List.mem_cons_self "flag" (Option.some_ne_none _) changed).1
    (by decide)

end Sample

end Sohara
