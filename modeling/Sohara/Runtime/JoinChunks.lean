import Sohara.Async.Amid
import Sohara.Runtime.JoinMerge

/-! # The chunks of a join

Under each correlation a join releases its arrivals in chunks of as many as it awaits, in
the order of arrival and however other correlations come in between. Each chunk is merged
into its first record, if that one is an object.
-/

namespace Sohara

open Async Async.Program Gather Overlay

section Definitions

variable (name correlation : String)

/-- The records that have arrived at a join under a correlation. -/
def arrived (steps : List (Occurrence Engine World)) : List Record :=
  recordsOf id (arrivals id name correlation steps)

/-- The groups a join has released under a correlation. -/
def releases (steps : List (Occurrence Engine World)) : List (List Record) :=
  (arrivals id name correlation steps).filterMap fun step => step.op.releasedIn step.world

/-- **The chunks of a correlation.** The `i`-th release is the `i`-th chunk of the arrivals, and
the arrivals after the last complete chunk are held. -/
structure Chunked (executor : Executor) (steps : List (Occurrence Engine World)) (after : World) :
    Prop where
  count : (releases name correlation steps).length =
    (arrived name correlation steps).length / executor.awaited name
  group : ∀ i < (arrived name correlation steps).length / executor.awaited name,
    (releases name correlation steps)[i]? =
      some (((arrived name correlation steps).drop (i * executor.awaited name)).take
        (executor.awaited name))
  held : after.held name correlation = (arrived name correlation steps).drop
    ((arrived name correlation steps).length / executor.awaited name * executor.awaited name)
  left : (after.held name correlation).length =
    (arrived name correlation steps).length % executor.awaited name

end Definitions

/-- The fields of an object payload as a partial map. -/
def layer (record : Record) : Option (String → Option Value) :=
  match record.payload with
  | .object fields => some fun key => Assoc.get? key fields
  | _ => none

/-- The fields of object payloads have different keys. -/
def DistinctKeys (records : List Record) : Prop :=
  ∀ record ∈ records, ∀ fields, record.payload = .object fields → (fields.map Prod.fst).Nodup

/-- **What a group is merged into**: its first record, whose fields, if it is an object, are
overlaid with those of the other objects in their order. -/
structure MergedFrom (first : Record) (rest : List Record) (merged : Record) : Prop where
  id : merged.id = first.id
  timestamp : merged.timestamp = first.timestamp
  metadata : merged.metadata = first.metadata
  object : ∀ base, first.payload = .object base → ∃ fields, merged.payload = .object fields ∧
    ∀ key, Assoc.get? key fields = overlayAll ((first :: rest).filterMap layer) key
  other : (∀ base, first.payload ≠ .object base) → merged.payload = first.payload

/-- The correlation an arrival is counted under: that of its record, or else a fresh one. -/
inductive KeyedBy (record : Record) : List (Act Engine) → String → Prop where
  | own {correlation : String} (known : record.metadata.get? "correlation" = some correlation) :
      KeyedBy record [] correlation
  | fresh {uuid : String} (none_ : record.metadata.get? "correlation" = none) :
      KeyedBy record [.performed .freshUuid uuid] uuid

section Merging

namespace Executor

variable {first other : Record} {rest : List Record}

theorem mergeInto_of_object {target source : Fields} (left : first.payload = .object target)
    (right : other.payload = .object source) : (mergeInto first other).payload =
      .object (source.foldl (fun fields entry => Assoc.insert entry.1 entry.2 fields) target) := by
  unfold mergeInto
  rw [left, right]

/-- A record that is no object, or is merged with none, stays as it is. -/
theorem mergeInto_of_not_object (apart : (∀ fields, first.payload ≠ .object fields) ∨
    ∀ fields, other.payload ≠ .object fields) : mergeInto first other = first := by
  unfold mergeInto
  split
  · next target source left right => exact (apart.elim (· _ left) (· _ right)).elim
  · rfl

/-- Merging changes payloads only. -/
theorem mergeInto_fields (first other : Record) : (mergeInto first other).id = first.id ∧
    (mergeInto first other).timestamp = first.timestamp ∧
      (mergeInto first other).metadata = first.metadata := by
  unfold mergeInto
  split <;> exact ⟨rfl, rfl, rfl⟩

theorem mergeGroup_snoc : mergeGroup first (rest ++ [other]) =
    mergeInto (mergeGroup first rest) other := by
  unfold mergeGroup
  rw [List.foldl_append, List.foldl_cons, List.foldl_nil]

/-- A merged record has the metadata of the first. -/
theorem metadata_mergeGroup (first : Record) (rest : List Record) :
    (mergeGroup first rest).metadata = first.metadata := by
  induction rest using List.reverseRecOn with
  | nil => rfl
  | append_singleton rest other ih =>
      rw [mergeGroup_snoc, (mergeInto_fields _ other).2.2]
      exact ih

/-- **The merge law.** -/
theorem mergedFrom_mergeGroup (distinct : DistinctKeys rest) :
    MergedFrom first rest (mergeGroup first rest) := by
  induction rest using List.reverseRecOn with
  | nil =>
      refine ⟨rfl, rfl, rfl, fun base isObject => ⟨base, isObject, fun key => ?_⟩, fun _ => rfl⟩
      have bottom : layer first = some fun key => Assoc.get? key base := by
        unfold layer
        rw [isObject]
      rw [List.filterMap_cons_some bottom, List.filterMap_nil]
      show Assoc.get? key base = (Assoc.get? key base).or none
      rw [Option.or_none]
  | append_singleton rest other ih =>
      obtain ⟨id, timestamp, metadata, object, kept⟩ :=
        ih fun record member => distinct record (List.mem_append_left _ member)
      rw [mergeGroup_snoc]
      obtain ⟨sameId, sameTime, sameMeta⟩ := mergeInto_fields (mergeGroup first rest) other
      refine ⟨sameId.trans id, sameTime.trans timestamp, sameMeta.trans metadata,
        fun base isObject => ?_, fun noObject => ?_⟩
      · obtain ⟨fields, merged, shown⟩ := object base isObject
        rw [← List.cons_append, List.filterMap_append]
        by_cases isSource : ∃ source, other.payload = .object source
        · obtain ⟨source, isSource⟩ := isSource
          have top : layer other = some fun key => Assoc.get? key source := by
            unfold layer
            rw [isSource]
          refine ⟨_, mergeInto_of_object merged isSource, fun key => ?_⟩
          rw [Assoc.get?_foldl_insert (distinct other (List.mem_append_right _
            List.mem_cons_self) source isSource), List.filterMap_cons_some top, List.filterMap_nil,
            overlayAll_snoc, shown key]
        · have through : layer other = none := by
            unfold layer
            split
            · next source same => exact absurd ⟨source, same⟩ isSource
            · rfl
          rw [mergeInto_of_not_object (.inr fun fields same => isSource ⟨fields, same⟩),
            List.filterMap_cons_none through, List.filterMap_nil, List.append_nil]
          exact ⟨fields, merged, shown⟩
      · have before := kept noObject
        rw [mergeInto_of_not_object (.inl fun fields same => noObject fields
          (before.symm.trans same))]
        exact before

end Executor

end Merging

section Ledger

variable {executor : Executor} {host : Host} {world after : World} {name correlation : String}

/-- What is released are the groups of the ledger. -/
theorem releases_eq {steps : List (Occurrence Engine World)}
    (history : History (World.perform host) world steps after)
    (joins : Permitted executor.JoinsAs steps) (empty : world.held name correlation = []) :
    releases name correlation steps =
      (joinLedger id name correlation steps).released.map (recordsOf id) := by
  induction history with
  | nil => rfl
  | @snoc steps between earlier task op ih =>
      have before : Permitted executor.JoinsAs steps :=
        fun other member => joins other (List.mem_append_left _ member)
      have settings : executor.JoinsAs op :=
        joins ⟨task, between, op⟩ (List.mem_append_right _ List.mem_cons_self)
      have identity : steps.map id = steps := List.map_id _
      rw [← identity] at earlier before
      obtain ⟨-, holds⟩ := joinLedger_eq_gather earlier before empty
      rw [identity] at before
      unfold releases
      rw [joinLedger_snoc, arrivals_snoc]
      unfold logArrival
      cases here : op.arrivesAt name correlation with
      | false =>
          simp only [id_eq, here, Bool.false_eq_true, if_false]
          exact ih before
      | true =>
          obtain ⟨released, -⟩ := @arrival_of_held _ id name correlation executor host between _
            ⟨task, between, op⟩ op rfl here settings holds
          have earlierReleases := ih before
          unfold releases at earlierReleases
          simp only [id_eq, here, if_true, List.filterMap_append, earlierReleases,
            List.filterMap_cons, List.filterMap_nil]
          split at released
          · simp only [released, Option.isSome_some, if_true, List.map_append, List.map_cons,
              List.map_nil]
          · simp only [released, Option.isSome_none, Bool.false_eq_true, if_false, List.append_nil]

/-- **A join releases chunks.** -/
theorem chunked_of_history {steps : List (Occurrence Engine World)}
    (history : History (World.perform host) world steps after)
    (joins : Permitted executor.JoinsAs steps) (empty : world.held name correlation = []) :
    Chunked name correlation executor steps after := by
  have positive := executor.awaited_pos name
  have released := releases_eq history joins empty
  have identity : steps.map id = steps := List.map_id _
  rw [← identity] at history joins
  obtain ⟨ledger, holds⟩ := joinLedger_eq_gather history joins empty
  rw [ledger] at released holds
  have size : (arrived name correlation steps).length =
      (arrivals id name correlation steps).length := List.length_map ..
  refine ⟨?_, fun i inside => ?_, ?_, ?_⟩
  · rw [released, List.length_map, length_released positive, size]
  · rw [size] at inside
    rw [released, List.getElem?_map, released_getElem? positive _ inside]
    unfold arrived recordsOf
    rw [Option.map_some, List.map_take, List.map_drop]
  · rw [holds, pending_eq_drop positive, size]
    unfold arrived recordsOf
    rw [List.map_drop]
  · rw [holds, size]
    unfold recordsOf
    rw [List.length_map, length_pending positive]

end Ledger

section Visits

variable (executor : Executor) (host : Host) (rely : World → World → Prop) (node : Node)
  (record : Record)

/-- What the execution of a join does with one record: it arrives once, under its correlation,
and when a group is released, the merged record is routed once. -/
inductive Arrives (acts : List (Act Engine)) (outcome : Outcome) (after : World) : Prop where
  | waits {drawn : List (Act Engine)} {correlation : String} {mode : JoinMode}
      {expected threshold : Nat} (keyed : KeyedBy record drawn correlation)
      (same : acts = drawn ++
        [.performed (.joinArrive node.id correlation mode expected threshold record) none])
      (done : outcome = .ok ()) : Arrives acts outcome after
  | releases {drawn routed : List (Act Engine)} {correlation : String} {mode : JoinMode}
      {expected threshold : Nat} {first : Record} {rest : List Record} {between : World}
      (keyed : KeyedBy record drawn correlation)
      (same : acts = drawn ++
        .performed (.joinArrive node.id correlation mode expected threshold record)
          (some (first :: rest)) :: routed)
      (routes : (executor.route (Executor.mergeGroup first rest) node).Amid (World.perform host)
        rely between routed outcome after)
      (merged : DistinctKeys rest →
        MergedFrom first rest (Executor.mergeGroup first rest)) : Arrives acts outcome after

variable {executor host rely node record} {world after : World} {acts : List (Act Engine)}
  {outcome : Outcome}

theorem amid_correlationOf {correlation : String}
    (amid : (Executor.correlationOf record).Amid (World.perform host) rely world acts correlation
      after) : KeyedBy record acts correlation := by
  unfold Executor.correlationOf at amid
  split at amid
  · next own known =>
      obtain ⟨rfl, rfl, -⟩ := amid.of_done
      exact .own known
  · next none_ =>
      obtain ⟨between, -, -, rfl, -⟩ := amid.of_op
      exact .fresh none_

/-- **One execution of a join.** -/
theorem arrives_of_amid {mode : JoinMode} {expected n : Nat}
    (buffer : executor.joinBuffer node.id = some (mode, expected, n))
    (amid : (executor.applyJoin node record).Amid (World.perform host) rely world acts outcome
      after) : Arrives executor host rely node record acts outcome after := by
  obtain ⟨drawn, rest, correlation, keyedAt, rfl, drew, arriving⟩ := amid.of_bind
  have keyed := amid_correlationOf drew
  rw [buffer] at arriving
  obtain ⟨arrival, routed, response, released, rfl, arrived, continued⟩ := arriving.of_bind
  obtain ⟨between, -, answered, rfl, -⟩ := arrived.of_op
  cases response with
  | none =>
      obtain ⟨rfl, rfl, -⟩ := continued.of_done
      exact .waits keyed (by rw [List.append_nil]) rfl
  | some group =>
      cases group with
      | nil =>
          rw [World.perform, World.joinArrive_fst] at answered
          split at answered
          · have nonempty := Option.some.inj answered
            exact absurd nonempty.symm (List.append_ne_nil_of_right_ne_nil _ (List.cons_ne_nil _ _))
          · cases answered
      | cons first rest =>
          exact .releases keyed rfl continued Executor.mergedFrom_mergeGroup

end Visits

section Law

variable {registry : Registry} {hashOrder : HashOrder} {flow : FlowConfig} {ctx : BuildContext}
  {executor : Executor} {host : Host} {world : World} {name : String} {node : Node}
  {mode : JoinMode} {n : Nat}

/-- The number of arrivals a join node waits for. -/
def JoinMode.chunk (mode : JoinMode) (incoming n : Nat) : Nat :=
  match mode with
  | .any => 1
  | .all => max incoming 1
  | .n => max n 1

namespace Executor

theorem joinBuffer_of_step (found : executor.graph.node name = some node)
    (isJoin : node.step = .control (.join mode n)) :
    executor.joinBuffer name = some (mode, node.incoming, n) := by
  unfold joinBuffer
  rw [found]
  obtain ⟨_, _, _, step, _, _, _⟩ := node
  cases isJoin
  rfl

theorem awaited_of_step (found : executor.graph.node name = some node)
    (isJoin : node.step = .control (.join mode n)) :
    executor.awaited name = mode.chunk node.incoming n := by
  unfold awaited
  rw [joinBuffer_of_step found isJoin]
  cases mode <;> rfl

end Executor

/-- **Joins release in chunks.** In every run of an accepted graph, beside any number of other
walks, each correlation of a join has its arrivals released in chunks. And every execution
of the join, whatever happens in between, arrives once under the correlation of its record,
or under a fresh one, and routes what the chunk it completes is merged into. -/
theorem join_chunks
    (accepted : FlowGraph.Accepted registry hashOrder flow ctx executor.graph)
    (found : executor.graph.node name = some node)
    (isJoin : node.step = .control (.join mode n)) :
    executor.awaited name = mode.chunk node.incoming n ∧
      (∀ {walks steps config}, (∀ call ∈ walks, executor.Known call) →
        (∀ correlation, world.held name correlation = []) →
          executor.RunBeside walks host world steps config →
            ∀ correlation, Chunked name correlation executor steps config.world) ∧
      ∀ {rely world record acts outcome after},
        (executor.applyJoin node record).Amid (World.perform host) rely world acts outcome after →
          Arrives executor host rely node record acts outcome after := by
  refine ⟨Executor.awaited_of_step found isJoin, fun known fresh run correlation => ?_,
    fun amid => ?_⟩
  · obtain ⟨history, joins⟩ := run.history accepted.wellFormed (executor.allows_joins default)
      (fun _ => executor.allows_joins _) executor.takes_joins executor.flushes_joins
      executor.emits_joins known
    exact chunked_of_history history joins (fresh correlation)
  · have buffer := Executor.joinBuffer_of_step found isJoin
    rw [← accepted.wellFormed.named found] at buffer
    exact arrives_of_amid buffer amid

end Law

namespace Sample

/-- The first branch makes a number of its record. -/
def numbering : Host :=
  { host fun _ => .ok [.ok (record (.object [("flag", .bool true)]))] with
    transform := fun node _ record =>
      if node = "a" then .ok (.pass { record with payload := .number (.posInt 5) })
      else .ok (.pass record) }

/-- The run whose first branch makes a number. -/
def numbered : List (Occurrence Engine World) × Config Engine World :=
  Config.play (S := Engine) walkCall (fun _ => World.perform numbering)
    ⟨storeless, (executor forkGraph).programs.map Task.run⟩ (List.replicate 60 0)

theorem numbered_run : (executor forkGraph).ProgramRun numbering storeless numbered.1 numbered.2 :=
  Config.run_play _ _

/-- The number stays, and the object that arrives after it is not merged. -/
theorem numbered_keeps :
    FlowGraph.build forkRegistry FlowGraph.Sample.hashOrder forkFlow FlowGraph.Sample.ctx =
        .ok forkGraph ∧
      ∃ steps config, (executor forkGraph).ProgramRun numbering storeless steps config ∧
        ∃ first rest, releases "meet" "id" steps = [first :: rest] ∧
          overlayAll ((first :: rest).filterMap layer) "flag" = some (.bool true) ∧
          (Executor.mergeGroup first rest).payload = .number (.posInt 5) ∧
          ¬ ∃ fields, (Executor.mergeGroup first rest).payload = .object fields ∧
            ∀ key, Assoc.get? key fields = overlayAll ((first :: rest).filterMap layer) key := by
  refine ⟨rfl, _, _, numbered_run, _, _, rfl, rfl, rfl, ?_⟩
  rintro ⟨fields, isObject, -⟩
  cases isObject

/-- Both branches have arrived, and their chunk is released. -/
theorem numbered_chunks :
    Chunked "meet" "id" (executor forkGraph) numbered.1 numbered.2.world ∧
      (arrived "meet" "id" numbered.1).length = 2 := by
  have beside : (executor forkGraph).RunBeside [] numbering storeless numbered.1 numbered.2 :=
    numbered_run
  have none_ : ∀ call ∈ ([] : List Call), (executor forkGraph).Known call :=
    fun _ member => nomatch member
  exact ⟨(join_chunks forkGraph_accepted rfl rfl).2.1 none_ (fun _ => rfl) beside "id", rfl⟩

end Sample

end Sohara
