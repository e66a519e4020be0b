import Sohara.Runtime.JoinChunks

/-! # The group map of a join

A join keeps a map from correlations to the records that have arrived and are not released.
An arrival enters its correlation, and a release takes the records but not the entry, so the
map has every correlation that has ever arrived, with or without records.
-/

namespace Sohara

open Async Async.Program

/-- The keys of the group map of a join are the correlations it holds records of. -/
def World.LiveGroups (world : World) (id : String) : Prop :=
  ∀ correlation, ((world.joins id).get? correlation).isSome = true ↔ world.held id correlation ≠ []

section Law

variable {executor : Executor} {host : Host} {world after : World} {name correlation : String}
  {steps : List (Occurrence Engine World)}

/-- **The group map grows**: its keys are the correlations that have arrived. -/
theorem isSome_joins_iff (history : History (World.perform host) world steps after)
    (fresh : world.joins name = []) :
    ((after.joins name).get? correlation).isSome = true ↔ arrived name correlation steps ≠ [] := by
  induction history with
  | nil =>
      rw [fresh]
      exact iff_of_false Bool.false_ne_true fun some_ => some_ rfl
  | @snoc steps between earlier task op ih =>
      unfold arrived at ih ⊢
      rw [arrivals_snoc]
      cases here : op.arrivesAt name correlation with
      | false =>
          rw [World.get?_joins_perform host between name correlation here, ih]
          simp only [id_eq, here, Bool.false_eq_true, if_false]
      | true =>
          simp only [id_eq, here, if_true]
          refine iff_of_true ?_ ?_
          · cases op with
            | joinArrive node group mode expected threshold record =>
                have both : node = name ∧ group = correlation := of_decide_eq_true here
                have entered := World.get?_joins_joinArrive between name correlation node group mode
                  expected threshold record
                rw [if_pos both] at entered
                exact congrArg Option.isSome entered
            | _ => cases here
          · rw [recordsOf_append]
            exact List.append_ne_nil_of_right_ne_nil _ (List.cons_ne_nil _ _)

variable {registry : Registry} {hashOrder : HashOrder} {flow : FlowConfig} {ctx : BuildContext}
  {walks : List Call} {config : Config Engine World}

/-- **When a join map holds only live groups**: in a state that a run reaches, it does exactly
when no correlation has had as many arrivals as the join waits for, or a multiple of that. -/
theorem live_groups_iff (accepted : FlowGraph.Accepted registry hashOrder flow ctx executor.graph)
    (fresh : ∀ name, world.joins name = []) (known : ∀ call ∈ walks, executor.Known call)
    (run : executor.RunBeside walks host world steps config) (name : String) :
    config.world.LiveGroups name ↔ ∀ correlation, arrived name correlation steps ≠ [] →
      ¬ executor.awaited name ∣ (arrived name correlation steps).length := by
  obtain ⟨history, joins⟩ := run.history accepted.wellFormed (executor.allows_joins default)
    (fun _ => executor.allows_joins _) executor.takes_joins executor.flushes_joins
    executor.emits_joins known
  have empty : ∀ correlation, world.held name correlation = [] := by
    intro correlation
    unfold World.held
    rw [fresh name]
    rfl
  refine forall_congr' fun correlation => ?_
  have left := (chunked_of_history history joins (empty correlation)).left
  have holds : config.world.held name correlation ≠ [] ↔
      ¬ executor.awaited name ∣ (arrived name correlation steps).length := by
    rw [Nat.dvd_iff_mod_eq_zero, ← left, List.length_eq_zero_iff]
  rw [isSome_joins_iff history (fresh name), holds]
  constructor
  · exact fun live some_ => live.mp some_
  · intro incomplete
    refine ⟨incomplete, fun held none_ => held ?_⟩
    rw [none_]
    exact Nat.dvd_zero _

end Law

namespace Sample

/-- The two records have been released, but their correlation is still in the map. -/
theorem numbered_leaves_entry :
    FlowGraph.build forkRegistry FlowGraph.Sample.hashOrder forkFlow FlowGraph.Sample.ctx =
        .ok forkGraph ∧
      ∃ steps config, (executor forkGraph).ProgramRun numbering storeless steps config ∧
        (∃ record other, releases "meet" "id" steps = [[record, other]]) ∧
          config.world.joins "meet" = [("id", [])] ∧ ¬ config.world.LiveGroups "meet" := by
  refine ⟨rfl, _, _, numbered_run, ⟨_, _, rfl⟩, rfl, fun live => ?_⟩
  exact (live "id").mp rfl rfl

/-- When the map has live groups only. -/
theorem numbered_live_iff : numbered.2.world.LiveGroups "meet" ↔
    ∀ correlation, arrived "meet" correlation numbered.1 ≠ [] →
      ¬ (executor forkGraph).awaited "meet" ∣ (arrived "meet" correlation numbered.1).length := by
  have beside : (executor forkGraph).RunBeside [] numbering storeless numbered.1 numbered.2 :=
    numbered_run
  have none_ : ∀ call ∈ ([] : List Call), (executor forkGraph).Known call :=
    fun _ member => nomatch member
  exact live_groups_iff forkGraph_accepted (fun _ => rfl) none_ beside "meet"

end Sample

end Sohara
