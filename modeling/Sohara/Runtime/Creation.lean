import Sohara.Runtime.Alone
import Sohara.Runtime.SavedValues
import Sohara.Runtime.WellFormed

/-! # Creating an executor

A new executor resumes the stored run id, or stores a fresh one. It sets up the states of the
steps that declare one: as persisted, when it resumes and finds one, and as declared otherwise.
-/

namespace Sohara

open Async Async.Program

/-- The state a step starts with, when it declares one. -/
def startingState (entries : Entries) (runId : String) (resume : Bool) (node : Node) :
    Option Value :=
  node.state.map fun declared =>
    if resume then (entries (runId ++ ":state:" ++ node.id)).getD declared else declared

section Parts

variable {host : Host} {world after : World} {steps : List (Occurrence Engine World)}
  {flow runId : String} {resume : Bool} {node : Node}

/-- A fresh run id is stored. -/
theorem yields_freshRunId {id : String}
    (yields : Yields host (freshRunId flow) world steps id after) :
    after.states = world.states ∧ after.store =
      world.store.map fun entries =>
        Function.update entries (runIdKey flow) (some (.string id)) := by
  obtain ⟨_, -, asked⟩ := evaluates_op_bind yields
  obtain ⟨_, -, stored⟩ := yields_hasStore asked
  have same : (World.perform host world .freshUuid).2.store = world.store := rfl
  rw [same] at stored
  cases store : world.store with
  | none =>
      rw [store] at stored
      obtain ⟨-, -, rfl⟩ := evaluates_pure.mp stored
      exact ⟨rfl, store⟩
  | some entries =>
      rw [store] at stored
      obtain ⟨_, -, saved⟩ := evaluates_op_bind stored
      obtain ⟨-, rfl, rfl⟩ := evaluates_pure.mp saved
      rw [World.perform_states, World.perform_store, same, store]
      exact ⟨rfl, rfl⟩

/-- The run id is the stored one on resume, or it is fresh. -/
theorem yields_resolveRunId {id : String}
    (yields : Yields host (resolveRunId flow resume) world steps id after) :
    (resume = true ∧ world.entries (runIdKey flow) = some (.string id) ∧ after = world) ∨
      (resume = true → ∀ other, world.entries (runIdKey flow) ≠ some (.string other)) ∧
        after.states = world.states ∧ after.store = world.store.map fun entries =>
          Function.update entries (runIdKey flow) (some (.string id)) := by
  cases resume with
  | false => exact .inr ⟨(fun on => nomatch on), yields_freshRunId yields⟩
  | true =>
      obtain ⟨_, -, checked⟩ := yields_hasStore yields
      cases store : world.store with
      | none =>
          rw [store] at checked
          rw [← store]
          refine .inr ⟨fun _ other => ?_, yields_freshRunId checked⟩
          unfold World.entries
          rw [store]
          nofun
      | some entries =>
          rw [store] at checked
          rw [← store]
          obtain ⟨_, -, loaded⟩ := yields_load checked
          rw [World.entries_eq] at loaded
          match found : world.entries (runIdKey flow), loaded with
          | some (.string stored), loaded =>
              obtain ⟨-, rfl, rfl⟩ := evaluates_pure.mp loaded
              exact .inl ⟨rfl, rfl, rfl⟩
          | none, loaded | some .null, loaded | some (.bool _), loaded
          | some (.number _), loaded | some (.array _), loaded | some (.object _), loaded =>
              exact .inr ⟨fun _ _ => nofun, yields_freshRunId loaded⟩

theorem yields_initialState {value : Value}
    (yields : Yields host (initialState runId resume node) world steps value after) :
    after = world ∧ ∀ declared, node.state = some declared →
      some value = startingState world.entries runId resume node := by
  have starts : ∀ {value : Value}, (value = if resume then
      (world.entries (runId ++ ":state:" ++ node.id)).getD (node.state.getD (.object [])) else
        node.state.getD (.object [])) → ∀ declared, node.state = some declared →
      some value = startingState world.entries runId resume node := by
    rintro value rfl declared declares
    unfold startingState
    rw [declares]
    rfl
  cases resume with
  | false =>
      obtain ⟨-, rfl, rfl⟩ := evaluates_pure.mp yields
      exact ⟨rfl, starts rfl⟩
  | true =>
      obtain ⟨_, -, checked⟩ := yields_hasStore yields
      cases store : world.store with
      | none =>
          rw [store] at checked
          obtain ⟨-, rfl, rfl⟩ := evaluates_pure.mp checked
          refine ⟨rfl, starts ?_⟩
          unfold World.entries
          rw [store]
          rfl
      | some entries =>
          rw [store] at checked
          obtain ⟨_, -, loaded⟩ := yields_load checked
          rw [World.entries_eq] at loaded
          cases found : world.entries (runId ++ ":state:" ++ node.id) with
          | none =>
              rw [found] at loaded
              obtain ⟨-, rfl, rfl⟩ := evaluates_pure.mp loaded
              exact ⟨rfl, starts (by rw [found]; rfl)⟩
          | some saved =>
              rw [found] at loaded
              obtain ⟨-, rfl, rfl⟩ := evaluates_pure.mp loaded
              exact ⟨rfl, starts (by rw [found]; rfl)⟩

/-- **The states are set up**, by induction on the nodes. -/
theorem yields_initialStates {nodes : List Node} {done : Unit}
    (distinct : (nodes.map (·.id)).Nodup)
    (yields : Yields host (initialStates runId resume nodes) world steps done after) :
    after.store = world.store ∧
      (∀ node ∈ nodes, after.states.get? node.id =
        (startingState world.entries runId resume node).or (world.states.get? node.id)) ∧
      ∀ id, id ∉ nodes.map (·.id) → after.states.get? id = world.states.get? id := by
  induction nodes generalizing world steps with
  | nil =>
      obtain ⟨-, -, rfl⟩ := evaluates_pure.mp yields
      exact ⟨rfl, (fun _ member => nomatch member), fun _ _ => rfl⟩
  | cons node rest ih =>
      obtain ⟨fresh, apart⟩ := List.nodup_cons.mp distinct
      obtain ⟨_, _, value, between, -, initial, continued⟩ := evaluates_bind.mp yields
      obtain ⟨rfl, starts⟩ := yields_initialState initial
      cases declares : node.state with
      | none =>
          rw [declares] at continued
          obtain ⟨same, each, others⟩ := ih apart continued
          refine ⟨same, fun other member => ?_, fun id outside => ?_⟩
          · rcases List.mem_cons.mp member with rfl | inside
            · rw [others _ fresh]
              unfold startingState
              rw [declares]
              rfl
            · exact each other inside
          · exact others id fun inside => outside (List.mem_cons_of_mem _ inside)
      | some declared =>
          rw [declares] at continued
          obtain ⟨_, -, setting⟩ := evaluates_op_bind continued
          obtain ⟨same, each, others⟩ := ih apart setting
          have set_ : ∀ id,
              (World.perform host between (.setState node.id value)).2.states.get? id =
                if node.id = id then some value else between.states.get? id := by
            intro id
            rw [World.perform_states]
            exact Assoc.get?_insert ..
          refine ⟨same, fun other member => ?_, fun id outside => ?_⟩
          · rcases List.mem_cons.mp member with rfl | inside
            · rw [others _ fresh, set_, if_pos rfl, ← starts declared declares]
              rfl
            · have differ : node.id ≠ other.id :=
                fun same => fresh (List.mem_map.mpr ⟨other, inside, same.symm⟩)
              rw [each other inside, set_, if_neg differ]
              rfl
          · have differ : node.id ≠ id := fun same => outside (same ▸ List.mem_cons_self)
            rw [others id fun inside => outside (List.mem_cons_of_mem _ inside), set_,
              if_neg differ]

end Parts

/-- What the creation of an executor leads to. -/
structure Created (graph : FlowGraph) (resume : Bool) (world : World) (executor : Executor)
    (opened : World) : Prop where
  built : executor.graph = graph
  named : executor.flowName = graph.name
  runId : world.store.isSome = true →
    opened.entries (runIdKey graph.name) = some (.string executor.runId)
  resumes : resume = true → ∀ id, world.entries (runIdKey graph.name) = some (.string id) →
    executor.runId = id ∧ opened.entries = world.entries
  states : ∀ id node, graph.node id = some node →
    opened.states.get? id = startingState opened.entries executor.runId resume node

/-- **Creating an executor.** -/
theorem yields_newExecutor {host : Host} {world opened : World}
    {steps : List (Occurrence Engine World)} {env : ExecutorEnv} {graph : FlowGraph}
    {vars : Fields} {config : ExecutorConfig} {executor : Executor} (formed : graph.WellFormed)
    (fresh : world.states = [])
    (yields : Yields host (newExecutor env graph vars config) world steps executor opened) :
    Created graph config.resume world executor opened := by
  obtain ⟨_, _, runId, between, -, resolved, continued⟩ := evaluates_bind.mp yields
  obtain ⟨_, _, done, ready, -, initial, finished⟩ := evaluates_bind.mp continued
  obtain ⟨-, rfl, rfl⟩ := evaluates_pure.mp finished
  obtain ⟨store, each, -⟩ := yields_initialStates formed.nodup_ids initial
  have entries : opened.entries = between.entries := by
    unfold World.entries
    rw [store]
  have states : between.states = [] → ∀ id node, graph.node id = some node →
      opened.states.get? id = startingState opened.entries runId config.resume node := by
    intro none_ id node found
    have listed : node ∈ graph.nodeList :=
      List.mem_map.mpr ⟨(id, node), (BTreeMap.mem_toList _ _ _).mpr found, rfl⟩
    rw [← formed.named found, each node listed, none_, entries]
    exact Option.or_none
  rcases yields_resolveRunId resolved with ⟨resume, held, rfl⟩ | ⟨missing, kept, stored⟩
  · refine ⟨rfl, rfl, fun _ => entries ▸ held, fun _ id other => ⟨?_, entries⟩, states fresh⟩
    rw [held] at other
    exact Value.string.inj (Option.some.inj other)
  · refine ⟨rfl, rfl, fun present => ?_, fun on id held => absurd held (missing on id),
      states (kept.trans fresh)⟩
    obtain ⟨held, isStore⟩ := Option.isSome_iff_exists.mp present
    rw [entries, World.entries, stored, isStore]
    exact Function.update_self ..

end Sohara
