import Sohara.Runtime.RunSafety
import Sohara.Runtime.WalkCost

/-! # Runs send the path sums of their sources

The source tasks of a run over a stateless flow are accounted for by the path
sums of their records. Flushing sends nothing, so whatever the interleaving, the
sinks have been sent exactly the sum over all sources when the run returns.
-/

namespace Sohara

open Async Async.Program

namespace World

/-- The cores handed to sinks so far, with their sinks. -/
def sentCores (world : World) : Multiset (String × Core) :=
  world.sent.map fun entry => (entry.1, entry.2.core)

/-- The payloads handed to one sink so far. -/
def payloadsAt (world : World) (sink : String) : Multiset Value :=
  ((world.sent.filter fun entry => entry.1 = sink).map fun entry => entry.2.payload : List Value)

/-- The payloads that a sum of cores assigns to one sink. -/
def payloadsOf (cores : Multiset (String × Core)) (sink : String) : Multiset Value :=
  (cores.filter fun entry => entry.1 = sink).map fun entry => entry.2.payload

theorem payloadsAt_eq (world : World) (sink : String) :
    world.payloadsAt sink = payloadsOf world.sentCores sink := by
  unfold payloadsAt payloadsOf sentCores
  rw [Multiset.filter_coe, Multiset.map_coe, List.filter_map, List.map_map]
  rfl

theorem sentCores_perform (host : Host) (world : World) (op : Op) :
    (perform host world op).2.sentCores =
      world.sentCores + Executor.sends ⟨op, (perform host world op).1⟩ := by
  have spent : ((handed op).map fun entry => (entry.1, entry.2.core) : Multiset (String × Core)) =
      Executor.sends ⟨op, (perform host world op).1⟩ := by
    cases op <;> rfl
  unfold sentCores
  rw [perform_sent, List.map_append, ← Multiset.coe_add, spent]

end World

namespace Executor

variable {executor : Executor} {action : Action} {host : Host}

/-- A process without a store and with components acting as given responds as
admitted. -/
theorem admits_perform
    (deterministic : ∀ id history record, executor.ActsAs action id record
      (host.transform id history record))
    {world : World} (absent : world.store = none) (op : Op) :
    executor.Admits action host.streams op (World.perform host world op).1 := by
  cases op with
  | eval platform ctx expr value => exact ⟨_, rfl⟩
  | hasStore =>
      show world.store.isSome = false
      rw [absent]
      rfl
  | transform id record => exact deterministic id _ record
  | stream source => rfl
  | _ => trivial

/-- A stateless flow has no batches. -/
theorem Stateless.batches_eq_nil (stateless : executor.Stateless) : executor.batches = [] := by
  refine List.eq_nil_iff_forall_not_mem.mpr fun id member => ?_
  have isBatch := (mem_batches.mp member).2
  unfold Executor.isBatch at isBatch
  split at isBatch
  · next found => exact stateless.steps found
  · cases isBatch

/-- Flushing a stateless flow neither sends nor walks. -/
theorem safe_flushAll_of_stateless {admits : (op : Op) → op.Response → Prop}
    (stateless : executor.Stateless) :
    Safe (S := Engine) admits IsFree (fun _ => False) executor.flushAll := by
  have allows : executor.Allows IsFree default := by
    constructor
    case quiet => intro op quiet; cases op <;> trivial
    case send => exact fun isSink => nomatch isSink
    all_goals intros; trivial
  refine safe_flushAll allows.performs (fun _ _ => trivial) (fun _ _ => trivial) (fun _ => trivial)
    fun id node isBatch found =>
    absurd ?_ (List.eq_nil_iff_forall_not_mem.mp stateless.batches_eq_nil id)
  exact mem_batches.mpr ⟨(BTreeMap.mem_keys _ _).mpr ⟨node, found⟩, isBatch⟩

/-- The sum over all sources of a run. -/
def runMeaning (executor : Executor) (action : Action)
    (streams : String → Except Error (List Item)) : Multiset (String × Core) :=
  (executor.graph.roots.map (executor.sourceMeaning action streams)).sum

/-- The accounts of a run hold in all its states. -/
theorem accounted_run (formed : executor.graph.WellFormed) (stateless : executor.Stateless)
    (deterministic : ∀ id history record, executor.ActsAs action id record
      (host.transform id history record))
    (finite : ∀ root, ∃ items, host.streams root = .ok items) {world : World}
    (absent : world.store = none) (fresh : world.sent = []) {state : Supervised Engine World}
    (reached : executor.RunReaches (World.perform host) (executor.run world) state) :
    state.Accounted (executor.Admits action host.streams) sends executor.Known (price action)
      World.sentCores IsFree (fun _ => False) (executor.runMeaning action host.streams) := by
  have initial : (executor.run world).Accounted (executor.Admits action host.streams) sends
      executor.Known (price action) World.sentCores IsFree (fun _ => False)
      (executor.runMeaning action host.streams) := by
    refine ⟨⟨executor.graph.roots.map (executor.sourceMeaning action host.streams), ?_, ?_⟩,
      fun earlier below => absurd below (Nat.not_lt_zero _)⟩
    · refine List.forall₂_map_left_iff.mpr (List.forall₂_map_right_iff.mpr ?_)
      exact List.forall₂_same.mpr fun root _ => sends_runSource finite root
    · show world.sentCores + _ = _
      unfold World.sentCores
      rw [fresh]
      exact zero_add _
  exact (initial.reaches (fun world => world.store = none)
    (fun call known => sends_walkCall formed stateless known)
    (fun _ never => never.elim) (safe_flushAll_of_stateless stateless)
    (fun world op absent => admits_perform deterministic absent op)
    (fun world op absent => World.perform_store_none host world absent op)
    (World.sentCores_perform host) (fun op response free => sends_eq_zero free response)
    absent reached).1

end Executor

/-- **Path-sum meaning of a flow.** Every run of an accepted stateless graph ends,
however its sources and parallel branches interleave, and every sink has then been
sent exactly the payloads of the path sums of all source records. -/
theorem sent_eq_pathSum {registry : Registry} {hashOrder : HashOrder} {flow : FlowConfig}
    {ctx : BuildContext} (executor : Executor)
    (accepted : FlowGraph.Accepted registry hashOrder flow ctx executor.graph)
    (stateless : executor.Stateless) (action : Action) (host : Host)
    (deterministic : ∀ id history record, executor.ActsAs action id record
      (host.transform id history record))
    (finite : ∀ root, ∃ items, host.streams root = .ok items)
    (file : Entries) (written : String → List Record) :
    Supervised.Halts (S := Engine) walkCall (World.perform host) executor.flushAll
        (executor.run (World.start none file written)) ∧
      ∀ state, executor.RunReaches (World.perform host)
          (executor.run (World.start none file written)) state →
        ((∃ outcome, state.main = .returned outcome) ∨
          ∃ next, executor.RunStep (World.perform host) state next) ∧
        ∀ outcome, state.main = .returned outcome → ∀ sink,
          state.spawned.world.payloadsAt sink =
            World.payloadsOf (executor.runMeaning action host.streams) sink := by
  have formed := accepted.wellFormed
  refine ⟨Executor.halts_run formed, fun state reached =>
    ⟨Executor.returned_or_step reached, fun outcome ended sink => ?_⟩⟩
  have accounted := Executor.accounted_run formed stateless deterministic finite rfl rfl reached
  unfold Supervised.Accounted at accounted
  rw [ended] at accounted
  rw [World.payloadsAt_eq, accounted.1]

namespace Sample

/-- A host of components that always succeed, over the given streams. -/
def host (streams : String → Except Error (List Item)) : Host where
  streams := streams
  transform _ _ record := .ok (.pass record)
  send _ _ _ := .ok ()
  flush _ _ := .ok ()
  draws _ := Draws.blank
  uuid _ := "id"
  clock _ := 0
  persist _ := .ok ()
  hashOrder := FlowGraph.Sample.hashOrder

/-- Two records from every source. -/
def twoRecords (_ : String) : Except Error (List Item) :=
  .ok [.ok (record .null), .ok (record (.bool true))]

/-- The graph of the copying flow. -/
def copyGraph : FlowGraph where
  name := "intake"
  nodes := ((∅ : BTreeMap Node).insert "in"
    ⟨"in", none, .fail, .source, [⟨"out", none⟩], 0, none⟩).insert "out"
      ⟨"out", none, .fail, .sink, [], 1, none⟩
  roots := ["in"]

/-- Nodes under their ids. -/
def nodesOf (nodes : List Node) : BTreeMap Node :=
  nodes.foldl (fun built node => built.insert node.id node) ∅

/-- Only the given nodes are found. -/
theorem mem_of_nodesOf {nodes : List Node} {id : String} {node : Node}
    (found : (nodesOf nodes)[id]? = some node) : node ∈ nodes := by
  unfold nodesOf at found
  induction nodes using List.reverseRecOn with
  | nil => simp at found
  | append_singleton earlier last ih =>
      rw [List.foldl_append, List.foldl_cons, List.foldl_nil, BTreeMap.get?_insert] at found
      split at found
      · cases found
        exact List.mem_append_right _ List.mem_cons_self
      · exact List.mem_append_left _ (ih found)

/-- Components and guards of a flow with two branches. -/
def ordersRegistry : Registry :=
  { FlowGraph.Sample.registry with
    build := fun kind type config ctx =>
      match kind, type with
      | .control, "switch" => FlowGraph.Sample.requiring ["cases", "default"]
          (.control (.switch [⟨.path ["urgent"], "fast"⟩] "slow")) config
      | _, _ => FlowGraph.Sample.registry.build kind type config ctx
    parse := fun text =>
      if text = "paid" then .ok (.path ["paid"]) else FlowGraph.Sample.registry.parse text }

/-- Paid orders of two sources, checked and sent to one of two sinks. -/
def ordersFlow : FlowConfig :=
  { FlowGraph.Sample.intake with
    triggers := []
    steps := [FlowGraph.Sample.source "shop", FlowGraph.Sample.source "web",
      { FlowGraph.Sample.step "check" .transform "map" with when_ := some "paid" },
      { FlowGraph.Sample.step "route" .control "switch" with
        extra := [("cases", .array [.object [("when", .string "urgent"), ("to", .string "fast")]]),
          ("default", .string "slow")] },
      FlowGraph.Sample.sink "fast", FlowGraph.Sample.sink "slow"]
    edges := [.pair "shop" "check", .pair "web" "check", .pair "check" "route"] }

/-- The nodes of the flow. -/
def ordersNodes : List Node :=
  [⟨"check", some (.path ["paid"]), .fail, .transform, [⟨"route", none⟩], 2, none⟩,
    ⟨"fast", none, .fail, .sink, [], 1, none⟩,
    ⟨"route", none, .fail, .control (.switch [⟨.path ["urgent"], "fast"⟩] "slow"),
      [⟨"fast", none⟩, ⟨"slow", none⟩], 1, none⟩,
    ⟨"shop", none, .fail, .source, [⟨"check", none⟩], 0, none⟩,
    ⟨"slow", none, .fail, .sink, [], 1, none⟩,
    ⟨"web", none, .fail, .source, [⟨"check", none⟩], 0, none⟩]

/-- The graph of the flow. -/
def ordersGraph : FlowGraph := ⟨"intake", nodesOf ordersNodes, ["shop", "web"]⟩

theorem path_deterministic (segments : List String) : (Expr.path segments).Deterministic platform :=
  Expr.deterministic_of_drawFree rfl

theorem ordersGraph_stateless : (executor ordersGraph).Stateless where
  steps found := by
    have each : ∀ node ∈ ordersNodes, Executor.StatelessStep platform node.step := by
      simp only [ordersNodes, List.forall_mem_cons]
      refine ⟨trivial, trivial, fun case member => ?_, trivial, trivial, trivial, nofun⟩
      rw [List.mem_singleton.mp member]
      exact path_deterministic _
    exact each _ (mem_of_nodesOf found)
  guards found := by
    have each : ∀ node ∈ ordersNodes, ∀ guard, node.when_ = some guard →
        guard.Deterministic platform := by
      simp only [ordersNodes, List.forall_mem_cons]
      refine ⟨fun guard isGuard => ?_, nofun, nofun, nofun, nofun, nofun, nofun⟩
      rw [← Option.some.inj isGuard]
      exact path_deterministic _
    exact each _ (mem_of_nodesOf found)
  edges found route member guard isGuard := by
    have each : ∀ node ∈ ordersNodes, ∀ route ∈ node.routes, route.when_ = none := by decide
    rw [each _ (mem_of_nodesOf found) route member] at isGuard
    cases isGuard

/-- A field of an order. -/
def order (paid urgent : Bool) : Value := .object [("paid", .bool paid), ("urgent", .bool urgent)]

/-- The orders of the shop, and those of the web after an unreadable one. -/
def readOrders (root : String) : Except Error (List Item) :=
  .ok (if root = "shop" then [.ok (record (order true true)), .ok (record (order false true))]
    else [.error (.source "unreadable"), .ok (record (order true false))])

/-- Marks an order as checked. -/
def checked (payload : Value) : Value := setPath payload "checked" (.bool true)

/-- A host whose transform marks the orders. -/
def marking : Host :=
  { host readOrders with
    transform := fun _ _ record => .ok (.pass { record with payload := checked record.payload }) }

/-- The run of the flow ends, and each sink has been sent the paid orders of its branch. -/
theorem ordersFlow_sends :
    Supervised.Halts (S := Engine) walkCall (World.perform marking)
        (executor ordersGraph).flushAll
        ((executor ordersGraph).run (World.start none (fun _ => none) fun _ => [])) ∧
      ∀ state, (executor ordersGraph).RunReaches (World.perform marking)
          ((executor ordersGraph).run (World.start none (fun _ => none) fun _ => [])) state →
        ∀ outcome, state.main = .returned outcome →
          state.spawned.world.payloadsAt "fast" = {checked (order true true)} ∧
          state.spawned.world.payloadsAt "slow" = {checked (order true false)} := by
  have sum := @sent_eq_pathSum ordersRegistry FlowGraph.Sample.hashOrder ordersFlow
    FlowGraph.Sample.ctx (executor ordersGraph) (.inl rfl) ordersGraph_stateless
    (fun _ core => [{ core with payload := checked core.payload }]) marking
    (fun id history record node found isTransform => ⟨rfl, fun failed => by cases failed⟩)
    (fun root => ⟨_, rfl⟩) (fun _ => none) (fun _ => [])
  refine ⟨sum.1, fun state reached outcome ended => ⟨?_, ?_⟩⟩
  · exact ((sum.2 state reached).2 outcome ended "fast").trans rfl
  · exact ((sum.2 state reached).2 outcome ended "slow").trans rfl

end Sample

end Sohara
