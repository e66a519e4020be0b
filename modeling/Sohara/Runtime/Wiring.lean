import Sohara.Core.Except
import Sohara.Runtime.Graph

/-! # What the wired routes are

The routes of a node are its declared edges, in order, followed by the targets it
names as a control step. `Connects` states the resulting edges over ids;
`validateTargets` and `checkAcyclic` are exact about them.
-/

namespace Sohara

namespace BTreeMap

variable {V : Type}

theorem get?_insert (entries : BTreeMap V) (key other : String) (value : V) :
    (entries.insert key value)[other]? = if key = other then some value else entries[other]? := by
  simp [Std.TreeMap.getElem?_insert]

theorem mem_keys (entries : BTreeMap V) (key : String) :
    key ∈ entries.keys ↔ ∃ value, entries[key]? = some value := by
  rw [Std.TreeMap.mem_keys, Std.TreeMap.mem_iff_isSome_getElem?, Option.isSome_iff_exists]

theorem mem_toList (entries : BTreeMap V) (key : String) (value : V) :
    (key, value) ∈ entries.toList ↔ entries[key]? = some value :=
  Std.TreeMap.mem_toList_iff_getElem?_eq_some

theorem nodup_toList (entries : BTreeMap V) : (entries.toList.map Prod.fst).Nodup := by
  rw [Std.TreeMap.map_fst_toList_eq_keys]
  exact Std.TreeMap.nodup_keys

/-- Collecting from the entry under one key. -/
theorem flatMap_key {W : Type} (entries : BTreeMap V) (key : String) (collect : V → List W) :
    (entries.toList.flatMap fun entry => if entry.1 = key then collect entry.2 else []) =
      ((entries[key]?).map collect).getD [] := by
  have general : ∀ items : List (String × V), (items.map Prod.fst).Nodup →
      (∀ value, (key, value) ∈ items →
        (items.flatMap fun entry => if entry.1 = key then collect entry.2 else []) =
          collect value) ∧
      ((∀ value, (key, value) ∉ items) →
        (items.flatMap fun entry => if entry.1 = key then collect entry.2 else []) = []) := by
    intro items distinct
    refine ⟨?_, fun absent => List.flatMap_eq_nil_iff.mpr fun entry member => ?_⟩
    · induction items with
      | nil => intro value member; cases member
      | cons entry rest ih =>
          intro value member
          obtain ⟨fresh, others⟩ := List.nodup_cons.mp distinct
          rw [List.flatMap_cons]
          rcases List.mem_cons.mp member with rfl | inside
          · have none_left : (rest.flatMap fun entry =>
                if entry.1 = key then collect entry.2 else []) = [] :=
              List.flatMap_eq_nil_iff.mpr fun other isIn => if_neg fun same =>
                fresh (List.mem_map.mpr ⟨other, isIn, same⟩)
            rw [if_pos rfl, none_left, List.append_nil]
          · have different : entry.1 ≠ key := fun same =>
              fresh (List.mem_map.mpr ⟨_, inside, same.symm⟩)
            rw [if_neg different, List.nil_append]
            exact ih others value inside
    · refine if_neg fun same => absent entry.2 ?_
      subst same
      exact member
  obtain ⟨present, absent⟩ := general entries.toList entries.nodup_toList
  cases found : entries[key]? with
  | some value => exact present value ((entries.mem_toList key value).mpr found)
  | none =>
      refine absent fun value member => ?_
      rw [mem_toList, found] at member
      cases member

end BTreeMap

namespace Routes

variable (routes : Routes)

theorem from_extend (id other : String) (extra : List Route) :
    (routes.extend id extra).from_ other =
      routes.from_ other ++ if id = other then extra else [] := by
  unfold extend from_
  rw [BTreeMap.get?_insert]
  split
  · next same => rw [same]; rfl
  · rw [List.append_nil]

@[simp] theorem from_empty (id : String) : from_ ∅ id = [] := by
  simp [from_]

/-- A fold of extensions appends what is listed for a node, in order. -/
theorem from_foldl {α : Type} {step : Routes → α → Routes} (key : α → String)
    (extra : α → List Route)
    (steps : ∀ routes item id, (step routes item).from_ id =
      routes.from_ id ++ if key item = id then extra item else [])
    (items : List α) (id : String) :
    (items.foldl step routes).from_ id =
      routes.from_ id ++ items.flatMap fun item => if key item = id then extra item else [] := by
  induction items generalizing routes with
  | nil => simp
  | cons item rest ih =>
      rw [List.foldl_cons, ih, steps, List.flatMap_cons, List.append_assoc]

theorem mem_all (id : String) (route : Route) :
    (id, route) ∈ routes.all ↔ route ∈ routes.from_ id := by
  simp only [all, List.mem_flatMap, List.mem_map, Prod.mk.injEq]
  constructor
  · rintro ⟨⟨_, listed⟩, member, _, inside, rfl, rfl⟩
    rw [BTreeMap.mem_toList] at member
    simp only [from_, member]
    exact inside
  · intro inside
    unfold from_ at inside
    cases found : routes[id]? with
    | none => rw [found] at inside; cases inside
    | some listed =>
        rw [found] at inside
        exact ⟨(id, listed), (BTreeMap.mem_toList _ _ _).mpr found, route, inside, rfl, rfl⟩

/-- Target validation is exact. -/
theorem validateTargets_eq_ok (ids : List String) :
    routes.validateTargets ids = .ok () ↔
      ∀ id, ∀ route ∈ routes.from_ id, route.to_ ∈ ids ∧ id ≠ route.to_ := by
  unfold validateTargets
  rw [Except.forM_eq_ok]
  constructor
  · intro each id route member
    have checked := each (id, route) ((routes.mem_all id route).mpr member)
    split at checked
    · cases checked
    · next known =>
        split at checked
        · cases checked
        · next different => exact ⟨by simpa using known, different⟩
  · rintro each ⟨id, route⟩ member
    obtain ⟨known, different⟩ := each id route ((routes.mem_all id route).mp member)
    rw [if_neg (by simpa using known), if_neg different]

theorem from_of_notMem_keys (id : String) (absent : id ∉ routes.keys) : routes.from_ id = [] := by
  unfold from_
  cases found : routes[id]? with
  | none => rfl
  | some listed => exact absurd ((BTreeMap.mem_keys _ _).mpr ⟨_, found⟩) absent

theorem targets_of_notMem_keys (id : String) (absent : id ∉ routes.keys) :
    (routes.from_ id).map (·.to_) = [] := by
  rw [routes.from_of_notMem_keys id absent, List.map_nil]

/-- What holds of all routes holds of all targets. -/
theorem forall_targets {property : String → String → Prop}
    (each : ∀ id, ∀ route ∈ routes.from_ id, property id route.to_) :
    ∀ id, ∀ target ∈ (routes.from_ id).map (·.to_), property id target :=
  fun id => List.forall_mem_map.mpr (each id)

section Cycles

variable {routes} {hashOrder : HashOrder} {ids : List String}

/-- An accepted graph has a rank that every route lowers, and its routes start at
known nodes. -/
theorem exists_rank (distinct : ids.Nodup)
    (known : ∀ id, ∀ route ∈ routes.from_ id, route.to_ ∈ ids)
    (accepted : routes.checkAcyclic hashOrder ids = .ok ()) :
    (∀ id, ∀ route ∈ routes.from_ id, id ∈ ids) ∧
      ∃ rank : String → Nat, (∀ id ∈ ids, rank id < ids.length) ∧
        ∀ id, ∀ route ∈ routes.from_ id, rank route.to_ < rank id := by
  have complete : Kahn.check ids (hashOrder.order ids) routes.keys
      (fun id => (routes.from_ id).map (·.to_)) = some ids.length := by
    unfold checkAcyclic at accepted
    dsimp only at accepted
    split at accepted
    · next visited checked =>
        split at accepted
        · cases accepted
        · next all => rw [checked, Decidable.not_not.mp all]
    · cases accepted
  obtain ⟨origins, rank, bounded, descends⟩ := Kahn.exists_rank_of_check (hashOrder.perm ids)
    distinct Std.TreeMap.nodup_keys routes.targets_of_notMem_keys (routes.forall_targets known)
    complete
  exact ⟨fun id route member => origins id route.to_ (List.mem_map_of_mem member), rank, bounded,
    fun id route member => descends id route.to_ (List.mem_map_of_mem member)⟩

/-- Routes between known nodes without a cycle are accepted. -/
theorem checkAcyclic_eq_ok (distinct : ids.Nodup)
    (known : ∀ id, ∀ route ∈ routes.from_ id, id ∈ ids ∧ route.to_ ∈ ids)
    (acyclic : ∀ id, ¬ Relation.TransGen
      (fun source target => ∃ route ∈ routes.from_ source, route.to_ = target) id id) :
    routes.checkAcyclic hashOrder ids = .ok () := by
  have complete := @Kahn.check_of_acyclic _ _ _ (hashOrder.order ids) routes.keys
    (fun id => (routes.from_ id).map (·.to_)) (hashOrder.perm ids) distinct
    Std.TreeMap.nodup_keys routes.targets_of_notMem_keys
    (routes.forall_targets fun id route member => (known id route member).2)
    (routes.forall_targets fun id route member => (known id route member).1)
    (by simpa only [List.mem_map] using acyclic)
  unfold checkAcyclic
  simp only [complete, ne_eq, not_true_eq_false, if_false]

end Cycles

end Routes

namespace FlowGraph

variable {registry : Registry}

/-- The routes a node names itself. -/
def controlRoutes (node : PartialNode) : List Route :=
  match node.step with
  | .control node => (controlTargets node).map (⟨·, none⟩)
  | _ => []

/-- The edges of a flow: the declared ones, or the implicit chain of steps. -/
def declaredEdges (flow : FlowConfig) (partials : BTreeMap PartialNode) :
    List (String × String) :=
  if flow.edges.isEmpty then
    ((windows flow.steps).filter fun pair => !hasExplicitRoutes partials[pair.1.id]?).map
      fun pair => (pair.1.id, pair.2.id)
  else flow.edges.map fun edge => (edge.from_, edge.to_)

/-- An edge of the flow or a target named by a control step. -/
def Connects (flow : FlowConfig) (partials : BTreeMap PartialNode)
    (source target : String) : Prop :=
  (source, target) ∈ declaredEdges flow partials ∨
    ∃ node, (partials[source]?).map (·.step) = some (.control node) ∧ target ∈ controlTargets node

theorem from_addControl (routes : Routes) (entry : String × PartialNode) (id : String) :
    (addControl routes entry).from_ id =
      routes.from_ id ++ if entry.1 = id then controlRoutes entry.2 else [] := by
  unfold addControl controlRoutes
  cases entry.2.step with
  | control node => exact routes.from_extend _ _ _
  | _ => simp

/-- The routes of a node: declared ones first, then those it names itself. -/
theorem from_wireRoutes {flow : FlowConfig} {partials : BTreeMap PartialNode} {routes : Routes}
    (wired : wireRoutes registry flow partials = .ok routes) :
    ∃ declared : Routes,
      (∀ id, (declared.from_ id).map (·.to_) =
        ((declaredEdges flow partials).filter (·.1 = id)).map (·.2)) ∧
      ∀ id, routes.from_ id =
        declared.from_ id ++ ((partials[id]?).map controlRoutes).getD [] := by
  unfold wireRoutes at wired
  obtain ⟨declared, declares, rest⟩ := Except.map_eq_ok.mp wired
  subst rest
  refine ⟨declared, fun id => ?_, fun id => ?_⟩
  · unfold declaredEdges
    unfold wireEdges at declares
    split at declares
    · next empty =>
        cases declares
        rw [if_pos empty]
        rw [Routes.from_foldl ∅ (fun pair => pair.1.id)
          (fun pair => if hasExplicitRoutes partials[pair.1.id]? then []
            else [⟨pair.2.id, none⟩])]
        · rw [Routes.from_empty, List.nil_append]
          induction windows flow.steps with
          | nil => rfl
          | cons pair pairs ih =>
              rw [List.flatMap_cons, List.map_append, ih, List.filter_cons]
              by_cases same : pair.1.id = id <;>
                cases hasExplicitRoutes partials[pair.1.id]? <;> simp [same]
        · intro routes pair other
          unfold addLink
          split
          · simp
          · exact routes.from_extend _ _ _
    · next nonempty =>
        rw [if_neg nonempty]
        refine (Except.foldlM_induct declares (motive := fun done routes =>
          (routes.from_ id).map (·.to_) =
            ((done.map fun edge => (edge.from_, edge.to_)).filter (·.1 = id)).map (·.2))
          (by simp) fun done routes edge after _ holds added => ?_)
        obtain ⟨route, parsed, rfl⟩ := Except.map_eq_ok.mp added
        have target : route.to_ = edge.to_ := by
          unfold edgeRoute at parsed
          split at parsed
          · cases parsed; rfl
          · split at parsed
            · cases parsed; rfl
            · cases parsed
        rw [Routes.from_extend, List.map_append, holds, List.map_append, List.filter_append,
          List.map_append]
        by_cases same : edge.from_ = id <;> simp [same, target]
  · rw [Routes.from_foldl _ _ _ (fun routes entry id => from_addControl routes entry id),
      BTreeMap.flatMap_key]

/-- The wired routes are the connections of the flow. -/
theorem mem_wireRoutes {flow : FlowConfig} {partials : BTreeMap PartialNode} {routes : Routes}
    (wired : wireRoutes registry flow partials = .ok routes) (source target : String) :
    (∃ route ∈ routes.from_ source, route.to_ = target) ↔ Connects flow partials source target := by
  obtain ⟨declared, edges, all⟩ := from_wireRoutes wired
  have listed : (∃ route ∈ routes.from_ source, route.to_ = target) ↔
      target ∈ (routes.from_ source).map (·.to_) := List.mem_map.symm
  rw [listed, all, List.map_append, List.mem_append, edges]
  unfold Connects
  refine or_congr ?_ ?_
  · simp
  · cases found : partials[source]? with
    | none => simp
    | some node =>
        cases stepEq : node.step with
        | control control => simp [controlRoutes, stepEq]
        | _ => simp [controlRoutes, stepEq]

end FlowGraph

end Sohara
