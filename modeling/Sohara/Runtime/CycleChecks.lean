import Sohara.Runtime.Acceptance

/-! # The two cycle checks

The validator checks the declared edges between their own endpoints, the builder all wired
routes between the nodes of the graph. Both count with Kahn's algorithm, and either fails, with
the same message, exactly on a cycle.
-/

namespace Sohara

section Law

/-- Some declared edge leads from one step to the other. -/
def FlowConfig.EdgeLeads (edges : List EdgeConfig) (source target : String) : Prop :=
  ∃ edge ∈ edges, edge.from_ = source ∧ edge.to_ = target

/-- Some route leads from one node to the other. -/
def Routes.Leads (routes : Routes) (source target : String) : Prop :=
  ∃ route ∈ routes.from_ source, route.to_ = target

/-- A check that fails with the given error on a cycle, and with no error otherwise. A missing
entry and an underflow of a count have errors of their own in the model. -/
structure ChecksCycles {ε : Type} (leads : String → String → Prop) (failure : ε)
    (result : Except ε Unit) : Prop where
  acyclic : ¬Kahn.Cyclic leads → result = .ok ()
  cyclic : Kahn.Cyclic leads → result = .error failure

/-- A count that is complete exactly without a cycle checks for cycles. -/
theorem ChecksCycles.of_count {ε : Type} {leads : String → String → Prop} {failure : ε}
    {visited count : Nat} (complete : visited = count ↔ ¬Kahn.Cyclic leads) :
    ChecksCycles leads failure (if visited ≠ count then .error failure else .ok ()) where
  acyclic acyclic := if_neg (not_not.mpr (complete.mpr acyclic))
  cyclic cycle := if_pos fun all => complete.mp all cycle

theorem ChecksCycles.ok_iff {ε : Type} {leads : String → String → Prop} {failure : ε}
    {result : Except ε Unit} (checks : ChecksCycles leads failure result) :
    result = .ok () ↔ ¬Kahn.Cyclic leads := by
  refine ⟨fun passed cycle => ?_, checks.acyclic⟩
  rw [checks.cyclic cycle] at passed
  cases passed

end Law

variable {hashOrder : HashOrder}

/-- The validator's check, for every order of its maps. -/
theorem FlowConfig.checksCycles (edges : List EdgeConfig) :
    ChecksCycles (EdgeLeads edges) (.invalid cycleMessage) (checkAcyclic hashOrder edges) := by
  have leads : (fun origin target =>
      target ∈ (edges.filter fun edge => edge.from_ = origin).map fun edge => edge.to_) =
        EdgeLeads edges := by
    funext origin target
    simp only [EdgeLeads, List.mem_map, List.mem_filter, decide_eq_true_eq, and_assoc]
  have endpoints : ∀ edge ∈ edges,
      edge.from_ ∈ (edges.flatMap fun edge => [edge.from_, edge.to_]).dedup ∧
        edge.to_ ∈ (edges.flatMap fun edge => [edge.from_, edge.to_]).dedup := by
    intro edge member
    simp only [List.mem_dedup, List.mem_flatMap]
    exact ⟨⟨edge, member, by simp⟩, edge, member, by simp⟩
  have inside : ∀ origin, ∀ target ∈ (edges.filter fun edge => edge.from_ = origin).map
      fun edge => edge.to_, EdgeLeads edges origin target := by
    intro origin target member
    rw [← leads]
    exact member
  obtain ⟨visited, checked, complete⟩ := @Kahn.check_exact _ _ _
    (hashOrder.order (edges.flatMap fun edge => [edge.from_, edge.to_]).dedup)
    (edges.map fun edge => edge.from_).dedup
    (fun origin => (edges.filter fun edge => edge.from_ = origin).map fun edge => edge.to_)
    (hashOrder.perm _) (List.nodup_dedup _) (List.nodup_dedup _)
    (fun origin absent => by
      rw [List.map_eq_nil_iff, List.filter_eq_nil_iff]
      intro edge member from_
      refine absent (List.mem_dedup.mpr (List.mem_map.mpr ⟨edge, member, ?_⟩))
      exact of_decide_eq_true from_)
    (fun origin target member => by
      obtain ⟨edge, declared, -, rfl⟩ := inside origin target member
      exact (endpoints edge declared).2)
    (fun origin target member => by
      obtain ⟨edge, declared, rfl, -⟩ := inside origin target member
      exact (endpoints edge declared).1)
  rw [leads] at complete
  unfold checkAcyclic
  simp only [checked]
  exact .of_count complete

/-- The builder's check, for every order of its maps. -/
theorem Routes.checksCycles {routes : Routes} {ids : List String} (distinct : ids.Nodup)
    (known : ∀ id, ∀ route ∈ routes.from_ id, id ∈ ids ∧ route.to_ ∈ ids) :
    ChecksCycles routes.Leads (.config FlowConfig.cycleMessage)
      (routes.checkAcyclic hashOrder ids) := by
  have leads : (fun origin target => target ∈ (routes.from_ origin).map fun route => route.to_) =
      routes.Leads := by
    funext origin target
    simp only [Routes.Leads, List.mem_map]
  obtain ⟨visited, checked, complete⟩ := @Kahn.check_exact _ _ _ (hashOrder.order ids) routes.keys
    (fun id => (routes.from_ id).map fun route => route.to_) (hashOrder.perm ids) distinct
    Std.TreeMap.nodup_keys routes.targets_of_notMem_keys
    (routes.forall_targets fun id route member => (known id route member).2)
    (routes.forall_targets fun id route member => (known id route member).1)
  rw [leads] at complete
  unfold checkAcyclic
  simp only [checked]
  exact .of_count complete

/-- **Both cycle checks are exact**, and they agree when the routes are the edges. -/
theorem cycle_checks_exact {routes : Routes} {ids : List String} (edges : List EdgeConfig)
    (validating building : HashOrder) (distinct : ids.Nodup)
    (known : ∀ id, ∀ route ∈ routes.from_ id, id ∈ ids ∧ route.to_ ∈ ids) :
    ChecksCycles (FlowConfig.EdgeLeads edges) (.invalid FlowConfig.cycleMessage)
        (FlowConfig.checkAcyclic validating edges) ∧
      ChecksCycles routes.Leads (.config FlowConfig.cycleMessage)
        (routes.checkAcyclic building ids) ∧
      ((∀ source target, routes.Leads source target ↔
          FlowConfig.EdgeLeads edges source target) →
        (FlowConfig.checkAcyclic validating edges = .ok () ↔
          routes.checkAcyclic building ids = .ok ())) := by
  have validator := @FlowConfig.checksCycles validating edges
  have builder := @Routes.checksCycles building routes ids distinct known
  refine ⟨validator, builder, fun same => ?_⟩
  have leads : routes.Leads = FlowConfig.EdgeLeads edges :=
    funext fun source => funext fun target => propext (same source target)
  rw [validator.ok_iff, builder.ok_iff, leads]

namespace Sample

/-- A route back and forth. -/
def roundTrip : Routes :=
  ((∅ : Routes).insert "a" [⟨"b", none⟩]).insert "b" [⟨"a", none⟩]

/-- The same as declared edges. -/
def backAndForth : List EdgeConfig := [.pair "a" "b", .pair "b" "a"]

theorem roundTrip_from (id : String) : roundTrip.from_ id =
    if "b" = id then [⟨"a", none⟩] else if "a" = id then [⟨"b", none⟩] else [] := by
  unfold roundTrip Routes.from_
  rw [BTreeMap.get?_insert, BTreeMap.get?_insert]
  split
  · rfl
  · split
    · rfl
    · simp

theorem roundTrip_leads (source target : String) : roundTrip.Leads source target ↔
    source = "b" ∧ target = "a" ∨ source = "a" ∧ target = "b" := by
  unfold Routes.Leads
  rw [roundTrip_from]
  by_cases second : "b" = source
  · subst second
    simp [eq_comm]
  · by_cases first : "a" = source
    · subst first
      simp [eq_comm]
    · simp [second, first, Ne.symm second, Ne.symm first]

theorem backAndForth_leads (source target : String) :
    FlowConfig.EdgeLeads backAndForth source target ↔
      source = "b" ∧ target = "a" ∨ source = "a" ∧ target = "b" := by
  simp [FlowConfig.EdgeLeads, backAndForth, EdgeConfig.from_, EdgeConfig.to_, eq_comm, or_comm]

theorem backAndForth_checked :
    FlowConfig.checkAcyclic FlowGraph.Sample.hashOrder backAndForth = .ok () ↔
      roundTrip.checkAcyclic FlowGraph.Sample.hashOrder ["a", "b"] = .ok () := by
  refine (cycle_checks_exact backAndForth FlowGraph.Sample.hashOrder FlowGraph.Sample.hashOrder
    (by decide) fun id route member => ?_).2.2 fun source target =>
      (roundTrip_leads source target).trans (backAndForth_leads source target).symm
  rcases (roundTrip_leads id route.to_).mp ⟨route, member, rfl⟩ with ⟨from_, to_⟩ | ⟨from_, to_⟩
  · simp [from_, to_]
  · simp [from_, to_]

end Sample

end Sohara
