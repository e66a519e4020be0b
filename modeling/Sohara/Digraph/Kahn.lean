import Mathlib.Algebra.BigOperators.Group.Finset.Basic
import Mathlib.Data.List.Count
import Mathlib.Order.WellFoundedSet

/-! # Kahn's cycle check on finite multigraphs

A multigraph is given by its vertices, the vertices that list targets, and the
target list of each of these, with multiplicity. The check counts the edges
into every vertex, repeatedly removes a vertex without incoming edges and
counts the removals. It reads and decrements the counts through partial
operations, so that a missing entry or a subtraction below zero would stop it.

`check_eq_some` describes the removals, `exists_rank_of_check` and
`check_of_acyclic` give the two directions of correctness.
-/

namespace Kahn

variable {α : Type} [DecidableEq α]

/-- The number of listed edges into each vertex, counted over a list of edge
targets; a target that is not a vertex is ignored. -/
def countInto (vertices : List α) (edges : List α) : α → Option Nat :=
  edges.foldl
    (fun indegree target =>
      match indegree target with
      | some degree => Function.update indegree target (some (degree + 1))
      | none => indegree)
    (fun vertex => if vertex ∈ vertices then some 0 else none)

/-- Removes the edges to the given targets, pushing each target that loses its last
incoming edge; `none` when a target has no entry or no edge left to remove. -/
def relax : List α → (α → Option Nat) → List α → Option ((α → Option Nat) × List α)
  | [], indegree, ready => some (indegree, ready)
  | target :: rest, indegree, ready =>
      match indegree target with
      | none => none
      | some 0 => none
      | some (degree + 1) =>
          relax rest (Function.update indegree target (some degree))
            (if degree = 0 then target :: ready else ready)

/-- Removes ready vertices until none is left and counts them. -/
def drain (targets : α → List α) : Nat → (α → Option Nat) → List α → Nat → Option Nat
  | _, _, [], visited => some visited
  | 0, _, _ :: _, _ => none
  | fuel + 1, indegree, vertex :: ready, visited =>
      match relax (targets vertex) indegree ready with
      | none => none
      | some (indegree', ready') => drain targets fuel indegree' ready' (visited + 1)

/-- The number of vertices Kahn's algorithm removes, starting from the vertices
without incoming edges in the given order. -/
def check (vertices order origins : List α) (targets : α → List α) : Option Nat :=
  let indegree := countInto vertices (origins.flatMap targets)
  drain targets (vertices.length + 1) indegree
    (order.filter fun vertex => indegree vertex = some 0) 0

section Counting

/-- The partial map of a degree function on a list of vertices. -/
def onVertices (vertices : List α) (degree : α → Nat) (vertex : α) : Option Nat :=
  if vertex ∈ vertices then some (degree vertex) else none

theorem onVertices_update {vertices : List α} (degree : α → Nat) {vertex : α}
    (member : vertex ∈ vertices) (value : Nat) :
    Function.update (onVertices vertices degree) vertex (some value) =
      onVertices vertices (Function.update degree vertex value) := by
  funext other
  by_cases same : other = vertex
  · subst other
    simp [onVertices, member]
  · simp [onVertices, same]

theorem countInto_eq (vertices edges : List α) :
    countInto vertices edges = onVertices vertices fun vertex => edges.count vertex := by
  have general : ∀ (degree : α → Nat),
      edges.foldl
        (fun indegree target =>
          match indegree target with
          | some degree => Function.update indegree target (some (degree + 1))
          | none => indegree)
        (onVertices vertices degree) =
      onVertices vertices fun vertex => degree vertex + edges.count vertex := by
    induction edges with
    | nil => intro degree; simp
    | cons target rest ih =>
        intro degree
        rw [List.foldl_cons]
        by_cases member : target ∈ vertices
        · have entry : onVertices vertices degree target = some (degree target) := by
            simp [onVertices, member]
          simp only [entry]
          rw [onVertices_update degree member, ih]
          funext vertex
          by_cases same : vertex = target
          · subst vertex
            have shifted : degree target + 1 + rest.count target =
                degree target + (rest.count target + 1) := by omega
            simp [onVertices, shifted]
          · simp [onVertices, same, Ne.symm same]
        · have entry : onVertices vertices degree target = none := by
            simp [onVertices, member]
          simp only [entry]
          rw [ih]
          funext vertex
          by_cases same : vertex = target
          · subst vertex
            simp [onVertices, member]
          · simp [onVertices, Ne.symm same]
  exact (general fun _ => 0).trans (by simp only [Nat.zero_add])

/-- Relaxing lowers each degree by the number of removed edges and pushes exactly
the targets that drop to zero. -/
theorem relax_eq_some {vertices : List α} (edges : List α) (degree : α → Nat) (ready : List α)
    (known : ∀ target ∈ edges, target ∈ vertices)
    (enough : ∀ target, edges.count target ≤ degree target)
    (distinct : ready.Nodup) (idle : ∀ vertex ∈ ready, degree vertex = 0) :
    ∃ ready', relax edges (onVertices vertices degree) ready =
        some (onVertices vertices fun vertex => degree vertex - edges.count vertex, ready') ∧
      ready'.Nodup ∧ ∀ vertex, vertex ∈ ready' ↔
        vertex ∈ ready ∨ (vertex ∈ edges ∧ degree vertex = edges.count vertex) := by
  induction edges generalizing degree ready with
  | nil => exact ⟨ready, by simp [relax], distinct, by simp⟩
  | cons target rest ih =>
      have positive : 1 + rest.count target ≤ degree target := by
        have := enough target
        rw [List.count_cons_self] at this
        omega
      obtain ⟨left, leftEq⟩ : ∃ left, degree target = left + 1 :=
        ⟨degree target - 1, by omega⟩
      have entry : onVertices vertices degree target = some (left + 1) := by
        simp [onVertices, known target List.mem_cons_self, leftEq]
      have absent : target ∉ ready := fun member => by
        have := idle target member
        omega
      have lowered : ∀ vertex,
          Function.update degree target left vertex - rest.count vertex =
            degree vertex - (target :: rest).count vertex := by
        intro vertex
        by_cases same : vertex = target
        · subst vertex
          rw [Function.update_self, List.count_cons_self]
          omega
        · rw [Function.update_of_ne same, List.count_cons_of_ne (Ne.symm same)]
      obtain ⟨ready', relaxed, nodup, members⟩ := ih (Function.update degree target left)
        (if left = 0 then target :: ready else ready)
        (fun other member => known other (List.mem_cons_of_mem _ member))
        (fun other => by
          by_cases same : other = target
          · subst other
            rw [Function.update_self]
            omega
          · have := enough other
            rw [List.count_cons_of_ne (Ne.symm same)] at this
            rw [Function.update_of_ne same]
            exact this)
        (by split
            · exact List.nodup_cons.mpr ⟨absent, distinct⟩
            · exact distinct)
        (fun vertex member => by
          by_cases same : vertex = target
          · subst vertex
            split at member
            · next zero => rw [Function.update_self, zero]
            · exact absurd member absent
          · rw [Function.update_of_ne same]
            apply idle
            split at member
            · exact (List.mem_cons.mp member).resolve_left same
            · exact member)
      refine ⟨ready', ?_, nodup, fun vertex => ?_⟩
      · simp only [relax, entry]
        rw [onVertices_update degree (known target List.mem_cons_self), relaxed]
        simp only [lowered]
      · rw [members vertex]
        by_cases same : vertex = target
        · subst vertex
          rw [Function.update_self, List.count_cons_self]
          split
          · next zero => simp; omega
          · next nonzero =>
              have through : left = rest.count target → target ∈ rest := fun equal =>
                List.count_pos_iff.mp (by omega)
              simp only [absent, List.mem_cons_self, true_and, false_or]
              constructor
              · rintro ⟨_, equal⟩
                omega
              · intro equal
                exact ⟨through (by omega), by omega⟩
        · rw [Function.update_of_ne same, List.count_cons_of_ne (Ne.symm same)]
          have others : vertex ∈ (if left = 0 then target :: ready else ready) ↔
              vertex ∈ ready := by
            split
            · simp [same]
            · rfl
          rw [others]
          simp [same]

end Counting

section Removal

/-- The number of edges into a vertex from origins not removed yet. -/
def remaining (origins : Finset α) (targets : α → List α) (removed : List α) (vertex : α) : Nat :=
  ∑ origin ∈ origins.filter (· ∉ removed), (targets origin).count vertex

/-- Removing a vertex removes exactly its own edges. -/
theorem remaining_cons {origins : Finset α} {targets : α → List α} {removed : List α} {vertex : α}
    (listed : vertex ∉ origins → targets vertex = []) (fresh : vertex ∉ removed) (other : α) :
    remaining origins targets removed other =
      (targets vertex).count other + remaining origins targets (vertex :: removed) other := by
  have erased : (origins.filter (· ∉ removed)).erase vertex =
      origins.filter (· ∉ vertex :: removed) := by
    ext origin
    simp only [Finset.mem_erase, Finset.mem_filter, List.mem_cons, not_or]
    exact and_left_comm
  unfold remaining
  by_cases member : vertex ∈ origins
  · rw [← erased]
    exact (Finset.add_sum_erase _ _ (Finset.mem_filter.mpr ⟨member, fresh⟩)).symm
  · rw [listed member, List.count_nil, zero_add, ← erased,
      Finset.erase_eq_of_notMem fun inside => member (Finset.mem_filter.mp inside).1]

/-- The state of the removal after some vertices have been removed, most recent
first: the degrees count the edges from the origins not removed yet, the
vertices without such edges are the removed and the ready ones, and no vertex
was removed before the origin of one of its edges. -/
structure Removing (vertices : List α) (origins : Finset α) (targets : α → List α)
    (removed ready : List α) : Prop where
  distinct : (removed ++ ready).Nodup
  known : ∀ vertex ∈ removed ++ ready, vertex ∈ vertices
  idle : ∀ vertex ∈ vertices,
    remaining origins targets removed vertex = 0 ↔ vertex ∈ removed ++ ready
  ordered : removed.Pairwise fun later earlier => earlier ∉ targets later
  irreflexive : ∀ vertex ∈ removed, vertex ∉ targets vertex

variable {vertices : List α} {origins : Finset α} {targets : α → List α}

/-- One removal. -/
theorem Removing.step {removed ready : List α} {vertex : α}
    (removing : Removing vertices origins targets removed (vertex :: ready))
    (listed : ∀ origin, origin ∉ origins → targets origin = [])
    (targetsKnown : ∀ origin ∈ vertices, ∀ target ∈ targets origin, target ∈ vertices) :
    ∃ ready', relax (targets vertex)
        (onVertices vertices (remaining origins targets removed)) ready =
          some (onVertices vertices (remaining origins targets (vertex :: removed)), ready') ∧
      Removing vertices origins targets (vertex :: removed) ready' := by
  have vertexKnown : vertex ∈ vertices := removing.known vertex (by simp)
  have nodup := List.nodup_append.mp removing.distinct
  have fresh : vertex ∉ removed := fun member =>
    nodup.2.2 vertex member vertex List.mem_cons_self rfl
  have split := fun other => remaining_cons (fun absent => listed vertex absent) fresh other
  have unlisted : ∀ other ∈ removed ++ vertex :: ready, other ∉ targets vertex := by
    intro other member inside
    have zero := (removing.idle other (removing.known other member)).mpr member
    rw [split other] at zero
    have := List.count_pos_iff.mpr inside
    omega
  obtain ⟨ready', relaxed, readyDistinct, members⟩ :=
    relax_eq_some (targets vertex) (remaining origins targets removed) ready
      (targetsKnown vertex vertexKnown)
      (fun target => by rw [split target]; omega)
      (List.nodup_cons.mp nodup.2.1).2
      (fun other member => (removing.idle other
        (removing.known other (by simp [member]))).mpr (by simp [member]))
  refine ⟨ready', ?_, ?_⟩
  · rw [relaxed]
    congr 3
    funext other
    rw [split other]
    omega
  · have pushed : ∀ other, other ∈ ready' ↔ other ∈ ready ∨
        (other ∈ targets vertex ∧ remaining origins targets (vertex :: removed) other = 0) := by
      intro other
      rw [members other, split other]
      constructor <;> rintro (old | ⟨inside, equal⟩)
      · exact .inl old
      · exact .inr ⟨inside, by omega⟩
      · exact .inl old
      · exact .inr ⟨inside, by omega⟩
    have readyKnown : ∀ other ∈ ready', other ∈ vertices := by
      intro other member
      rcases (pushed other).mp member with old | ⟨inside, _⟩
      · exact removing.known other (by simp [old])
      · exact targetsKnown vertex vertexKnown other inside
    constructor
    · rw [List.cons_append, List.nodup_cons, List.mem_append, not_or, List.nodup_append]
      refine ⟨⟨fresh, fun member => ?_⟩, nodup.1, readyDistinct, ?_⟩
      · rcases (pushed vertex).mp member with old | ⟨inside, _⟩
        · exact (List.nodup_cons.mp nodup.2.1).1 old
        · exact unlisted vertex (by simp) inside
      · rintro other member _ readyMember rfl
        rcases (pushed other).mp readyMember with old | ⟨inside, _⟩
        · exact nodup.2.2 other member other (List.mem_cons_of_mem _ old) rfl
        · exact unlisted other (by simp [member]) inside
    · intro other member
      rcases List.mem_append.mp member with earlier | now
      · rcases List.mem_cons.mp earlier with rfl | earlier
        · exact vertexKnown
        · exact removing.known other (by simp [earlier])
      · exact readyKnown other now
    · intro other otherKnown
      have before := removing.idle other otherKnown
      have equation := split other
      simp only [List.cons_append, List.mem_cons, List.mem_append, pushed other] at before ⊢
      by_cases inside : other ∈ targets vertex
      · have unremoved := fun member => unlisted other member inside
        simp only [List.mem_append, List.mem_cons] at unremoved
        simp only [inside, true_and]
        refine ⟨fun none_left => .inr (.inr (.inr none_left)), ?_⟩
        rintro (same | gone | waiting | none_left)
        · exact (unremoved (.inr (.inl same))).elim
        · exact (unremoved (.inl gone)).elim
        · exact (unremoved (.inr (.inr waiting))).elim
        · exact none_left
      · have zero : (targets vertex).count other = 0 := List.count_eq_zero.mpr inside
        rw [zero, zero_add] at equation
        rw [equation] at before
        simp only [inside, false_and, or_false]
        exact before.trans or_left_comm
    · refine List.pairwise_cons.mpr ⟨fun earlier member => ?_, removing.ordered⟩
      exact unlisted earlier (by simp [member])
    · intro other member
      rcases List.mem_cons.mp member with rfl | earlier
      · exact unlisted other (by simp)
      · exact removing.irreflexive other earlier

/-- The removals run to an end, within fuel for the vertices not removed yet. -/
theorem Removing.drain {removed ready : List α} {fuel : Nat}
    (removing : Removing vertices origins targets removed ready)
    (listed : ∀ origin, origin ∉ origins → targets origin = [])
    (targetsKnown : ∀ origin ∈ vertices, ∀ target ∈ targets origin, target ∈ vertices)
    (enough : vertices.length < removed.length + fuel) :
    ∃ final, Kahn.drain targets fuel (onVertices vertices (remaining origins targets removed))
        ready removed.length = some final.length ∧
      Removing vertices origins targets final [] := by
  induction fuel generalizing removed ready with
  | zero =>
      have bound : removed.length ≤ vertices.length :=
        (List.Nodup.subperm (List.nodup_append.mp removing.distinct).1
          fun vertex member => removing.known vertex (by simp [member])).length_le
      omega
  | succ fuel ih =>
      cases ready with
      | nil => exact ⟨removed, rfl, removing⟩
      | cons vertex ready =>
          obtain ⟨ready', relaxed, next⟩ := removing.step listed targetsKnown
          obtain ⟨final, drained, finished⟩ := ih next (by rw [List.length_cons]; omega)
          refine ⟨final, ?_, finished⟩
          rw [List.length_cons] at drained
          simp only [Kahn.drain, relaxed]
          exact drained

end Removal

section Correctness

/-- **The check terminates.** On edges between known vertices it never meets a
missing entry, never subtracts below zero, and ends with all ready vertices
removed. -/
theorem check_eq_some {vertices order origins : List α} {targets : α → List α}
    (permuted : order.Perm vertices) (distinct : vertices.Nodup) (listedOnce : origins.Nodup)
    (listed : ∀ origin, origin ∉ origins → targets origin = [])
    (targetsKnown : ∀ origin ∈ vertices, ∀ target ∈ targets origin, target ∈ vertices) :
    ∃ final, check vertices order origins targets = some final.length ∧
      Removing vertices origins.toFinset targets final [] := by
  have counted : ∀ vertex, (origins.flatMap targets).count vertex =
      remaining origins.toFinset targets [] vertex := by
    intro vertex
    rw [List.count_flatMap, remaining, Finset.filter_true_of_mem (by simp),
      List.sum_toFinset _ listedOnce]
    rfl
  have initial : countInto vertices (origins.flatMap targets) =
      onVertices vertices (remaining origins.toFinset targets []) := by
    rw [countInto_eq]
    simp only [counted]
  have ready : ∀ vertex, vertex ∈ order.filter (fun vertex =>
      countInto vertices (origins.flatMap targets) vertex = some 0) ↔
        vertex ∈ vertices ∧ remaining origins.toFinset targets [] vertex = 0 := by
    intro vertex
    rw [List.mem_filter, permuted.mem_iff, initial]
    by_cases member : vertex ∈ vertices <;> simp [onVertices, member]
  have start : Removing vertices origins.toFinset targets []
      (order.filter fun vertex =>
        countInto vertices (origins.flatMap targets) vertex = some 0) := by
    refine ⟨?_, ?_, ?_, .nil, by simp⟩
    · exact (permuted.nodup_iff.mpr distinct).filter _
    · intro vertex member
      exact ((ready vertex).mp member).1
    · intro vertex member
      rw [List.nil_append, ready]
      exact ⟨fun zero => ⟨member, zero⟩, And.right⟩
  obtain ⟨final, drained, finished⟩ := start.drain
    (fun origin absent => listed origin (by simpa using absent)) targetsKnown
    (show vertices.length < [].length + (vertices.length + 1) by simp)
  refine ⟨final, ?_, finished⟩
  rw [← drained, ← initial]
  rfl

/-- A complete removal covers every vertex. -/
theorem Removing.mem_of_complete {vertices : List α} {origins : Finset α} {targets : α → List α}
    {final : List α} (finished : Removing vertices origins targets final [])
    (complete : vertices.length ≤ final.length) {vertex : α} (member : vertex ∈ vertices) :
    vertex ∈ final := by
  have distinct : final.Nodup := by simpa using finished.distinct
  have covered : final ⊆ vertices := fun other inside =>
    finished.known other (by simpa using inside)
  exact ((distinct.subperm covered).perm_of_length_le complete).mem_iff.mpr member

/-- **Soundness.** When every vertex is removed, every edge descends in a bounded
rank and starts at a vertex. -/
theorem exists_rank_of_check {vertices order origins : List α} {targets : α → List α}
    (permuted : order.Perm vertices) (distinct : vertices.Nodup) (listedOnce : origins.Nodup)
    (listed : ∀ origin, origin ∉ origins → targets origin = [])
    (targetsKnown : ∀ origin, ∀ target ∈ targets origin, target ∈ vertices)
    (complete : check vertices order origins targets = some vertices.length) :
    (∀ origin, ∀ target ∈ targets origin, origin ∈ vertices) ∧
      ∃ rank : α → Nat, (∀ vertex ∈ vertices, rank vertex < vertices.length) ∧
        ∀ origin, ∀ target ∈ targets origin, rank target < rank origin := by
  obtain ⟨final, checked, finished⟩ := check_eq_some permuted distinct listedOnce listed
    fun origin _ => targetsKnown origin
  have length : final.length = vertices.length := Option.some.inj (checked.symm.trans complete)
  have removedAll : ∀ vertex ∈ vertices, vertex ∈ final := fun _ member =>
    finished.mem_of_complete length.ge member
  have started : ∀ origin, ∀ target ∈ targets origin, origin ∈ final := by
    intro origin target edge
    by_contra absent
    have targetKnown := targetsKnown origin target edge
    have none_left := (finished.idle target targetKnown).mpr
      (by simpa using removedAll target targetKnown)
    have isOrigin : origin ∈ origins := by
      by_contra unlisted
      rw [listed origin unlisted] at edge
      cases edge
    have counted := (Finset.sum_eq_zero_iff.mp none_left) origin
      (Finset.mem_filter.mpr ⟨by simpa using isOrigin, absent⟩)
    exact List.count_eq_zero.mp counted edge
  refine ⟨fun origin target edge => ?_, (final.idxOf ·), fun vertex member => ?_,
    fun origin target edge => ?_⟩
  · exact finished.known origin (by simpa using started origin target edge)
  · rw [← length]
    exact List.idxOf_lt_length_iff.mpr (removedAll vertex member)
  · have originIn := started origin target edge
    have targetIn := removedAll target (targetsKnown origin target edge)
    have distinctRanks : final.idxOf target ≠ final.idxOf origin := by
      intro same
      rw [List.idxOf_inj targetIn] at same
      rw [same] at edge
      exact finished.irreflexive origin originIn edge
    change final.idxOf target < final.idxOf origin
    by_contra notBelow
    have below : final.idxOf origin < final.idxOf target := by omega
    have bound := List.idxOf_lt_length_iff.mpr targetIn
    have separated := List.pairwise_iff_getElem.mp finished.ordered _ _
      (List.idxOf_lt_length_iff.mpr originIn) bound below
    rw [List.getElem_idxOf, List.getElem_idxOf] at separated
    exact separated edge

/-- **Completeness.** When the edges start at vertices and form no cycle, every
vertex is removed. -/
theorem check_of_acyclic {vertices order origins : List α} {targets : α → List α}
    (permuted : order.Perm vertices) (distinct : vertices.Nodup) (listedOnce : origins.Nodup)
    (listed : ∀ origin, origin ∉ origins → targets origin = [])
    (targetsKnown : ∀ origin, ∀ target ∈ targets origin, target ∈ vertices)
    (originsKnown : ∀ origin, ∀ target ∈ targets origin, origin ∈ vertices)
    (acyclic : ∀ vertex, ¬ Relation.TransGen (fun origin target => target ∈ targets origin)
      vertex vertex) :
    check vertices order origins targets = some vertices.length := by
  obtain ⟨final, checked, finished⟩ := check_eq_some permuted distinct listedOnce listed
    fun origin _ => targetsKnown origin
  rw [checked]
  have allRemoved : ∀ vertex ∈ vertices, vertex ∈ final := by
    have : IsStrictOrder α
        (Relation.TransGen fun origin target => target ∈ targets origin) :=
      { irrefl := acyclic, trans := fun _ _ _ => Relation.TransGen.trans }
    have founded := (vertices.toFinset.finite_toSet).wellFoundedOn
      (r := Relation.TransGen fun origin target => target ∈ targets origin)
    intro vertex member
    refine founded.induction (by simpa using member) fun vertex inside earlier => ?_
    have vertexKnown : vertex ∈ vertices := by simpa using inside
    -- every edge into the vertex starts at a removed vertex, so none is left
    have idle : remaining origins.toFinset targets final vertex = 0 := by
      refine Finset.sum_eq_zero fun origin left => List.count_eq_zero.mpr fun edge => ?_
      exact (Finset.mem_filter.mp left).2
        (earlier origin (by simpa using originsKnown origin vertex edge) (.single edge))
    simpa using (finished.idle vertex vertexKnown).mp idle
  have covered := List.Nodup.subperm distinct fun vertex member => allRemoved vertex member
  have bounded : final.Subperm vertices :=
    List.Nodup.subperm (by simpa using finished.distinct) fun vertex member =>
      finished.known vertex (by simpa using member)
  rw [Nat.le_antisymm bounded.length_le covered.length_le]

/-- A relation on which something leads back to itself. -/
def Cyclic {β : Type} (leads : β → β → Prop) : Prop :=
  ∃ vertex, Relation.TransGen leads vertex vertex

/-- **Kahn's check is exact**: it counts to the number of vertices when there is no cycle, and
to less when there is one. -/
theorem check_exact {vertices order origins : List α} {targets : α → List α}
    (permuted : order.Perm vertices) (distinct : vertices.Nodup) (listedOnce : origins.Nodup)
    (listed : ∀ origin, origin ∉ origins → targets origin = [])
    (targetsKnown : ∀ origin, ∀ target ∈ targets origin, target ∈ vertices)
    (originsKnown : ∀ origin, ∀ target ∈ targets origin, origin ∈ vertices) :
    ∃ visited, check vertices order origins targets = some visited ∧
      (visited = vertices.length ↔ ¬Cyclic fun origin target => target ∈ targets origin) := by
  obtain ⟨final, checked, -⟩ := check_eq_some permuted distinct listedOnce listed
    fun origin _ => targetsKnown origin
  refine ⟨final.length, checked, fun complete => ?_, fun acyclic => ?_⟩
  · rw [complete] at checked
    obtain ⟨-, rank, -, descends⟩ :=
      exists_rank_of_check permuted distinct listedOnce listed targetsKnown checked
    have lower : ∀ {origin target : α},
        Relation.TransGen (fun origin target => target ∈ targets origin) origin target →
          rank target < rank origin := by
      intro origin target path
      induction path with
      | single edge => exact descends _ _ edge
      | tail _ edge ih => exact Nat.lt_trans (descends _ _ edge) ih
    rintro ⟨vertex, cycle⟩
    exact Nat.lt_irrefl _ (lower cycle)
  · have complete := check_of_acyclic permuted distinct listedOnce listed targetsKnown
      originsKnown fun vertex cycle => acyclic ⟨vertex, cycle⟩
    exact Option.some.inj (checked.symm.trans complete)

end Correctness

end Kahn
