import Mathlib.Data.List.Induction
import Mathlib.Data.Set.Lattice
import Mathlib.Order.CompletePartialOrder

/-! # Overlaying partial maps

Partial maps are laid over each other one after the other, the later ones on top. When
they are copies of one base, each updated at places of its own, a copy on top hides the
updates below it wherever the base is defined.
-/

namespace Overlay

variable {ι K V : Type}

/-- One partial map over another. -/
def overlay (lower upper : K → Option V) : K → Option V := fun key => (upper key).or (lower key)

/-- Partial maps in the order they are laid, the first one at the bottom. -/
def overlayAll (layers : List (K → Option V)) : K → Option V := layers.foldl overlay fun _ => none

@[simp] theorem overlayAll_nil (key : K) : overlayAll ([] : List (K → Option V)) key = none := rfl

theorem overlayAll_snoc (layers : List (K → Option V)) (top : K → Option V) (key : K) :
    overlayAll (layers ++ [top]) key = (top key).or (overlayAll layers key) := by
  unfold overlayAll
  rw [List.foldl_append, List.foldl_cons, List.foldl_nil]
  rfl

section Ordered

variable {branch : ι → K → Option V} {order : List ι} {key : K}

/-- Where all layers agree. -/
theorem overlayAll_eq_of_agree {value : Option V} (nonempty : order ≠ [])
    (agree : ∀ i ∈ order, branch i key = value) : overlayAll (order.map branch) key = value := by
  induction order using List.reverseRecOn with
  | nil => exact absurd rfl nonempty
  | append_singleton earlier last ih =>
      rw [List.map_append, List.map_singleton, overlayAll_snoc,
        agree last (List.mem_append_right _ List.mem_cons_self)]
      by_cases none_ : earlier = []
      · subst none_
        cases value <;> rfl
      · rw [ih none_ fun i member => agree i (List.mem_append_left _ member)]
        cases value <;> rfl

/-- Where a single layer is defined. -/
theorem overlayAll_eq_of_alone {i : ι} (member : i ∈ order)
    (alone : ∀ j ∈ order, j ≠ i → branch j key = none) :
    overlayAll (order.map branch) key = branch i key := by
  induction order using List.reverseRecOn with
  | nil => cases member
  | append_singleton earlier last ih =>
      rw [List.map_append, List.map_singleton, overlayAll_snoc]
      have others : ∀ j ∈ earlier, j ≠ i → branch j key = none := fun j inside =>
        alone j (List.mem_append_left _ inside)
      by_cases same : last = i
      · subst same
        cases value : branch last key with
        | some _ => rfl
        | none =>
            by_cases below : last ∈ earlier
            · rw [ih below others, value]
              rfl
            · by_cases none_ : earlier = []
              · subst none_
                rfl
              · rw [overlayAll_eq_of_agree none_ fun j inside =>
                  others j inside fun equal => below (equal ▸ inside)]
                rfl
      · have below : i ∈ earlier := by
          rcases List.mem_append.mp member with inside | final
          · exact inside
          · exact absurd (List.mem_singleton.mp final).symm same
        rw [alone last (List.mem_append_right _ List.mem_cons_self) same, ih below others]
        rfl

/-- A defined top layer shows. -/
theorem overlayAll_eq_of_last {i : ι} (last : order.getLast? = some i)
    (defined : branch i key ≠ none) : overlayAll (order.map branch) key = branch i key := by
  obtain ⟨earlier, rfl⟩ := List.getLast?_eq_some_iff.mp last
  rw [List.map_append, List.map_singleton, overlayAll_snoc]
  obtain ⟨value, same⟩ := Option.ne_none_iff_exists'.mp defined
  rw [same]
  rfl

end Ordered

/-- Copies of a base, each changed at places of its own only. -/
structure Updates (base : K → Option V) (branch : ι → K → Option V) (fields : ι → Set K)
    (order : List ι) : Prop where
  nodup : order.Nodup
  only : ∀ i ∈ order, ∀ key, key ∉ fields i → branch i key = base key
  apart : ∀ i ∈ order, ∀ j ∈ order, i ≠ j → Disjoint (fields i) (fields j)

/-- The base with the updates of every copy. -/
def Applied (base : K → Option V) (branch : ι → K → Option V) (fields : ι → Set K)
    (order : List ι) (result : K → Option V) : Prop :=
  (∀ i ∈ order, ∀ key ∈ fields i, result key = branch i key) ∧
    ∀ key, (∀ i ∈ order, key ∉ fields i) → result key = base key

/-- What the base defines and a copy changes is changed by the copy on top, which does not
drop it unless it is the only one. -/
def OnTop (base : K → Option V) (branch : ι → K → Option V) (order : List ι) : Prop :=
  ∀ i ∈ order, ∀ key, base key ≠ none → branch i key ≠ base key →
    order.getLast? = some i ∧ (branch i key ≠ none ∨ order = [i])

section Updated

variable {base : K → Option V} {branch : ι → K → Option V} {fields : ι → Set K} {order : List ι}

/-- A place of one copy is no place of another. -/
theorem Updates.unchanged (updates : Updates base branch fields order) {i j : ι} {key : K}
    (first : i ∈ order) (second : j ∈ order) (other : j ≠ i) (inside : key ∈ fields i) :
    branch j key = base key :=
  updates.only j second key fun also =>
    Set.disjoint_left.mp (updates.apart j second i first other) also inside

/-- **When overlaid copies show all updates.** -/
theorem applied_iff (updates : Updates base branch fields order) (nonempty : order ≠ []) :
    Applied base branch fields order (overlayAll (order.map branch)) ↔ OnTop base branch order := by
  constructor
  · rintro ⟨shown, -⟩ i member key defined changed
    have inside : key ∈ fields i := by
      by_contra outside
      exact changed (updates.only i member key outside)
    have result := shown i member key inside
    obtain ⟨earlier, last, rfl⟩ : ∃ earlier last, order = earlier ++ [last] :=
      ⟨_, _, (List.dropLast_concat_getLast nonempty).symm⟩
    rw [List.map_append, List.map_singleton, overlayAll_snoc] at result
    have final : last ∈ earlier ++ [last] := List.mem_append_right _ List.mem_cons_self
    obtain ⟨value, present⟩ := Option.ne_none_iff_exists'.mp defined
    have same : last = i := by
      by_contra other
      rw [updates.unchanged member final other inside, present] at result
      exact changed (result.symm.trans present.symm)
    subst same
    refine ⟨List.getLast?_concat, ?_⟩
    by_cases dropped : branch last key = none
    · right
      by_cases none_ : earlier = []
      · rw [none_, List.nil_append]
      · have below : overlayAll (earlier.map branch) key = base key := by
          refine overlayAll_eq_of_agree none_ fun j below => ?_
          refine updates.unchanged final (List.mem_append_left _ below) ?_ inside
          rintro rfl
          exact (List.nodup_append.mp updates.nodup).2.2 j below j List.mem_cons_self rfl
        rw [dropped, below, present] at result
        cases result
    · exact .inl dropped
  · intro onTop
    constructor
    · intro i member key inside
      by_cases defined : base key = none
      · refine overlayAll_eq_of_alone member fun j second other => ?_
        rw [updates.unchanged member second other inside, defined]
      · by_cases changed : branch i key = base key
        · rw [changed]
          refine overlayAll_eq_of_agree nonempty fun j second => ?_
          by_cases other : j = i
          · rw [other, changed]
          · exact updates.unchanged member second other inside
        · obtain ⟨last, kept | single⟩ := onTop i member key defined changed
          · exact overlayAll_eq_of_last last kept
          · subst single
            exact overlayAll_eq_of_alone member fun j second other =>
              absurd (List.mem_singleton.mp second) other
    · intro key outside
      exact overlayAll_eq_of_agree nonempty fun i member =>
        updates.only i member key (outside i member)

end Updated

end Overlay
