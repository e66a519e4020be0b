import Mathlib.Algebra.BigOperators.Group.Multiset.Basic
import Mathlib.Algebra.Order.Group.Multiset

/-! # Path sums over networks

A network passes values along hops: a node accepts or drops a value, turns an
accepted value into any number of values, and every hop lets a value through or
not. The meaning of a value at a node is the sum, over all paths from the node to
a final one, of what composing the steps along the path leaves at the end.

`pathSum_succ` unfolds the sum by one node; along a decreasing rank the bound on
the length of paths does not matter.
-/

namespace Network

/-- A hop to another node, open to some values. -/
structure Hop (ν γ : Type) where
  target : ν
  passes : γ → Bool

end Network

/-- Nodes that accept, transform and forward values. -/
structure Network (ν γ : Type) where
  accepts : ν → γ → Bool
  act : ν → γ → List γ
  hops : ν → List (Network.Hop ν γ)
  final : ν → Bool

namespace Network

variable {ν γ : Type} (net : Network ν γ)

/-- The paths of at most the given number of nodes from a node to a final one, as
lists of hops, with multiplicity. -/
def paths : Nat → ν → List (List (Hop ν γ))
  | 0, _ => []
  | bound + 1, node =>
      if net.final node then [[]]
      else (net.hops node).flatMap fun hop => (paths bound hop.target).map (hop :: ·)

/-- What a value leaves at the end of a path: every node on the way must accept it
and every hop let it through. -/
def along : List (Hop ν γ) → ν → γ → Multiset (ν × γ)
  | [], node, value => if net.accepts node value then {(node, value)} else 0
  | hop :: rest, node, value =>
      if net.accepts node value then
        ((net.act node value).map fun next =>
          if hop.passes next then along rest hop.target next else 0).sum
      else 0

/-- The sum over all paths. -/
def pathSum (bound : Nat) (node : ν) (value : γ) : Multiset (ν × γ) :=
  ((net.paths bound node).map fun path => net.along path node value).sum

/-- A path from a node to a final one. -/
inductive IsPath : ν → List (Hop ν γ) → Prop where
  | final {node : ν} (isFinal : net.final node = true) : IsPath node []
  | hop {node : ν} {hop : Hop ν γ} {rest : List (Hop ν γ)} (inner : net.final node = false)
      (member : hop ∈ net.hops node) (path : IsPath hop.target rest) : IsPath node (hop :: rest)

variable {net}

theorem sum_comm {α β M : Type} [AddCommMonoid M] (first : List α) (second : List β)
    (term : α → β → M) :
    (first.map fun a => (second.map fun b => term a b).sum).sum =
      (second.map fun b => (first.map fun a => term a b).sum).sum := by
  induction first with
  | nil => simp
  | cons a rest ih =>
      rw [List.map_cons, List.sum_cons, ih, ← List.sum_map_add]
      simp only [List.map_cons, List.sum_cons]

/-- **One node of the sum.** -/
theorem pathSum_succ (bound : Nat) (node : ν) (value : γ) :
    net.pathSum (bound + 1) node value =
      if net.accepts node value then
        if net.final node then {(node, value)}
        else ((net.act node value).map fun next =>
          ((net.hops node).map fun hop =>
            if hop.passes next then net.pathSum bound hop.target next else 0).sum).sum
      else 0 := by
  unfold pathSum
  by_cases isFinal : net.final node = true
  · simp [paths, isFinal, along]
  · rw [paths, if_neg isFinal, if_neg isFinal, List.map_flatMap]
    simp only [List.map_map, Function.comp_def, along]
    by_cases accepted : net.accepts node value = true
    · simp only [accepted, if_true]
      rw [← sum_comm]
      simp only [List.flatMap_def, List.sum_flatten, List.map_map, Function.comp_def]
      refine congrArg List.sum (List.map_congr_left fun hop _ => ?_)
      rw [sum_comm]
      refine congrArg List.sum (List.map_congr_left fun next _ => ?_)
      by_cases passed : hop.passes next = true
      · simp [passed]
      · simp [passed]
    · simp only [accepted, if_false, Bool.false_eq_true]
      exact List.sum_eq_zero fun term member => by
        obtain ⟨hop, -, inside⟩ := List.mem_flatMap.mp member
        obtain ⟨path, -, rfl⟩ := List.mem_map.mp inside
        rfl

section Ranked

variable {rank : ν → Nat} (descends : ∀ node, ∀ hop ∈ net.hops node, rank hop.target < rank node)
include descends

/-- Any bound above the rank of a node gives all its paths. -/
theorem pathSum_eq {bound other : Nat} {node : ν} (enough : rank node < bound)
    (enough' : rank node < other) (value : γ) :
    net.pathSum bound node value = net.pathSum other node value := by
  induction bound generalizing other node value with
  | zero => omega
  | succ bound ih =>
      obtain ⟨other, rfl⟩ : ∃ n, other = n + 1 := ⟨other - 1, by omega⟩
      rw [pathSum_succ, pathSum_succ]
      have inner : ∀ hop ∈ net.hops node, ∀ next,
          net.pathSum bound hop.target next = net.pathSum other hop.target next := by
        intro hop member next
        have below := descends node hop member
        exact ih (by omega) (by omega) next
      split
      · split
        · rfl
        · refine congrArg List.sum (List.map_congr_left fun next _ => ?_)
          refine congrArg List.sum (List.map_congr_left fun hop member => ?_)
          rw [inner hop member next]
      · rfl

/-- One node of the sum, with the same bound for the rest. -/
theorem pathSum_unfold {bound : Nat} {node : ν} (enough : rank node < bound) (value : γ) :
    net.pathSum bound node value =
      if net.accepts node value then
        if net.final node then {(node, value)}
        else ((net.act node value).map fun next =>
          ((net.hops node).map fun hop =>
            if hop.passes next then net.pathSum bound hop.target next else 0).sum).sum
      else 0 := by
  rw [pathSum_eq descends enough (Nat.lt_succ_of_lt enough), pathSum_succ]

/-- Above the rank, the listed paths are all paths. -/
theorem mem_paths {bound : Nat} {node : ν} (enough : rank node < bound)
    (path : List (Hop ν γ)) : path ∈ net.paths bound node ↔ net.IsPath node path := by
  induction bound generalizing node path with
  | zero => omega
  | succ bound ih =>
      rw [paths]
      constructor
      · intro listed
        split at listed
        · next isFinal =>
            rw [List.mem_singleton.mp listed]
            exact .final isFinal
        · next inner =>
            obtain ⟨hop, member, inside⟩ := List.mem_flatMap.mp listed
            obtain ⟨rest, isPath, rfl⟩ := List.mem_map.mp inside
            have below := descends node hop member
            exact .hop (by simpa using inner) member ((ih (by omega) rest).mp isPath)
      · intro isPath
        cases isPath with
        | final isFinal => simp [isFinal]
        | hop inner member path =>
            rw [if_neg (by simp [inner])]
            have below := descends node _ member
            exact List.mem_flatMap.mpr ⟨_, member,
              List.mem_map.mpr ⟨_, (ih (by omega) _).mpr path, rfl⟩⟩

end Ranked

end Network
