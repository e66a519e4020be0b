import Sohara.Core.Except

/-! # Tables that only grow

A load goes through its entries and enters keys of each into a table, after checking that
the table does not have them. Then nothing entered is ever replaced, and no two entries
share a key.
-/

namespace Transition

variable {ε σ E K V : Type}

/-- Each step enters the keys of its entry, all new, and leaves the others as they are. -/
structure Enters (step : σ → E → Except ε σ) (lookup : σ → K → Option V) (keys : E → List K)
    (value : E → K → V) : Prop where
  fresh : ∀ {state entry after}, step state entry = .ok after →
    ∀ key ∈ keys entry, lookup state key = none
  enter : ∀ {state entry after}, step state entry = .ok after →
    ∀ key ∈ keys entry, lookup after key = some (value entry key)
  keep : ∀ {state entry after}, step state entry = .ok after →
    ∀ key ∉ keys entry, lookup after key = lookup state key

namespace Enters

variable {step : σ → E → Except ε σ} {lookup : σ → K → Option V} {keys : E → List K}
  {value : E → K → V} {entries : List E} {start result : σ} {key : K}

/-- A step keeps what the table holds. -/
theorem kept_step (enters : Enters step lookup keys value) {state after : σ} {entry : E} {found : V}
    (stepped : step state entry = .ok after) (present : lookup state key = some found) :
    lookup after key = some found := by
  rw [enters.keep stepped key fun member => ?_]
  · exact present
  · rw [enters.fresh stepped key member] at present
    cases present

/-- **Nothing is replaced.** -/
theorem kept (enters : Enters step lookup keys value) {found : V}
    (loaded : entries.foldlM step start = .ok result) (present : lookup start key = some found) :
    lookup result key = some found := by
  induction entries generalizing start with
  | nil =>
      cases loaded
      exact present
  | cons entry rest ih =>
      rw [List.foldlM_cons] at loaded
      obtain ⟨after, stepped, others⟩ := Except.bind_eq_ok.mp loaded
      exact ih others (enters.kept_step stepped present)

/-- What the table holds in the end was there before, or comes from an entry. -/
theorem origin (enters : Enters step lookup keys value) {found : V}
    (loaded : entries.foldlM step start = .ok result) (present : lookup result key = some found) :
    lookup start key = some found ∨
      ∃ entry ∈ entries, key ∈ keys entry ∧ found = value entry key := by
  induction entries generalizing start with
  | nil =>
      cases loaded
      exact .inl present
  | cons entry rest ih =>
      rw [List.foldlM_cons] at loaded
      obtain ⟨after, stepped, others⟩ := Except.bind_eq_ok.mp loaded
      rcases ih others with before | ⟨other, member, isKey, same⟩
      · by_cases isKey : key ∈ keys entry
        · rw [enters.enter stepped key isKey] at before
          cases before
          exact .inr ⟨entry, List.mem_cons_self, isKey, rfl⟩
        · rw [enters.keep stepped key isKey] at before
          exact .inl before
      · exact .inr ⟨other, List.mem_cons_of_mem _ member, isKey, same⟩

/-- The keys of an entry are new, and stand in the table in the end. -/
theorem entered (enters : Enters step lookup keys value) {entry : E}
    (loaded : entries.foldlM step start = .ok result) (member : entry ∈ entries)
    (isKey : key ∈ keys entry) :
    lookup start key = none ∧ lookup result key = some (value entry key) := by
  induction entries generalizing start with
  | nil => cases member
  | cons first rest ih =>
      rw [List.foldlM_cons] at loaded
      obtain ⟨after, stepped, others⟩ := Except.bind_eq_ok.mp loaded
      rcases List.mem_cons.mp member with rfl | inside
      · exact ⟨enters.fresh stepped key isKey, enters.kept others (enters.enter stepped key isKey)⟩
      · obtain ⟨absent, present⟩ := ih others inside
        refine ⟨?_, present⟩
        cases before : lookup start key with
        | none => rfl
        | some found =>
            rw [enters.kept_step stepped before] at absent
            cases absent

/-- A key that a step has entered is entered by no later entry. -/
theorem not_entered_again (enters : Enters step lookup keys value) {entry later : E} {after : σ}
    (stepped : step start entry = .ok after) (others : entries.foldlM step after = .ok result)
    (member : later ∈ entries) (isKey : key ∈ keys entry) : key ∉ keys later := by
  intro again
  have absent := (enters.entered others member again).1
  rw [enters.enter stepped key isKey] at absent
  cases absent

/-- **No two entries share a key.** -/
theorem eq_of_shared (enters : Enters step lookup keys value) {one other : E}
    (loaded : entries.foldlM step start = .ok result) (left : one ∈ entries)
    (right : other ∈ entries) (inOne : key ∈ keys one) (inOther : key ∈ keys other) :
    one = other := by
  induction entries generalizing start with
  | nil => cases left
  | cons entry rest ih =>
      rw [List.foldlM_cons] at loaded
      obtain ⟨after, stepped, others⟩ := Except.bind_eq_ok.mp loaded
      rcases List.mem_cons.mp left with rfl | inside
      · rcases List.mem_cons.mp right with rfl | within
        · rfl
        · exact absurd inOther (enters.not_entered_again stepped others within inOne)
      · rcases List.mem_cons.mp right with rfl | within
        · exact absurd inOne (enters.not_entered_again stepped others inside inOther)
        · exact ih others inside within

end Enters

end Transition
