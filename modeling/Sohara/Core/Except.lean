import Mathlib.Data.List.Basic

/-! # Successful runs of fallible computations -/

namespace Except

variable {ε α β : Type}

theorem bind_eq_ok {first : Except ε α} {next : α → Except ε β} {result : β} :
    first >>= next = .ok result ↔ ∃ value, first = .ok value ∧ next value = .ok result := by
  cases first with
  | error failure => exact ⟨(fun same => nomatch same), fun ⟨_, same, _⟩ => nomatch same⟩
  | ok value =>
      refine ⟨fun same => ⟨value, rfl, same⟩, fun ⟨_, same, rest⟩ => ?_⟩
      cases same
      exact rest

theorem map_eq_ok {first : Except ε α} {transform : α → β} {result : β} :
    (do let value ← first; return transform value) = .ok result ↔
      ∃ value, first = .ok value ∧ transform value = result := by
  rw [bind_eq_ok]
  refine exists_congr fun value => and_congr_right fun _ => ?_
  exact (Except.ok.injEq _ _).to_iff

theorem forM_eq_ok {check : α → Except ε Unit} {items : List α} :
    items.forM check = .ok () ↔ ∀ item ∈ items, check item = .ok () := by
  induction items with
  | nil => exact ⟨(fun _ _ member => nomatch member), fun _ => rfl⟩
  | cons item rest ih =>
      change (check item >>= fun _ => rest.forM check) = .ok () ↔ _
      rw [bind_eq_ok]
      constructor
      · rintro ⟨_, first, others⟩ other member
        rcases List.mem_cons.mp member with rfl | inside
        · exact first
        · exact ih.mp others other inside
      · intro each
        exact ⟨(), each item List.mem_cons_self,
          ih.mpr fun other member => each other (List.mem_cons_of_mem _ member)⟩

/-- A fold of successful steps succeeds. -/
theorem exists_foldlM {step : β → α → Except ε β} {items : List α}
    (steps : ∀ state, ∀ item ∈ items, ∃ after, step state item = .ok after) (start : β) :
    ∃ result, items.foldlM step start = .ok result := by
  induction items generalizing start with
  | nil => exact ⟨start, rfl⟩
  | cons item rest ih =>
      obtain ⟨after, stepped⟩ := steps start item List.mem_cons_self
      rw [List.foldlM_cons, stepped]
      exact ih (fun state other member => steps state other (List.mem_cons_of_mem _ member)) after

/-- Every item of a successful fold is a successful step. -/
theorem exists_step_of_foldlM {step : β → α → Except ε β} {items : List α} {start result : β}
    (folded : items.foldlM step start = .ok result) {item : α} (member : item ∈ items) :
    ∃ state after, step state item = .ok after := by
  induction items generalizing start with
  | nil => cases member
  | cons first rest ih =>
      rw [List.foldlM_cons] at folded
      obtain ⟨after, stepped, others⟩ := bind_eq_ok.mp folded
      rcases List.mem_cons.mp member with rfl | inside
      · exact ⟨start, after, stepped⟩
      · exact ih others inside

/-- What each successful step of a fold establishes about its item holds of all of
them afterwards, when later steps keep it. -/
theorem foldlM_induct {step : β → α → Except ε β} {items : List α}
    {motive : List α → β → Prop} {start result : β} (folded : items.foldlM step start = .ok result)
    (init : motive [] start)
    (next : ∀ done state item after, item ∈ items → motive done state →
      step state item = .ok after → motive (done ++ [item]) after) :
    motive items result := by
  have general : ∀ (rest done : List α) (state : β), (∀ item ∈ rest, item ∈ items) →
      motive done state → rest.foldlM step state = .ok result → motive (done ++ rest) result := by
    intro rest
    induction rest with
    | nil =>
        intro done state _ holds ended
        cases ended
        rw [List.append_nil]
        exact holds
    | cons item rest ih =>
        intro done state inside holds ran
        rw [List.foldlM_cons] at ran
        obtain ⟨after, stepped, others⟩ := bind_eq_ok.mp ran
        have result := ih (done ++ [item]) after
          (fun other member => inside other (List.mem_cons_of_mem _ member))
          (next done state item after (inside item List.mem_cons_self) holds stepped) others
        rwa [List.append_assoc, List.singleton_append] at result
  exact general items [] start (fun _ member => member) init folded

end Except
