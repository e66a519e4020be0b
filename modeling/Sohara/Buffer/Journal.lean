import Mathlib.Data.List.Basic
import Mathlib.Data.List.Induction
import Mathlib.Data.List.Pairwise
import Mathlib.Data.List.Sort

/-! # Numbered logs with bounded retention

Items appended to a log are numbered from one, and only the newest are retained. A reader
keeps a position: a visit hands it the retained items above that position, a limited
number of them, and moves the position to the last one handed out.

`Follows` describes what a reader has seen, `Covers` what it cannot have missed.
-/

namespace Journal

variable {α : Type}

/-- The items of a log with their numbers. -/
def numbered (log : List α) : List (Nat × α) := (log.zipIdx 1).map Prod.swap

/-- The newest items of a log. -/
def window (retain : Nat) (log : List α) : List (Nat × α) :=
  (numbered log).drop (log.length - retain)

section Windows

variable {retain number cursor : Nat} {log : List α} {item : α}

@[simp] theorem numbered_nil : numbered ([] : List α) = [] := rfl

@[simp] theorem window_nil : window retain ([] : List α) = [] := List.drop_nil

@[simp] theorem length_numbered : (numbered log).length = log.length := by
  simp [numbered]

theorem numbers_numbered : (numbered log).map Prod.fst = List.range' 1 log.length := by
  unfold numbered
  rw [List.map_map]
  exact List.zipIdx_map_snd 1 log

theorem items_numbered : (numbered log).map Prod.snd = log := by
  unfold numbered
  rw [List.map_map]
  exact List.zipIdx_map_fst 1 log

theorem mem_numbered :
    (number, item) ∈ numbered log ↔ 1 ≤ number ∧ log[number - 1]? = some item := by
  unfold numbered
  rw [List.mem_map]
  constructor
  · rintro ⟨⟨other, index⟩, member, same⟩
    cases same
    exact List.mk_mem_zipIdx_iff_le_and_getElem?_sub.mp member
  · intro found
    exact ⟨(item, number), List.mk_mem_zipIdx_iff_le_and_getElem?_sub.mpr found, rfl⟩

theorem numbered_append_singleton :
    numbered (log ++ [item]) = numbered log ++ [(log.length + 1, item)] := by
  unfold numbered
  rw [List.zipIdx_append, List.map_append, Nat.add_comm]
  rfl

/-- A later log numbers the items it shares alike. -/
theorem numbered_subset (member : (number, item) ∈ numbered log) (more : List α) :
    (number, item) ∈ numbered (log ++ more) := by
  obtain ⟨positive, found⟩ := mem_numbered.mp member
  obtain ⟨inside, -⟩ := List.getElem?_eq_some_iff.mp found
  exact mem_numbered.mpr ⟨positive, (List.getElem?_append_left inside).trans found⟩

theorem le_length_of_mem_numbered (member : (number, item) ∈ numbered log) :
    1 ≤ number ∧ number ≤ log.length := by
  obtain ⟨positive, found⟩ := mem_numbered.mp member
  obtain ⟨inside, -⟩ := List.getElem?_eq_some_iff.mp found
  exact ⟨positive, by omega⟩

theorem pairwise_numbered : (numbered log).Pairwise fun first second => first.1 < second.1 := by
  have increasing : ((numbered log).map Prod.fst).Pairwise (· < ·) := by
    rw [numbers_numbered]
    exact List.pairwise_lt_range'
  exact List.pairwise_map.mp increasing

/-- The items from some place on are those with larger numbers. -/
theorem filter_numbered :
    (numbered log).filter (fun entry => cursor < entry.1) = (numbered log).drop cursor := by
  induction log using List.reverseRecOn with
  | nil => simp
  | append_singleton log item ih =>
      rw [numbered_append_singleton, List.filter_append, ih]
      by_cases beyond : cursor < log.length + 1
      · rw [List.filter_cons_of_pos (by simpa using beyond), List.filter_nil,
          List.drop_append_of_le_length (by rw [length_numbered]; omega)]
      · rw [List.filter_cons_of_neg (by simpa using beyond), List.filter_nil,
          List.drop_eq_nil_of_le (by rw [length_numbered]; omega),
          List.drop_eq_nil_of_le (by simp; omega)]
        rfl

theorem window_eq_filter :
    window retain log = (numbered log).filter fun entry => log.length - retain < entry.1 :=
  filter_numbered.symm

theorem mem_window : (number, item) ∈ window retain log ↔
    log.length < number + retain ∧ (number, item) ∈ numbered log := by
  rw [window_eq_filter, List.mem_filter, decide_eq_true_iff, and_comm]
  constructor
  · rintro ⟨newer, member⟩
    exact ⟨by omega, member⟩
  · rintro ⟨newer, member⟩
    have := le_length_of_mem_numbered member
    exact ⟨by dsimp only; omega, member⟩

theorem pairwise_window :
    (window retain log).Pairwise fun first second => first.1 < second.1 :=
  pairwise_numbered.sublist (List.drop_sublist _ _)

/-- Appending an item drops the oldest one when the window is full. -/
theorem window_append_singleton (positive : 0 < retain) :
    window retain (log ++ [item]) =
      if retain < (window retain log ++ [(log.length + 1, item)]).length then
        (window retain log ++ [(log.length + 1, item)]).tail
      else window retain log ++ [(log.length + 1, item)] := by
  have extended : window retain log ++ [(log.length + 1, item)] =
      (numbered (log ++ [item])).drop (log.length - retain) := by
    rw [numbered_append_singleton, List.drop_append_of_le_length (by rw [length_numbered]; omega)]
    rfl
  have length : (log ++ [item]).length = log.length + 1 := List.length_append
  rw [extended, List.length_drop, length_numbered, List.tail_drop, length]
  unfold window
  rw [length]
  split
  · next full => rw [show log.length + 1 - retain = log.length - retain + 1 by omega]
  · next room => rw [show log.length + 1 - retain = log.length - retain by omega]

/-- What is retained above a cursor. -/
theorem filter_window : (window retain log).filter (fun entry => cursor < entry.1) =
    (numbered log).drop (max cursor (log.length - retain)) := by
  rw [← filter_numbered, window_eq_filter, List.filter_filter]
  apply List.filter_congr
  intro entry _
  rw [← Bool.decide_and]
  exact decide_eq_decide.mpr (by omega)

end Windows

section Readers

variable (retain limit : Nat)

/-- The place from which a read hands out items: behind its cursor, and within what is
retained. -/
def start (log : List α) (cursor : Nat) : Nat := max cursor (log.length - retain)

/-- What a read from a cursor hands out. -/
def read (log : List α) (cursor : Nat) : List (Nat × α) :=
  ((numbered log).drop (start retain log cursor)).take limit

/-- The cursor after a read. -/
def advance (log : List α) (cursor : Nat) : Nat :=
  max cursor (min (start retain log cursor + limit) log.length)

/-- A visit of a reader that asks for what comes after some number; a log without items
is left alone. -/
def visit (log : List α) (position after : Nat) : List (Nat × α) × Nat :=
  if log = [] then ([], position)
  else (read retain limit log (max after position), advance retain limit log (max after position))

/-- Several visits in a row. -/
def visits (log : List α) (position : Nat) : List Nat → List (Nat × α) × Nat
  | [] => ([], position)
  | after :: rest =>
      let first := visit retain limit log position after
      let others := visits log first.2 rest
      (first.1 ++ others.1, others.2)

/-- All that a reader at a position has seen: items of the log, in their order. -/
structure Follows (log : List α) (position : Nat) (seen : List (Nat × α)) : Prop where
  taken : ∀ entry ∈ seen, entry ∈ numbered log
  increasing : seen.Pairwise fun first second => first.1 < second.1
  within : ∀ entry ∈ seen, entry.1 ≤ position

/-- Above a floor, an item that the reader has passed without seeing it is no longer
retained. -/
structure Covers (floor : Nat) (log : List α) (position : Nat) (seen : List (Nat × α)) :
    Prop where
  above : floor ≤ position
  bounded : position ≤ max floor log.length
  covered : ∀ number, floor < number → number ≤ position →
    number ∈ seen.map Prod.fst ∨ number + retain ≤ log.length

variable {retain limit} {log : List α} {cursor position after floor number : Nat} {item : α}
  {seen : List (Nat × α)} {afters : List Nat}

theorem mem_read : (number, item) ∈ read retain limit log cursor ↔
    start retain log cursor < number ∧ number ≤ start retain log cursor + limit ∧
      (number, item) ∈ numbered log := by
  unfold read
  rw [List.take_drop, List.mem_iff_getElem?]
  constructor
  · rintro ⟨index, found⟩
    rw [List.getElem?_drop, List.getElem?_take] at found
    split at found
    · next inside =>
        unfold numbered at found ⊢
        rw [List.getElem?_map, List.getElem?_zipIdx] at found
        obtain ⟨⟨value, place⟩, inLog, same⟩ := Option.map_eq_some_iff.mp found
        obtain ⟨value', here, paired⟩ := Option.map_eq_some_iff.mp inLog
        cases paired
        cases same
        refine ⟨by omega, by omega, mem_numbered.mpr ⟨by omega, ?_⟩⟩
        rwa [show 1 + (start retain log cursor + index) - 1 = start retain log cursor + index
          by omega]
    · cases found
  · rintro ⟨beyond, within, member⟩
    obtain ⟨positive, found⟩ := mem_numbered.mp member
    refine ⟨number - 1 - start retain log cursor, ?_⟩
    rw [List.getElem?_drop, List.getElem?_take, if_pos (by omega)]
    unfold numbered
    rw [List.getElem?_map, List.getElem?_zipIdx,
      show start retain log cursor + (number - 1 - start retain log cursor) = number - 1 by omega,
      found]
    simp only [Option.map_some, Prod.swap_prod_mk, Option.some.injEq, Prod.mk.injEq, and_true]
    omega

theorem pairwise_read :
    (read retain limit log cursor).Pairwise fun first second => first.1 < second.1 :=
  pairwise_numbered.sublist ((List.take_sublist _ _).trans (List.drop_sublist _ _))

theorem numbers_read : (read retain limit log cursor).map Prod.fst =
    List.range' (start retain log cursor + 1)
      (min limit (log.length - start retain log cursor)) := by
  unfold read
  rw [List.map_take, List.map_drop, numbers_numbered, List.drop_range', Nat.mul_one,
    Nat.add_comm 1]
  rcases Nat.le_total limit (log.length - start retain log cursor) with short | long
  · rw [List.take_range'_of_length_ge short, Nat.min_eq_left short]
  · rw [List.take_range'_of_length_le long, Nat.min_eq_right long]

/-- The cursor moves to the last item handed out. -/
theorem getLast_read (retaining : 0 < retain) (limited : 0 < limit) :
    ((read retain limit log cursor).getLast?.map Prod.fst).getD cursor =
      advance retain limit log cursor := by
  rw [← List.getLast?_map, numbers_read, List.getLast?_range']
  unfold advance
  split
  · next empty =>
      rw [Option.getD_none]
      unfold start at empty ⊢
      omega
  · next some_ =>
      rw [Option.getD_some]
      unfold start at some_ ⊢
      omega

theorem length_read_le : (read retain limit log cursor).length ≤ limit :=
  List.length_take_le _ _

theorem le_advance : cursor ≤ advance retain limit log cursor := Nat.le_max_left _ _

theorem advance_le : advance retain limit log cursor ≤ max cursor log.length := by
  unfold advance
  omega

theorem le_advance_of_mem_read (member : (number, item) ∈ read retain limit log cursor) :
    cursor < number ∧ number ≤ advance retain limit log cursor := by
  obtain ⟨beyond, within, listed⟩ := mem_read.mp member
  have := le_length_of_mem_numbered listed
  unfold advance
  unfold start at beyond within ⊢
  omega

/-- Between its old and its new cursor, a read hands out everything that is retained. -/
theorem mem_read_or_evicted (beyond : cursor < number)
    (within : number ≤ advance retain limit log cursor) :
    number ∈ (read retain limit log cursor).map Prod.fst ∨ number + retain ≤ log.length := by
  have reach : number ≤ min (start retain log cursor + limit) log.length := by
    unfold advance at within
    omega
  by_cases gone : number ≤ start retain log cursor
  · right
    unfold start at gone
    omega
  · left
    have inside : number - 1 < log.length := by omega
    refine List.mem_map.mpr ⟨(number, log[number - 1]), mem_read.mpr ⟨by omega, by omega, ?_⟩, rfl⟩
    exact mem_numbered.mpr ⟨by omega, List.getElem?_eq_getElem inside⟩

theorem visit_nil : visit retain limit ([] : List α) position after = ([], position) := rfl

theorem visit_of_ne_nil (filled : log ≠ []) : visit retain limit log position after =
    (read retain limit log (max after position), advance retain limit log (max after position)) :=
  if_neg filled

theorem visits_nil : visits retain limit ([] : List α) position afters = ([], position) := by
  induction afters with
  | nil => rfl
  | cons after rest ih =>
      unfold visits
      dsimp only [visit_nil]
      rw [ih]
      rfl

theorem visits_append_singleton : visits retain limit log position (afters ++ [after]) =
    let earlier := visits retain limit log position afters
    let last := visit retain limit log earlier.2 after
    (earlier.1 ++ last.1, last.2) := by
  induction afters generalizing position with
  | nil => simp [visits]
  | cons first rest ih =>
      rw [List.cons_append]
      unfold visits
      dsimp only
      rw [ih]
      simp only [List.append_assoc]

theorem length_visit_le : (visit retain limit log position after).1.length ≤ limit := by
  unfold visit
  split
  · exact Nat.zero_le limit
  · exact length_read_le

theorem le_visit : position ≤ (visit retain limit log position after).2 := by
  unfold visit
  split
  · exact Nat.le_refl position
  · exact Nat.le_trans (Nat.le_max_right after position) le_advance

theorem le_visits : position ≤ (visits retain limit log position afters).2 := by
  induction afters generalizing position with
  | nil => exact Nat.le_refl position
  | cons after rest ih => exact Nat.le_trans le_visit ih

theorem Follows.nil : Follows log position [] :=
  ⟨by simp, .nil, by simp⟩

/-- Asking again and again from one place is visiting from there. -/
theorem visits_max (filled : log ≠ []) (asking : afters ≠ [])
    (same : ∀ other ∈ afters, other = after) :
    visits retain limit log position afters =
      visits retain limit log (max after position) afters := by
  cases afters with
  | nil => exact absurd rfl asking
  | cons first rest =>
      obtain rfl := same first List.mem_cons_self
      unfold visits
      rw [visit_of_ne_nil filled, visit_of_ne_nil filled, Nat.max_eq_right (Nat.le_max_left _ _)]

/-- Visits from a position hand out what lies beyond it. -/
theorem lt_of_mem_visits (member : (number, item) ∈ (visits retain limit log position afters).1) :
    position < number := by
  induction afters generalizing position with
  | nil => cases member
  | cons after rest ih =>
      rcases List.mem_append.mp member with first | later
      · unfold visit at first
        split at first
        · cases first
        · exact Nat.lt_of_le_of_lt (Nat.le_max_right after position)
            (le_advance_of_mem_read first).1
      · exact Nat.lt_of_le_of_lt le_visit (ih later)

/-- When nothing retained lies beyond the position, visits change nothing. -/
theorem visits_of_drained (retaining : 0 < retain) (limited : 0 < limit)
    (trusting : ∀ after ∈ afters, after ≤ position)
    (drained : ∀ entry ∈ window retain log, entry.1 ≤ position) :
    visits retain limit log position afters = ([], position) := by
  induction afters with
  | nil => rfl
  | cons after rest ih =>
      have still : visit retain limit log position after = ([], position) := by
        by_cases empty : log = []
        · rw [empty, visit_nil]
        have nothing : read retain limit log position = [] := by
          apply List.eq_nil_iff_forall_not_mem.mpr
          rintro ⟨number, item⟩ handed
          obtain ⟨beyond, -, listed⟩ := mem_read.mp handed
          unfold start at beyond
          have := drained _ (mem_window.mpr ⟨by omega, listed⟩)
          dsimp only at this
          omega
        have unmoved := @getLast_read α retain limit log position retaining limited
        rw [nothing, List.getLast?_nil, Option.map_none, Option.getD_none] at unmoved
        rw [visit_of_ne_nil empty, Nat.max_eq_right (trusting after List.mem_cons_self), nothing,
          ← unmoved]
      unfold visits
      rw [still]
      exact ih fun other member => trusting other (List.mem_cons_of_mem _ member)

variable (retain limit) in
/-- A visit comes a full batch closer to every item that it does not reach. -/
theorem visit_advances (filled : number ≤ log.length) (positive : 0 < number) :
    number ≤ (visit retain limit log position after).2 ∨
      start retain log position + limit ≤ (visit retain limit log position after).2 := by
  have nonempty : log ≠ [] := by
    rintro rfl
    exact absurd filled (Nat.not_le_of_lt positive)
  rw [visit_of_ne_nil nonempty]
  unfold advance start
  omega

/-- What has been seen comes in the order of the log, without repetition. -/
theorem Follows.sublist (follows : Follows log position seen) : seen.Sublist (numbered log) := by
  have antisymm : Std.Antisymm fun first second : Nat × α => first.1 < second.1 :=
    ⟨fun first second less more => absurd (Nat.lt_trans less more) (Nat.lt_irrefl _)⟩
  have distinct : seen.Nodup := follows.increasing.imp fun less same => by
    rw [same] at less
    exact Nat.lt_irrefl _ less
  exact List.sublist_of_subperm_of_pairwise (List.subperm_of_subset distinct follows.taken)
    follows.increasing pairwise_numbered

theorem Follows.append (follows : Follows log position seen) (more : List α) :
    Follows (log ++ more) position seen where
  taken entry member := numbered_subset (follows.taken entry member) more
  increasing := follows.increasing
  within := follows.within

variable (retain limit after) in
theorem Follows.visit (follows : Follows log position seen) :
    Follows log (visit retain limit log position after).2
      (seen ++ (visit retain limit log position after).1) := by
  by_cases empty : log = []
  · subst empty
    rw [visit_nil, List.append_nil]
    exact follows
  rw [visit_of_ne_nil empty]
  refine ⟨?_, ?_, ?_⟩
  · rintro ⟨number, item⟩ member
    rcases List.mem_append.mp member with earlier | handed
    · exact follows.taken _ earlier
    · exact (mem_read.mp handed).2.2
  · rw [List.pairwise_append]
    refine ⟨follows.increasing, pairwise_read, ?_⟩
    rintro first earlier ⟨number, item⟩ handed
    have := follows.within first earlier
    have := (le_advance_of_mem_read handed).1
    dsimp only
    omega
  · rintro ⟨number, item⟩ member
    rcases List.mem_append.mp member with earlier | handed
    · exact Nat.le_trans (follows.within _ earlier)
        (Nat.le_trans (Nat.le_max_right after position) le_advance)
    · exact (le_advance_of_mem_read handed).2

variable (retain limit afters) in
theorem Follows.visits (follows : Follows log position seen) :
    Follows log (visits retain limit log position afters).2
      (seen ++ (visits retain limit log position afters).1) := by
  induction afters generalizing position seen with
  | nil =>
      show Follows log position (seen ++ [])
      rwa [List.append_nil]
  | cons after rest ih =>
      have rested := ih (follows.visit retain limit after)
      rwa [List.append_assoc] at rested

theorem Covers.base : Covers retain floor ([] : List α) floor [] where
  above := Nat.le_refl floor
  bounded := Nat.le_max_left floor _
  covered number beyond within := absurd within (by omega)

theorem Covers.append (covers : Covers retain floor log position seen) (more : List α) :
    Covers retain floor (log ++ more) position seen where
  above := covers.above
  bounded := by
    have := covers.bounded
    rw [List.length_append]
    omega
  covered number beyond within := by
    rcases covers.covered number beyond within with found | evicted
    · exact .inl found
    · right
      rw [List.length_append]
      omega

variable (limit) in
/-- A visit that asks for nothing beyond the position passes over nothing. -/
theorem Covers.visit (covers : Covers retain floor log position seen)
    (trusting : after ≤ position) :
    Covers retain floor log (visit retain limit log position after).2
      (seen ++ (visit retain limit log position after).1) := by
  by_cases empty : log = []
  · subst empty
    rw [visit_nil, List.append_nil]
    exact covers
  rw [visit_of_ne_nil empty, Nat.max_eq_right trusting]
  refine ⟨Nat.le_trans covers.above le_advance, ?_, ?_⟩
  · have := covers.bounded
    have := @advance_le α retain limit log position
    dsimp only
    omega
  · intro number beyond within
    rw [List.map_append, List.mem_append]
    by_cases before : number ≤ position
    · rcases covers.covered number beyond before with found | evicted
      · exact .inl (.inl found)
      · exact .inr evicted
    · rcases mem_read_or_evicted (by omega) within with found | evicted
      · exact .inl (.inr found)
      · exact .inr evicted

variable (limit) in
theorem Covers.visits (covers : Covers retain floor log position seen)
    (trusting : ∀ after ∈ afters, after ≤ position) :
    Covers retain floor log (visits retain limit log position afters).2
      (seen ++ (visits retain limit log position afters).1) := by
  induction afters generalizing position seen with
  | nil =>
      show Covers retain floor log position (seen ++ [])
      rwa [List.append_nil]
  | cons after rest ih =>
      have first := covers.visit limit (trusting after List.mem_cons_self)
      have rested := ih first fun other member =>
        Nat.le_trans (trusting other (List.mem_cons_of_mem _ member)) le_visit
      rwa [List.append_assoc] at rested

end Readers

end Journal
