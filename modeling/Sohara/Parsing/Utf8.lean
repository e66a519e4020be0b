import Mathlib.Data.List.TakeDrop
import Sohara.Parsing.Occurrences

/-! # Reading octets as text

Octets are read as UTF-8 from left to right. An ill-formed sequence reads as one replacement
character for every longest beginning of a scalar value in it, and for every other octet that
stands where no scalar value can begin. An ASCII octet is never part of a longer sequence: it
reads as itself and splits what is read, so what is found in the text by ASCII alone is found
in the octets at the same place.
-/

namespace Parsing

/-- What stands for an ill-formed sequence. -/
def replacement : Char := '\uFFFD'

/-- So many octets, of which six bits count, make a scalar value beyond ASCII. -/
def Completes : Nat → Nat → Prop
  | 0, code => 0x80 ≤ code ∧ code.isValidChar
  | more + 1, code => ∀ octet, Completes more (code * 64 + octet % 64)

/-- A scalar value that has begun: how many octets it needs beside the next, the bounds of
the next, and the bits that are read. -/
structure Pending where
  more : Nat
  lower : Nat
  upper : Nat
  code : Nat
  beyond : 0x80 ≤ lower
  completes : ∀ octet, lower ≤ octet → octet ≤ upper → Completes more (code * 64 + octet % 64)

/-- What the first octet of a longer sequence begins. -/
def lead (octet : Nat) : Option Pending :=
  if two : 0xC2 ≤ octet ∧ octet ≤ 0xDF then
    some ⟨0, 0x80, 0xBF, octet - 0xC0, by decide, fun _ _ _ => by
      simp only [Completes, Nat.isValidChar]; omega⟩
  else if octet = 0xE0 then
    some ⟨1, 0xA0, 0xBF, 0, by decide, fun _ _ _ _ => by
      simp only [Completes, Nat.isValidChar]; omega⟩
  else if octet = 0xED then
    some ⟨1, 0x80, 0x9F, 0xD, by decide, fun _ _ _ _ => by
      simp only [Completes, Nat.isValidChar]; omega⟩
  else if three : 0xE1 ≤ octet ∧ octet ≤ 0xEF ∧ octet ≠ 0xED then
    some ⟨1, 0x80, 0xBF, octet - 0xE0, by decide, fun _ _ _ _ => by
      simp only [Completes, Nat.isValidChar]; omega⟩
  else if octet = 0xF0 then
    some ⟨2, 0x90, 0xBF, 0, by decide, fun _ _ _ _ _ => by
      simp only [Completes, Nat.isValidChar]; omega⟩
  else if four : 0xF1 ≤ octet ∧ octet ≤ 0xF3 then
    some ⟨2, 0x80, 0xBF, octet - 0xF0, by decide, fun _ _ _ _ _ => by
      simp only [Completes, Nat.isValidChar]; omega⟩
  else if octet = 0xF4 then
    some ⟨2, 0x80, 0x8F, 4, by decide, fun _ _ _ _ _ => by
      simp only [Completes, Nat.isValidChar]; omega⟩
  else none

/-- An octet where nothing has begun. -/
def start (octet : UInt8) : List Char × Option Pending :=
  if octet.toNat < 0x80 then ([Char.ofNat octet.toNat], none)
  else
    match lead octet.toNat with
    | some pending => ([], some pending)
    | none => ([replacement], none)

/-- An octet within the bounds of what has begun. -/
def Pending.push (octet : Nat) (pending : Pending)
    (within : pending.lower ≤ octet ∧ octet ≤ pending.upper) : List Char × Option Pending :=
  match pending, within with
  | ⟨0, _, _, code, _, _⟩, _ => ([Char.ofNat (code * 64 + octet % 64)], none)
  | ⟨more + 1, _, _, code, _, completes⟩, within =>
      ([], some ⟨more, 0x80, 0xBF, code * 64 + octet % 64, by decide,
        fun other _ _ => completes octet within.1 within.2 other⟩)

/-- The text that an octet ends, and what is begun then. -/
def advance : Option Pending → UInt8 → List Char × Option Pending
  | none, octet => start octet
  | some pending, octet =>
      if within : pending.lower ≤ octet.toNat ∧ octet.toNat ≤ pending.upper then
        pending.push octet.toNat within
      else (replacement :: (start octet).1, (start octet).2)

/-- What has begun when the octets end. -/
def unfinished : Option Pending → List Char
  | none => []
  | some _ => [replacement]

/-- The text of octets, of which the first may go on with what has begun. -/
def decodeFrom (begun : Option Pending) : List UInt8 → List Char
  | [] => unfinished begun
  | octet :: rest => (advance begun octet).1 ++ decodeFrom (advance begun octet).2 rest

/-- The text of octets. -/
def decode (octets : List UInt8) : List Char := decodeFrom none octets

/-- The octets of a text. -/
def encode (text : List Char) : List UInt8 := text.flatMap String.utf8EncodeChar

section

variable {begun : Option Pending} {octet : UInt8} {octets rest : List UInt8} {char : Char}

/-! ## One octet -/

/-- **ASCII.** An ASCII octet ends what has begun and reads as itself. -/
theorem advance_ascii (ascii : octet.toNat < 0x80) (begun : Option Pending) :
    advance begun octet = (unfinished begun ++ [Char.ofNat octet.toNat], none) := by
  cases begun with
  | none => rw [advance, start, if_pos ascii]; rfl
  | some pending =>
      have outside : ¬ (pending.lower ≤ octet.toNat ∧ octet.toNat ≤ pending.upper) := by
        have beyond := pending.beyond
        omega
      rw [advance, dif_neg outside, start, if_pos ascii]
      rfl

theorem toNat_ofNat {code : Nat} (valid : code.isValidChar) : (Char.ofNat code).toNat = code := by
  rw [Char.ofNat, dif_pos valid]
  rfl

theorem toNat_ascii (ascii : octet.toNat < 0x80) :
    (Char.ofNat octet.toNat).toNat = octet.toNat :=
  toNat_ofNat (.inl (by omega))

theorem toNat_ofNat_of_completes {code : Nat} (complete : Completes 0 code) :
    0x80 ≤ (Char.ofNat code).toNat := by
  rw [toNat_ofNat complete.2]
  exact complete.1

theorem start_beyond (beyond : 0x80 ≤ octet.toNat) (member : char ∈ (start octet).1) :
    char = replacement := by
  rw [start, if_neg (Nat.not_lt.mpr beyond)] at member
  cases found : lead octet.toNat with
  | none =>
      rw [found] at member
      exact List.mem_singleton.mp member
  | some pending =>
      rw [found] at member
      cases member

/-- **Beyond ASCII** no octet ends an ASCII character. -/
theorem advance_beyond (beyond : 0x80 ≤ octet.toNat) (member : char ∈ (advance begun octet).1) :
    0x80 ≤ char.toNat := by
  have replaced : 0x80 ≤ replacement.toNat := by decide
  cases begun with
  | none => exact start_beyond beyond member ▸ replaced
  | some pending =>
      rw [advance] at member
      split at member
      · rename_i within
        obtain ⟨more, lower, upper, code, _, completes⟩ := pending
        cases more with
        | zero =>
            rw [List.mem_singleton.mp member]
            exact toNat_ofNat_of_completes (completes _ within.1 within.2)
        | succ more => cases member
      · rcases List.mem_cons.mp member with rfl | member
        · exact replaced
        · exact start_beyond beyond member ▸ replaced

/-- An octet ends a text or goes on with what has begun. -/
theorem advance_ne (begun : Option Pending) (octet : UInt8) : advance begun octet ≠ ([], none) := by
  have starts : start octet ≠ ([], none) := by
    unfold start
    split
    · simp
    · split <;> simp
  cases begun with
  | none => exact starts
  | some pending =>
      rw [advance]
      split
      · obtain ⟨more, _, _, _, _, _⟩ := pending
        cases more <;> simp [Pending.push]
      · simp

theorem ascii_not_mem_unfinished (ascii : octet.toNat < 0x80) (begun : Option Pending) :
    Char.ofNat octet.toNat ∉ unfinished begun := by
  intro member
  have replaced : replacement.toNat = 0xFFFD := rfl
  cases begun with
  | none => cases member
  | some pending =>
      have plain := toNat_ascii ascii
      rw [List.mem_singleton.mp member] at plain
      omega

/-- An ASCII character of the text that an octet ends is that octet. -/
theorem advance_eq_append (ascii : octet.toNat < 0x80) {first : UInt8} {before more : List Char}
    (reads : (advance begun first).1 = before ++ Char.ofNat octet.toNat :: more) :
    first = octet ∧ before = unfinished begun ∧ more = [] := by
  have plain := toNat_ascii ascii
  by_cases beyond : 0x80 ≤ first.toNat
  · have member : Char.ofNat octet.toNat ∈ (advance begun first).1 := by
      rw [reads]
      exact List.mem_append_right _ List.mem_cons_self
    have large := advance_beyond beyond member
    omega
  · have low : first.toNat < 0x80 := Nat.not_le.mp beyond
    rw [advance_ascii low] at reads
    rcases List.eq_nil_or_concat more with rfl | ⟨more, last, rfl⟩
    · obtain ⟨same, ends⟩ := List.append_inj' reads rfl
      refine ⟨UInt8.toNat_inj.mp ?_, same.symm, rfl⟩
      rw [← toNat_ascii low, ← plain, (List.cons.inj ends).1]
    · rw [List.concat_eq_append, ← List.cons_append, ← List.append_assoc] at reads
      obtain ⟨same, -⟩ := List.append_inj' reads rfl
      refine absurd ?_ (ascii_not_mem_unfinished ascii begun)
      rw [same]
      exact List.mem_append_right _ List.mem_cons_self

/-! ## Octets behind octets -/

/-- Octets are read up to a state from which the octets behind them are read. -/
theorem exists_decodeFrom_append (begun : Option Pending) (octets : List UInt8) :
    ∃ text later, ∀ rest, decodeFrom begun (octets ++ rest) = text ++ decodeFrom later rest := by
  induction octets generalizing begun with
  | nil => exact ⟨[], begun, fun _ => rfl⟩
  | cons octet octets ih =>
      obtain ⟨text, later, follows⟩ := ih (advance begun octet).2
      refine ⟨(advance begun octet).1 ++ text, later, fun rest => ?_⟩
      rw [List.cons_append, decodeFrom, follows, List.append_assoc]

/-- **ASCII splits** what is read. -/
theorem decodeFrom_ascii (ascii : octet.toNat < 0x80) (begun : Option Pending)
    (octets rest : List UInt8) :
    decodeFrom begun (octets ++ octet :: rest) =
      decodeFrom begun octets ++ Char.ofNat octet.toNat :: decode rest := by
  obtain ⟨text, later, follows⟩ := exists_decodeFrom_append begun octets
  have before := follows []
  rw [List.append_nil] at before
  rw [follows, before, decodeFrom, decodeFrom, advance_ascii ascii, List.append_assoc,
    List.append_assoc]
  rfl

theorem decodeFrom_eq_nil (empty : decodeFrom begun octets = []) : octets = [] ∧ begun = none := by
  induction octets generalizing begun with
  | nil =>
      cases begun with
      | none => exact ⟨rfl, rfl⟩
      | some pending => cases empty
  | cons octet octets ih =>
      obtain ⟨nothing, later⟩ := List.append_eq_nil_iff.mp empty
      exact absurd (Prod.ext nothing (ih later).2) (advance_ne begun octet)

/-- What is read of some octets is not empty. -/
theorem decode_eq_nil_iff : decode octets = [] ↔ octets = [] :=
  ⟨fun empty => (decodeFrom_eq_nil empty).1, fun empty => by rw [empty]; rfl⟩

/-- **Reflection.** An ASCII character of the text is an octet, and what stands around the
character is read of what stands around the octet. -/
theorem exists_octet (ascii : octet.toNat < 0x80) {before after : List Char}
    (reads : decodeFrom begun octets = before ++ Char.ofNat octet.toNat :: after) :
    ∃ front back, octets = front ++ octet :: back ∧ decodeFrom begun front = before ∧
      decode back = after := by
  induction octets generalizing begun before with
  | nil =>
      have member : Char.ofNat octet.toNat ∈ unfinished begun := by
        rw [decodeFrom] at reads
        rw [reads]
        exact List.mem_append_right _ List.mem_cons_self
      exact absurd member (ascii_not_mem_unfinished ascii begun)
  | cons first octets ih =>
      rw [decodeFrom] at reads
      rcases List.append_eq_append_iff.mp reads with ⟨more, rest, later⟩ | ⟨more, rest, later⟩
      · obtain ⟨front, back, rfl, read, follows⟩ := ih later
        exact ⟨first :: front, back, rfl, by rw [decodeFrom, read, rest], follows⟩
      · cases more with
        | nil =>
            obtain ⟨front, back, rfl, read, follows⟩ := ih (show _ = [] ++ _ from later.symm)
            refine ⟨first :: front, back, rfl, ?_, follows⟩
            rw [decodeFrom, read, rest, List.append_nil, List.append_nil]
        | cons found more =>
            obtain ⟨rfl, behind⟩ := List.cons.inj later
            obtain ⟨rfl, rfl, rfl⟩ := advance_eq_append ascii rest
            refine ⟨[], octets, rfl, rfl, ?_⟩
            rw [behind, advance_ascii ascii]
            rfl

/-- **Nothing is lost** of ASCII, and nothing is added. -/
theorem count_decodeFrom (ascii : octet.toNat < 0x80) (begun : Option Pending)
    (octets : List UInt8) :
    (decodeFrom begun octets).count (Char.ofNat octet.toNat) = octets.count octet := by
  induction octets generalizing begun with
  | nil => exact List.count_eq_zero.mpr (ascii_not_mem_unfinished ascii begun)
  | cons first octets ih =>
      rw [decodeFrom, List.count_append, ih, List.count_cons, Nat.add_comm]
      congr 1
      by_cases same : first = octet
      · rw [same, advance_ascii ascii, List.count_append,
          List.count_eq_zero.mpr (ascii_not_mem_unfinished ascii begun), List.count_singleton_self,
          beq_self_eq_true]
        rfl
      · rw [beq_eq_false_iff_ne.mpr same]
        refine List.count_eq_zero.mpr fun member => ?_
        obtain ⟨before, more, reads⟩ := List.append_of_mem member
        exact same (advance_eq_append ascii reads).1

/-! ## Reading what was written -/

/-- Octets that go on with what has begun, as many as it needs, make its scalar value. -/
theorem decodeFrom_pending (pending : Pending) {second : UInt8} (tail : List UInt8)
    (needed : tail.length = pending.more)
    (within : pending.lower ≤ second.toNat ∧ second.toNat ≤ pending.upper)
    (go_on : ∀ octet ∈ tail, 0x80 ≤ octet.toNat ∧ octet.toNat ≤ 0xBF) (rest : List UInt8) :
    decodeFrom (some pending) (second :: (tail ++ rest)) =
      Char.ofNat ((second :: tail).foldl (fun code octet => code * 64 + octet.toNat % 64)
        pending.code) :: decode rest := by
  induction tail generalizing pending second with
  | nil =>
      obtain ⟨more, lower, upper, code, beyond, completes⟩ := pending
      cases needed
      rw [decodeFrom, advance, dif_pos within]
      rfl
  | cons third tail ih =>
      obtain ⟨more, lower, upper, code, beyond, completes⟩ := pending
      cases needed
      rw [decodeFrom, advance, dif_pos within]
      exact ih _ rfl (go_on third List.mem_cons_self)
        fun octet member => go_on octet (List.mem_cons_of_mem _ member)

theorem decodeFrom_lead {first : UInt8} {pending : Pending} (beyond : 0x80 ≤ first.toNat)
    (begins : lead first.toNat = some pending) (rest : List UInt8) :
    decodeFrom none (first :: rest) = decodeFrom (some pending) rest := by
  rw [decodeFrom, advance, start, if_neg (Nat.not_lt.mpr beyond), begins]
  rfl

theorem lead_two {code : Nat} (low : 0x80 ≤ code) (high : code < 0x800) :
    ∃ pending, lead (code / 64 + 0xC0) = some pending ∧ pending.more = 0 ∧
      pending.code = code / 64 ∧ pending.lower ≤ code % 64 + 0x80 ∧
      code % 64 + 0x80 ≤ pending.upper := by
  unfold lead
  rw [dif_pos (by omega)]
  exact ⟨_, rfl, rfl, Nat.add_sub_cancel _ _, (by omega : 0x80 ≤ code % 64 + 0x80),
    (by omega : code % 64 + 0x80 ≤ 0xBF)⟩

theorem lead_three {code : Nat} (low : 0x800 ≤ code) (high : code < 0x10000)
    (valid : code.isValidChar) :
    ∃ pending, lead (code / 4096 + 0xE0) = some pending ∧ pending.more = 1 ∧
      pending.code = code / 4096 ∧ pending.lower ≤ code / 64 % 64 + 0x80 ∧
      code / 64 % 64 + 0x80 ≤ pending.upper := by
  unfold Nat.isValidChar at valid
  by_cases least : code / 4096 = 0
  · rw [least]
    exact ⟨_, rfl, rfl, rfl, (by omega : 0xA0 ≤ code / 64 % 64 + 0x80),
      (by omega : code / 64 % 64 + 0x80 ≤ 0xBF)⟩
  by_cases surrogates : code / 4096 = 0xD
  · rw [surrogates]
    exact ⟨_, rfl, rfl, rfl, (by omega : 0x80 ≤ code / 64 % 64 + 0x80),
      (by omega : code / 64 % 64 + 0x80 ≤ 0x9F)⟩
  · unfold lead
    rw [dif_neg (by omega), if_neg (by omega), if_neg (by omega), dif_pos (by omega)]
    exact ⟨_, rfl, rfl, Nat.add_sub_cancel _ _, (by omega : 0x80 ≤ code / 64 % 64 + 0x80),
      (by omega : code / 64 % 64 + 0x80 ≤ 0xBF)⟩

theorem lead_four {code : Nat} (low : 0x10000 ≤ code) (valid : code.isValidChar) :
    ∃ pending, lead (code / 262144 + 0xF0) = some pending ∧ pending.more = 2 ∧
      pending.code = code / 262144 ∧ pending.lower ≤ code / 4096 % 64 + 0x80 ∧
      code / 4096 % 64 + 0x80 ≤ pending.upper := by
  unfold Nat.isValidChar at valid
  by_cases least : code / 262144 = 0
  · rw [least]
    exact ⟨_, rfl, rfl, rfl, (by omega : 0x90 ≤ code / 4096 % 64 + 0x80),
      (by omega : code / 4096 % 64 + 0x80 ≤ 0xBF)⟩
  by_cases largest : code / 262144 = 4
  · rw [largest]
    exact ⟨_, rfl, rfl, rfl, (by omega : 0x80 ≤ code / 4096 % 64 + 0x80),
      (by omega : code / 4096 % 64 + 0x80 ≤ 0x8F)⟩
  · unfold lead
    rw [dif_neg (by omega), if_neg (by omega), if_neg (by omega), dif_neg (by omega),
      if_neg (by omega), dif_pos (by omega)]
    exact ⟨_, rfl, rfl, Nat.add_sub_cancel _ _, (by omega : 0x80 ≤ code / 4096 % 64 + 0x80),
      (by omega : code / 4096 % 64 + 0x80 ≤ 0xBF)⟩

theorem decode_one {code : Nat} (small : code ≤ 0x7F) (rest : List UInt8) :
    decode ([UInt8.ofNat code] ++ rest) = Char.ofNat code :: decode rest := by
  have octet : (UInt8.ofNat code).toNat = code := by rw [UInt8.toNat_ofNat']; omega
  have reads := decodeFrom_ascii (show (UInt8.ofNat code).toNat < 0x80 by omega) none [] rest
  rw [octet] at reads
  exact reads

theorem decode_two {code : Nat} (low : 0x80 ≤ code) (high : code < 0x800) (rest : List UInt8) :
    decode ([UInt8.ofNat (code / 64 % 32 + 0xC0), UInt8.ofNat (code % 64 + 0x80)] ++ rest) =
      Char.ofNat code :: decode rest := by
  obtain ⟨pending, begins, more, bits, lower, upper⟩ := lead_two low high
  have first : (UInt8.ofNat (code / 64 % 32 + 0xC0)).toNat = code / 64 + 0xC0 := by
    rw [UInt8.toNat_ofNat']; omega
  have second : (UInt8.ofNat (code % 64 + 0x80)).toNat = code % 64 + 0x80 := by
    rw [UInt8.toNat_ofNat']; omega
  have whole : code / 64 * 64 + (code % 64 + 0x80) % 64 = code := by omega
  refine (decodeFrom_lead (by omega) (first ▸ begins) _).trans ?_
  refine (decodeFrom_pending pending [] more.symm (by omega) (by simp) rest).trans ?_
  simp only [List.foldl_cons, List.foldl_nil, second, bits, whole]

theorem decode_three {code : Nat} (low : 0x800 ≤ code) (high : code < 0x10000)
    (valid : code.isValidChar) (rest : List UInt8) :
    decode ([UInt8.ofNat (code / 4096 % 16 + 0xE0), UInt8.ofNat (code / 64 % 64 + 0x80),
      UInt8.ofNat (code % 64 + 0x80)] ++ rest) = Char.ofNat code :: decode rest := by
  obtain ⟨pending, begins, more, bits, lower, upper⟩ := lead_three low high valid
  have first : (UInt8.ofNat (code / 4096 % 16 + 0xE0)).toNat = code / 4096 + 0xE0 := by
    rw [UInt8.toNat_ofNat']; omega
  have second : (UInt8.ofNat (code / 64 % 64 + 0x80)).toNat = code / 64 % 64 + 0x80 := by
    rw [UInt8.toNat_ofNat']; omega
  have third : (UInt8.ofNat (code % 64 + 0x80)).toNat = code % 64 + 0x80 := by
    rw [UInt8.toNat_ofNat']; omega
  have whole : (code / 4096 * 64 + (code / 64 % 64 + 0x80) % 64) * 64 +
      (code % 64 + 0x80) % 64 = code := by omega
  refine (decodeFrom_lead (by omega) (first ▸ begins) _).trans ?_
  refine (decodeFrom_pending pending [UInt8.ofNat (code % 64 + 0x80)] more.symm
    (by omega) ?_ rest).trans ?_
  · intro octet member
    rw [List.mem_singleton.mp member]
    omega
  · simp only [List.foldl_cons, List.foldl_nil, second, third, bits, whole]

theorem decode_four {code : Nat} (low : 0x10000 ≤ code) (valid : code.isValidChar)
    (rest : List UInt8) :
    decode ([UInt8.ofNat (code / 262144 % 8 + 0xF0), UInt8.ofNat (code / 4096 % 64 + 0x80),
      UInt8.ofNat (code / 64 % 64 + 0x80), UInt8.ofNat (code % 64 + 0x80)] ++ rest) =
        Char.ofNat code :: decode rest := by
  obtain ⟨pending, begins, more, bits, lower, upper⟩ := lead_four low valid
  unfold Nat.isValidChar at valid
  have first : (UInt8.ofNat (code / 262144 % 8 + 0xF0)).toNat = code / 262144 + 0xF0 := by
    rw [UInt8.toNat_ofNat']; omega
  have second : (UInt8.ofNat (code / 4096 % 64 + 0x80)).toNat = code / 4096 % 64 + 0x80 := by
    rw [UInt8.toNat_ofNat']; omega
  have third : (UInt8.ofNat (code / 64 % 64 + 0x80)).toNat = code / 64 % 64 + 0x80 := by
    rw [UInt8.toNat_ofNat']; omega
  have fourth : (UInt8.ofNat (code % 64 + 0x80)).toNat = code % 64 + 0x80 := by
    rw [UInt8.toNat_ofNat']; omega
  have whole : ((code / 262144 * 64 + (code / 4096 % 64 + 0x80) % 64) * 64 +
      (code / 64 % 64 + 0x80) % 64) * 64 + (code % 64 + 0x80) % 64 = code := by omega
  refine (decodeFrom_lead (by omega) (first ▸ begins) _).trans ?_
  refine (decodeFrom_pending pending
    [UInt8.ofNat (code / 64 % 64 + 0x80), UInt8.ofNat (code % 64 + 0x80)] more.symm
    (by omega) ?_ rest).trans ?_
  · intro octet member
    rcases List.mem_cons.mp member with rfl | member
    · omega
    · rw [List.mem_singleton.mp member]
      omega
  · simp only [List.foldl_cons, List.foldl_nil, second, third, fourth, bits, whole]

/-- **A scalar value** is read as itself. -/
theorem decode_encodeChar (char : Char) (rest : List UInt8) :
    decode (String.utf8EncodeChar char ++ rest) = char :: decode rest := by
  have valid : char.val.toNat.isValidChar := char.valid
  have itself : Char.ofNat char.val.toNat = char := Char.ofNat_toNat char
  simp only [String.utf8EncodeChar]
  split_ifs with one two three
  · exact (decode_one one rest).trans (by rw [itself])
  · exact (decode_two (by omega) (by omega) rest).trans (by rw [itself])
  · exact (decode_three (by omega) (by omega) valid rest).trans (by rw [itself])
  · exact (decode_four (by omega) valid rest).trans (by rw [itself])

/-- **A text** is read of its octets. -/
theorem decode_encode_append (text : List Char) (rest : List UInt8) :
    decode (encode text ++ rest) = text ++ decode rest := by
  induction text with
  | nil => rfl
  | cons char text ih =>
      unfold encode at ih ⊢
      rw [List.flatMap_cons, List.append_assoc, decode_encodeChar, ih, List.cons_append]

theorem decode_encode (text : List Char) : decode (encode text) = text := by
  have reads := decode_encode_append text []
  rw [List.append_nil] at reads
  exact reads.trans (List.append_nil text)

-- Two octets that begin nothing longer, a scalar value that is cut, and one that is whole.
example : decode [0xC0, 0x80, 0xE6, 0x83, 0x41, 0xC3, 0xA9] = "\uFFFD\uFFFD\uFFFDAé".toList := by
  decide

/-- A scalar value that is cut is replaced. -/
theorem decode_take_encodeChar (char : Char) {count : Nat} (some_ : count ≠ 0)
    (cut : count < char.utf8Size) :
    decode ((String.utf8EncodeChar char).take count) = [replacement] := by
  have size : (String.utf8EncodeChar char).length = char.utf8Size :=
    String.length_utf8EncodeChar char
  obtain ⟨text, later, follows⟩ :=
    exists_decodeFrom_append none ((String.utf8EncodeChar char).take count)
  have whole := follows ((String.utf8EncodeChar char).drop count)
  have before := follows []
  have reads := decode_encodeChar char []
  unfold decode at reads
  rw [List.append_nil] at before reads
  rw [List.take_append_drop, reads] at whole
  -- The octets behind the cut make a character, and there is only one.
  have behind : decodeFrom later ((String.utf8EncodeChar char).drop count) ≠ [] := by
    intro empty
    have ends := congrArg List.length (decodeFrom_eq_nil empty).1
    rw [List.length_drop, List.length_nil] at ends
    omega
  obtain rfl : text = [] := by
    cases text with
    | nil => rfl
    | cons first text =>
        rw [List.cons_append] at whole
        exact absurd (List.append_eq_nil_iff.mp (List.cons.inj whole).2.symm).2 behind
  have begun : decode ((String.utf8EncodeChar char).take count) ≠ [] := by
    intro empty
    have ends := congrArg List.length (decode_eq_nil_iff.mp empty)
    rw [List.length_take, List.length_nil] at ends
    omega
  unfold decode at begun ⊢
  rw [before] at begun ⊢
  cases later with
  | none => exact absurd rfl begun
  | some pending => rfl

theorem utf8Size_le_length_encode {text : List Char} (ends : text.getLast? = some char) :
    char.utf8Size ≤ (encode text).length := by
  obtain ⟨before, rfl⟩ := List.getLast?_eq_some_iff.mp ends
  unfold encode
  rw [List.flatMap_append, List.length_append, List.flatMap_singleton, String.length_utf8EncodeChar]
  exact Nat.le_add_left _ _

/-- **A text that is cut** reads as itself only if it ends with the replacement character and
the cut is in that. -/
theorem decode_take_encode_iff {text : List Char} {count : Nat}
    (cut : count < (encode text).length) :
    decode ((encode text).take count) = text ↔
      text.getLast? = some replacement ∧ (encode text).length ≤ count + 2 := by
  induction text generalizing count with
  | nil => exact absurd cut (Nat.not_lt_zero _)
  | cons char text ih =>
      have whole : encode (char :: text) = String.utf8EncodeChar char ++ encode text := rfl
      have size : (String.utf8EncodeChar char).length = char.utf8Size :=
        String.length_utf8EncodeChar char
      have three : replacement.utf8Size = 3 := rfl
      rw [whole, List.length_append, size] at cut ⊢
      by_cases within : count < char.utf8Size
      · rw [List.take_append_of_le_length (by omega)]
        by_cases none_ : count = 0
        · rw [none_, List.take_zero]
          refine ⟨fun empty => absurd empty.symm (List.cons_ne_nil _ _), fun ⟨ends, short⟩ => ?_⟩
          have large := utf8Size_le_length_encode ends
          rw [whole, List.length_append, size] at large
          omega
        · rw [decode_take_encodeChar char none_ within]
          constructor
          · intro same
            obtain ⟨rfl, rfl⟩ := List.cons.inj same
            exact ⟨rfl, by rw [three]; simp only [encode, List.flatMap_nil, List.length_nil]; omega⟩
          · rintro ⟨ends, short⟩
            cases text with
            | nil =>
                rw [List.getLast?_singleton] at ends
                rw [Option.some.inj ends]
            | cons next text =>
                rw [List.getLast?_cons_cons] at ends
                have large := utf8Size_le_length_encode ends
                omega
      · rw [List.take_append, List.take_of_length_le (by omega), decode_encodeChar, size,
          List.cons_inj_right, ih (by omega)]
        cases text with
        | nil =>
            rw [encode, List.flatMap_nil, List.length_nil] at cut
            omega
        | cons next text =>
            rw [List.getLast?_cons_cons]
            refine and_congr_right fun _ => ?_
            omega

/-! ## Patterns of ASCII -/

/-- An ASCII octet as a character. -/
def plain (octet : UInt8) : Char := Char.ofNat octet.toNat

variable {pattern before after : List UInt8}

theorem decode_ascii_append (ascii : ∀ octet ∈ pattern, octet.toNat < 0x80) (rest : List UInt8) :
    decode (pattern ++ rest) = pattern.map plain ++ decode rest := by
  induction pattern with
  | nil => rfl
  | cons octet pattern ih =>
      obtain ⟨first, others⟩ := List.forall_mem_cons.mp ascii
      exact (decodeFrom_ascii first none [] _).trans (congrArg (plain octet :: ·) (ih others))

theorem decode_append_cons (first : octet.toNat < 0x80)
    (ascii : ∀ octet ∈ pattern, octet.toNat < 0x80) (octets rest : List UInt8) :
    decode (octets ++ (octet :: pattern ++ rest)) =
      decode octets ++ ((octet :: pattern).map plain ++ decode rest) :=
  (decodeFrom_ascii first none octets _).trans
    (congrArg (fun text => decode octets ++ plain octet :: text) (decode_ascii_append ascii rest))

/-- A pattern at the start of a text is at the start of the octets. -/
theorem exists_append_of_decode (ascii : ∀ octet ∈ pattern, octet.toNat < 0x80)
    {text : List Char} (reads : decode octets = pattern.map plain ++ text) :
    ∃ rest, octets = pattern ++ rest ∧ decode rest = text := by
  induction pattern generalizing octets with
  | nil => exact ⟨octets, rfl, reads⟩
  | cons octet pattern ih =>
      obtain ⟨first, others⟩ := List.forall_mem_cons.mp ascii
      obtain ⟨front, back, rfl, nothing, follows⟩ := 
        exists_octet first (show _ = [] ++ _ from reads)
      obtain ⟨rest, rfl, behind⟩ := ih others follows
      exact ⟨rest, by rw [decode_eq_nil_iff.mp nothing]; rfl, behind⟩

/-- **A pattern of the text** is one of the octets. -/
theorem exists_pattern (first : octet.toNat < 0x80) (ascii : ∀ octet ∈ pattern, octet.toNat < 0x80)
    {text more : List Char}
    (reads : decode octets = text ++ ((octet :: pattern).map plain ++ more)) :
    ∃ before after, octets = before ++ (octet :: pattern ++ after) ∧ decode before = text ∧
      decode after = more := by
  obtain ⟨before, back, rfl, read, follows⟩ := exists_octet first reads
  obtain ⟨after, rfl, behind⟩ := exists_append_of_decode ascii follows
  exact ⟨before, after, rfl, read, behind⟩

theorem infix_decode_iff (first : octet.toNat < 0x80)
    (ascii : ∀ octet ∈ pattern, octet.toNat < 0x80) :
    (octet :: pattern).map plain <:+: decode octets ↔ octet :: pattern <:+: octets := by
  constructor
  · rintro ⟨text, more, reads⟩
    rw [List.append_assoc] at reads
    obtain ⟨before, after, rfl, -, -⟩ := exists_pattern first ascii reads.symm
    exact ⟨before, after, List.append_assoc _ _ _⟩
  · rintro ⟨before, after, rfl⟩
    rw [List.append_assoc, decode_append_cons first ascii]
    exact ⟨_, _, List.append_assoc _ _ _⟩

/-- **The first occurrence** is the same for the text and for the octets. -/
theorem splitOnce_decode (first : octet.toNat < 0x80)
    (ascii : ∀ octet ∈ pattern, octet.toNat < 0x80) (octets : List UInt8) :
    splitOnce ((octet :: pattern).map plain) (decode octets) =
      (splitOnce (octet :: pattern) octets).map fun around =>
        (decode around.1, decode around.2) := by
  cases cut : splitOnce (octet :: pattern) octets with
  | none =>
      rw [Option.map_none, splitOnce_eq_none_iff, infix_decode_iff first ascii]
      exact splitOnce_eq_none_iff.mp cut
  | some around =>
      obtain ⟨before, after⟩ := around
      obtain ⟨whole, least⟩ := occurs_of_splitOnce cut
      refine splitOnce_of_occurs ⟨?_, fun text more reads => ?_⟩
      · rw [whole, decode_append_cons first ascii]
      · obtain ⟨other, rest, same, read, -⟩ := exists_pattern first ascii reads
        have shorter := least other rest same
        rw [whole] at same
        rcases List.append_eq_append_iff.mp same with
          ⟨between, longer, found⟩ | ⟨between, longer, found⟩
        · cases between with
          | nil => rw [← read, longer, List.append_nil]
          | cons head between =>
              obtain ⟨rfl, -⟩ := List.cons.inj found
              rw [← read, longer, decode, decode, decodeFrom_ascii first, List.length_append]
              exact Nat.le_add_right _ _
        · have none_ : between = [] := by
            have lengths := congrArg List.length longer
            rw [List.length_append] at lengths
            exact List.eq_nil_of_length_eq_zero (by omega)
          rw [← read, longer, none_, List.append_nil]

end

end Parsing
