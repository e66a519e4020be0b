import Mathlib.Data.List.Basic
import Mathlib.Logic.Function.Basic

/-! # A disk with names

Files have contents and numbers, and names lead to them. Opening a name for writing empties
its file, or creates one; a renamed file keeps its number, so whoever has it open goes on
writing to it under its new name.
-/

namespace Storage

/-- The contents of the files created so far, and the names of some of them. -/
structure Disk (Name Byte : Type) where
  files : List (List Byte) := []
  names : Name → Option Nat

namespace Disk

variable {Name Byte : Type}

section Definitions

variable [DecidableEq Name]

/-- The content that a name leads to. -/
def read (name : Name) (disk : Disk Name Byte) : Option (List Byte) :=
  (disk.names name).bind fun file => disk.files[file]?

/-- Opens a name for writing: empties the file, or creates an empty one. -/
def create (name : Name) (disk : Disk Name Byte) : Nat × Disk Name Byte :=
  match disk.names name with
  | some file => (file, { disk with files := disk.files.set file [] })
  | none =>
      (disk.files.length, {
        files := disk.files ++ [[]]
        names := Function.update disk.names name (some disk.files.length) })

/-- A content after writing at an offset; a gap before the offset is filled with zeros. -/
def overwrite (zero : Byte) (offset : Nat) (bytes content : List Byte) : List Byte :=
  let padded := content ++ List.replicate (offset - content.length) zero
  padded.take offset ++ bytes ++ padded.drop (offset + bytes.length)

/-- Writes to an open file at an offset. -/
def write (zero : Byte) (file offset : Nat) (bytes : List Byte) (disk : Disk Name Byte) :
    Disk Name Byte :=
  { disk with files := disk.files.modify file (overwrite zero offset bytes) }

/-- Gives the file of a name another name, replacing what had it; nothing when the name
leads to no file. -/
def rename (source target : Name) (disk : Disk Name Byte) : Option (Disk Name Byte) :=
  (disk.names source).map fun file => { disk with
    names := Function.update (Function.update disk.names target (some file)) source none }

/-- Names lead to files, each name to its own. -/
structure Separate (disk : Disk Name Byte) : Prop where
  present : ∀ name file, disk.names name = some file → file < disk.files.length
  apart : ∀ name other file, disk.names name = some file → disk.names other = some file →
    name = other

end Definitions

variable {disk : Disk Name Byte} {name other : Name} {file offset : Nat} {zero : Byte}
  {bytes content : List Byte}

/-- Writing at the end of a content appends. -/
theorem overwrite_end (bytes content : List Byte) :
    overwrite zero content.length bytes content = content ++ bytes := by
  unfold overwrite
  rw [Nat.sub_self, List.replicate_zero, List.append_nil]
  dsimp only
  rw [List.take_length, List.drop_of_length_le (Nat.le_add_right _ _), List.append_nil]

theorem read_eq (named : disk.names name = some file) : disk.read name = disk.files[file]? := by
  unfold read
  rw [named]
  rfl

section Creating

variable [DecidableEq Name]

/-- A name that is opened for writing leads to the opened file, which is empty; other names
keep theirs, with their contents. -/
theorem create_spec (separate : disk.Separate) :
    (disk.create name).2.Separate ∧
      (disk.create name).2.names name = some (disk.create name).1 ∧
      (disk.create name).2.files[(disk.create name).1]? = some [] ∧
      ∀ other, other ≠ name →
        (disk.create name).2.names other = disk.names other ∧
          (disk.create name).2.read other = disk.read other := by
  unfold create
  cases named : disk.names name with
  | some file =>
      have bound := separate.present name file named
      refine ⟨⟨fun other number leads => ?_, separate.apart⟩, named, ?_, fun other different => ?_⟩
      · dsimp only
        rw [List.length_set]
        exact separate.present other number leads
      · dsimp only
        rw [List.getElem?_set_self bound]
      · refine ⟨rfl, ?_⟩
        unfold read
        dsimp only
        cases leads : disk.names other with
        | none => rfl
        | some number =>
            have elsewhere : file ≠ number := by
              rintro rfl
              exact different (separate.apart other name file leads named)
            rw [Option.bind_some, Option.bind_some, List.getElem?_set_ne elsewhere]
  | none =>
      dsimp only
      have elsewhere : ∀ other number, disk.names other = some number →
          number ≠ disk.files.length := fun other number leads =>
        Nat.ne_of_lt (separate.present other number leads)
      refine ⟨⟨fun other number leads => ?_, fun one other number leads also => ?_⟩, ?_, ?_,
        fun other different => ?_⟩
      · dsimp only at leads ⊢
        rw [List.length_append, List.length_singleton]
        by_cases here : other = name
        · rw [here, Function.update_self] at leads
          cases leads
          exact Nat.lt_succ_self _
        · rw [Function.update_of_ne here] at leads
          exact Nat.lt_succ_of_lt (separate.present other number leads)
      · dsimp only at leads also
        by_cases here : one = name
        · by_cases there : other = name
          · rw [here, there]
          · rw [here, Function.update_self] at leads
            rw [Function.update_of_ne there] at also
            cases leads
            exact absurd rfl (elsewhere other _ also)
        · by_cases there : other = name
          · rw [there, Function.update_self] at also
            rw [Function.update_of_ne here] at leads
            cases also
            exact absurd rfl (elsewhere one _ leads)
          · rw [Function.update_of_ne here] at leads
            rw [Function.update_of_ne there] at also
            exact separate.apart one other number leads also
      · exact Function.update_self ..
      · rw [List.getElem?_append_right (Nat.le_refl _), Nat.sub_self]
        rfl
      · refine ⟨Function.update_of_ne different .., ?_⟩
        unfold read
        dsimp only
        rw [Function.update_of_ne different]
        cases leads : disk.names other with
        | none => rfl
        | some number =>
            rw [Option.bind_some, Option.bind_some,
              List.getElem?_append_left (separate.present other number leads)]

end Creating

section Writing

theorem Separate.write (separate : disk.Separate) (offset : Nat) (bytes : List Byte) :
    (disk.write zero file offset bytes).Separate := by
  refine ⟨fun name number leads => ?_, separate.apart⟩
  have bound := separate.present name number leads
  unfold Disk.write
  dsimp only
  rwa [List.length_modify]

/-- Writing changes only the open file. -/
theorem read_write_of_ne (elsewhere : disk.names other ≠ some file) :
    (disk.write zero file offset bytes).read other = disk.read other := by
  unfold write read
  dsimp only
  cases leads : disk.names other with
  | none => rfl
  | some number =>
      have different : file ≠ number := by
        rintro rfl
        exact elsewhere leads
      rw [Option.bind_some, Option.bind_some, List.getElem?_modify_ne _ _ different]

/-- Writing at the end of the open file appends. -/
theorem files_write_end (present : disk.files[file]? = some content) :
    (disk.write zero file content.length bytes).files[file]? = some (content ++ bytes) := by
  unfold write
  dsimp only
  rw [List.getElem?_modify_eq, present]
  exact congrArg some (overwrite_end bytes content)

end Writing

section Renaming

variable [DecidableEq Name]

/-- A renamed file is what the new name leads to, and the old name is gone. -/
theorem rename_spec (separate : disk.Separate) {source target : Name}
    (different : target ≠ source) (named : disk.names source = some file) :
    ∃ renamed, disk.rename source target = some renamed ∧ renamed.Separate ∧
      renamed.names source = none ∧ renamed.names target = some file ∧
      renamed.files = disk.files := by
  refine ⟨_, congrArg (Option.map _) named, ⟨fun name number leads => ?_,
    fun one other number leads also => ?_⟩, Function.update_self .., ?_, rfl⟩
  · dsimp only at leads ⊢
    by_cases here : name = source
    · rw [here, Function.update_self] at leads
      cases leads
    · rw [Function.update_of_ne here] at leads
      by_cases there : name = target
      · rw [there, Function.update_self] at leads
        cases leads
        exact separate.present source file named
      · rw [Function.update_of_ne there] at leads
        exact separate.present name number leads
  · dsimp only at leads also
    have places : ∀ name number, Function.update
        (Function.update disk.names target (some file)) source none name = some number →
        name = target ∧ number = file ∨
          name ≠ source ∧ name ≠ target ∧ disk.names name = some number := by
      intro name number leads
      by_cases here : name = source
      · rw [here, Function.update_self] at leads
        cases leads
      · rw [Function.update_of_ne here] at leads
        by_cases there : name = target
        · rw [there, Function.update_self] at leads
          cases leads
          exact .inl ⟨there, rfl⟩
        · rw [Function.update_of_ne there] at leads
          exact .inr ⟨here, there, leads⟩
    rcases places one number leads with ⟨rfl, rfl⟩ | ⟨here, -, first⟩
    · rcases places other number also with ⟨rfl, -⟩ | ⟨there, -, second⟩
      · rfl
      · exact absurd (separate.apart other source number second named) there
    · rcases places other number also with ⟨rfl, rfl⟩ | ⟨-, -, second⟩
      · exact absurd (separate.apart one source number first named) here
      · exact separate.apart one other number first second
  · dsimp only
    rw [Function.update_of_ne different, Function.update_self]

end Renaming

end Disk

end Storage
