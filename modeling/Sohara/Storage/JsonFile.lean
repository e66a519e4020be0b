import Sohara.Core.Control
import Sohara.Storage.Disk
import Sohara.Transition.Calls
import Sohara.Transition.Runs

/-! # The JSON file store

Every call that changes the store updates the map under its lock, serializes the map under
the lock, and then, without the lock, writes the text to a temporary file and renames it.
All calls of a store use the same temporary file. Only when they do not write at the same
time, and rename in the order in which they serialized, does the file always have what the
calls that have returned have made of it.
-/

namespace Sohara

open Storage Transition

/-- How the entries of a map are written as text: what was written is read back as the map
with these entries. -/
structure EntriesCodec (Byte : Type) where
  zero : Byte
  write : List (String × Value) → List Byte
  read : List Byte → Option (Assoc Value)
  read_write : ∀ entries, ∃ map, read (write entries) = some map ∧
    ∀ key, map.get? key = (Assoc.ofList entries).get? key

/-- The names that a store uses. -/
inductive StoreName where
  | path
  | tmp
  deriving DecidableEq, Repr

/-- How far a call is. -/
inductive WritePhase (Byte : Type) where
  | begun
  /-- The map is updated. -/
  | updated
  /-- The map is serialized. -/
  | serialized (data : List Byte)
  /-- The temporary file is open, and so much of the text is written. -/
  | writing (file written : Nat) (data : List Byte)
  | returned (ok : Bool)
  deriving DecidableEq, Repr

/-- Whether the call has the temporary file open. -/
def WritePhase.isWriting {Byte : Type} : WritePhase Byte → Bool
  | .writing _ _ _ => true
  | _ => false

/-- A call of the store: it saves a value under a key, or deletes the key. -/
structure StoreCall (Byte : Type) where
  key : String
  value : Option Value
  phase : WritePhase Byte := .begun
  /-- How many changes of the map came before that of the call. -/
  position : Nat := 0
  /-- How many changes of the map its text has. -/
  snapshot : Nat := 0

/-- A store, its files, and the calls made so far. -/
structure JsonFile (Byte : Type) where
  disk : Disk StoreName Byte
  /-- The entries with which the store was opened. -/
  opened : Assoc Value
  entries : Assoc Value
  calls : List (StoreCall Byte) := []
  /-- The changes of the map so far. -/
  changes : List (String × Option Value) := []

/-- What can happen to a store. -/
inductive StoreEvent where
  | begin (key : String) (value : Option Value)
  | update (number : Nat)
  | serialize (number : Nat) (hash : HashOrder)
  /-- Opens the temporary file. -/
  | create (number : Nat)
  /-- Writes some more of the text. -/
  | write (number count : Nat)
  | rename (number : Nat)
  /-- An operation on the files fails. -/
  | fail (number : Nat)

namespace JsonFile

variable {Byte : Type}

section Definitions

/-- A disk with the files of a store, where they exist. -/
def diskOf (file tmp : Option (List Byte)) : Disk StoreName Byte where
  files := file.toList ++ tmp.toList
  names
    | .path => file.map fun _ => 0
    | .tmp => tmp.map fun _ => file.toList.length

/-- The entries that opening the store finds; a file that is missing or unreadable counts
as empty. -/
def reopen (codec : EntriesCodec Byte) (disk : Disk StoreName Byte) : Assoc Value :=
  ((disk.read .path).bind codec.read).getD []

/-- A store that has just been opened. -/
def new (codec : EntriesCodec Byte) (file tmp : Option (List Byte)) : JsonFile Byte where
  disk := diskOf file tmp
  opened := reopen codec (diskOf file tmp)
  entries := reopen codec (diskOf file tmp)

/-- The map after a change. -/
def change (entries : Assoc Value) (changed : String × Option Value) : Assoc Value :=
  match changed.2 with
  | some value => entries.insert changed.1 value
  | none => entries.erase changed.1

/-- The map after the first changes. -/
def after (count : Nat) (store : JsonFile Byte) : Assoc Value :=
  (store.changes.take count).foldl change store.opened

/-- The call goes on. -/
def advance (number : Nat) (call : StoreCall Byte) (store : JsonFile Byte) : JsonFile Byte :=
  { store with calls := store.calls.set number call }

/-- The store after an event, if the event can happen. -/
def step (codec : EntriesCodec Byte) (event : StoreEvent) (store : JsonFile Byte) :
    Option (JsonFile Byte) :=
  match event with
  | .begin key value => some { store with calls := store.calls ++ [{ key := key, value := value }] }
  | .update number => do
      let call ← store.calls[number]?
      match call.phase with
      | .begun =>
          some { store.advance number { call with
              phase := .updated
              position := store.changes.length } with
            entries := change store.entries (call.key, call.value)
            changes := store.changes ++ [(call.key, call.value)] }
      | _ => none
  | .serialize number hash => do
      let call ← store.calls[number]?
      match call.phase with
      | .updated =>
          some (store.advance number { call with
            phase := .serialized (codec.write (store.entries.listing hash))
            snapshot := store.changes.length })
      | _ => none
  | .create number => do
      let call ← store.calls[number]?
      match call.phase with
      | .serialized data =>
          let (file, disk) := store.disk.create .tmp
          some { store.advance number { call with phase := .writing file 0 data } with
            disk := disk }
      | _ => none
  | .write number count => do
      let call ← store.calls[number]?
      match call.phase with
      | .writing file written data =>
          if written + count ≤ data.length then
            let bytes := (data.drop written).take count
            some { store.advance number { call with
                phase := .writing file (written + count) data } with
              disk := store.disk.write codec.zero file written bytes }
          else none
      | _ => none
  | .rename number => do
      let call ← store.calls[number]?
      match call.phase with
      | .writing _ written data =>
          if written = data.length then
            match store.disk.rename .tmp .path with
            | some disk =>
                some { store.advance number { call with phase := .returned true } with
                  disk := disk }
            | none => some (store.advance number { call with phase := .returned false })
          else none
      | _ => none
  | .fail number => do
      let call ← store.calls[number]?
      match call.phase with
      | .begun | .returned _ => none
      | _ => some (store.advance number { call with phase := .returned false })

/-- **What reopening the file finds** is what the first so many changes have made, and
these include the changes of all calls that have returned successfully; and the file is
readable once there is one. -/
structure Covers (codec : EntriesCodec Byte) (store : JsonFile Byte) (count : Nat) : Prop where
  holds : ∀ key, (reopen codec store.disk).get? key = (store.after count).get? key
  readable : 0 < count → ∃ text, store.disk.read .path = some text ∧
    (codec.read text).isSome = true
  returned : ∀ (number : Nat) (call : StoreCall Byte), store.calls[number]? = some call →
    call.phase = .returned true → call.position < count

/-- The file is never behind the calls that have returned, and never goes back. -/
def Safe (codec : EntriesCodec Byte) (moment : Moment StoreEvent (JsonFile Byte)) : Prop :=
  ∃ earlier later, earlier ≤ later ∧ Covers codec moment.before earlier ∧
    Covers codec moment.after later

/-- No call opens the temporary file while another has it open. -/
def Exclusive (moment : Moment StoreEvent (JsonFile Byte)) : Prop :=
  ∀ number, moment.event = .create number → ∀ (other : Nat) (call : StoreCall Byte),
    moment.before.calls[other]? = some call → call.phase.isWriting = false

/-- A call that renames has serialized no earlier than those that have renamed before. -/
def InOrder (moment : Moment StoreEvent (JsonFile Byte)) : Prop :=
  ∀ (number : Nat) (call : StoreCall Byte), moment.event = .rename number →
    moment.before.calls[number]? = some call →
      ∀ (other : Nat) (done : StoreCall Byte), moment.before.calls[other]? = some done →
        done.phase = .returned true → done.snapshot ≤ call.snapshot

end Definitions

variable {codec : EntriesCodec Byte} {store next last : JsonFile Byte} {event : StoreEvent}
  {call changed : StoreCall Byte} {number count : Nat}

section Maps

/-- Later changes leave what the first ones have made. -/
theorem after_of_grows (grows : store.changes <+: next.changes)
    (opened : next.opened = store.opened) (bound : count ≤ store.changes.length) :
    next.after count = store.after count := by
  obtain ⟨more, same⟩ := grows
  unfold after
  rw [← same, opened, List.take_append_of_le_length bound]

/-- A text that is read back as a map. -/
def Represents (codec : EntriesCodec Byte) (data : List Byte) (map : Assoc Value) : Prop :=
  ∃ found, codec.read data = some found ∧ ∀ key, found.get? key = map.get? key

end Maps

section Invariant

/-- The text of a call has its own change, and no more than there are. -/
def Placed (store : JsonFile Byte) (call : StoreCall Byte) : Prop :=
  call.position < call.snapshot ∧ call.snapshot ≤ store.changes.length

/-- What holds of a call, as far as it is. -/
def CallSound (codec : EntriesCodec Byte) (store : JsonFile Byte) (call : StoreCall Byte) :
    Prop :=
  match call.phase with
  | .begun => True
  | .updated => call.position < store.changes.length
  | .serialized data => Placed store call ∧ Represents codec data (store.after call.snapshot)
  | .writing file written data =>
      Placed store call ∧ Represents codec data (store.after call.snapshot) ∧
        store.disk.names .tmp = some file ∧
        store.disk.files[file]? = some (data.take written) ∧ written ≤ data.length
  | .returned true => Placed store call
  | .returned false => True

/-- What holds of a store whose calls write one after the other. -/
structure Sound (codec : EntriesCodec Byte) (store : JsonFile Byte) : Prop where
  separate : store.disk.Separate
  entries : store.entries = store.changes.foldl change store.opened
  calls : ∀ (number : Nat) (call : StoreCall Byte), store.calls[number]? = some call →
    CallSound codec store call
  alone : ∀ (number : Nat) (call : StoreCall Byte), store.calls[number]? = some call →
    call.phase.isWriting = true →
      ∀ (other : Nat) (found : StoreCall Byte), store.calls[other]? = some found →
        found.phase.isWriting = true → number = other

/-- The file has what the first so many changes have made, as the newest call to return has
written it. -/
structure Covered (codec : EntriesCodec Byte) (store : JsonFile Byte) (count : Nat) : Prop where
  bound : count ≤ store.changes.length
  holds : ∀ key, (reopen codec store.disk).get? key = (store.after count).get? key
  readable : 0 < count → ∃ text, store.disk.read .path = some text ∧
    (codec.read text).isSome = true
  returned : ∀ (number : Nat) (call : StoreCall Byte), store.calls[number]? = some call →
    call.phase = .returned true → call.position < call.snapshot ∧ call.snapshot ≤ count
  newest : count = 0 ∨ ∃ (number : Nat) (call : StoreCall Byte), store.calls[number]? = some call ∧
    call.phase = .returned true ∧ call.snapshot = count

theorem Covered.covers (covered : Covered codec store count) : Covers codec store count := by
  refine ⟨covered.holds, covered.readable, fun number call present returned => ?_⟩
  obtain ⟨own, covers⟩ := covered.returned number call present returned
  exact Nat.lt_of_lt_of_le own covers

/-- A file that covers all changes has what they have made. -/
theorem Covers.holds_of_length_le {total : Nat} (covers : Covers codec store count)
    (changes : store.changes.length = total) (whole : total ≤ count) (key : String) :
    (reopen codec store.disk).get? key =
      (store.changes.foldl change store.opened).get? key := by
  rw [covers.holds key]
  unfold after
  rw [List.take_of_length_le (changes ▸ whole)]

/-- A call keeps its place when the map changes, and when others use the disk. -/
theorem CallSound.keep (sound : CallSound codec store call)
    (grows : store.changes <+: next.changes) (opened : next.opened = store.opened)
    (disk : call.phase.isWriting = true → next.disk = store.disk) :
    CallSound codec next call := by
  have longer := grows.length_le
  have placed : Placed store call → Placed next call := fun placed =>
    ⟨placed.1, Nat.le_trans placed.2 longer⟩
  unfold CallSound at *
  split at sound
  · trivial
  · exact Nat.lt_of_lt_of_le sound longer
  · obtain ⟨own, text⟩ := sound
    rw [after_of_grows grows opened own.2]
    exact ⟨placed own, text⟩
  · next writing =>
    obtain ⟨own, text, place⟩ := sound
    rw [after_of_grows grows opened own.2, disk (by rw [writing]; rfl)]
    exact ⟨placed own, text, place⟩
  · exact placed sound
  · trivial

/-- The file covers what it did, when it is left alone and no call returns. -/
theorem Covered.keep (covered : Covered codec store count)
    (grows : store.changes <+: next.changes) (opened : next.opened = store.opened)
    (read : next.disk.read .path = store.disk.read .path)
    (done : ∀ (number : Nat) (call : StoreCall Byte), call.phase = .returned true →
      (next.calls[number]? = some call ↔ store.calls[number]? = some call)) :
    Covered codec next count := by
  obtain ⟨bound, holds, readable, returned, newest⟩ := covered
  constructor
  · exact Nat.le_trans bound grows.length_le
  · intro key
    rw [after_of_grows grows opened bound, ← holds key]
    unfold reopen
    rw [read]
  · rw [read]
    exact readable
  · exact fun number call present ended =>
      returned number call ((done number call ended).mp present) ended
  · refine newest.imp id fun ⟨number, call, present, ended, same⟩ => ?_
    exact ⟨number, call, (done number call ended).mpr present, ended, same⟩

/-- A call that goes on without returning leaves those that have returned. -/
theorem done_advance (present : store.calls[number]? = some call)
    (before : call.phase ≠ .returned true) (now : changed.phase ≠ .returned true) :
    ∀ (other : Nat) (found : StoreCall Byte), found.phase = .returned true →
      ((store.calls.set number changed)[other]? = some found ↔
        store.calls[other]? = some found) := by
  intro other found ended
  rw [getElem?_set_of_some present]
  by_cases same : number = other
  · subst same
    rw [if_pos rfl, present]
    constructor
    · intro equal
      cases equal
      exact absurd ended now
    · intro equal
      cases equal
      exact absurd ended before
  · rw [if_neg same]

/-- A new call leaves those that have returned. -/
theorem done_append (new : call.phase ≠ .returned true) (other : Nat) (found : StoreCall Byte)
    (ended : found.phase = .returned true) :
    (store.calls ++ [call])[other]? = some found ↔ store.calls[other]? = some found := by
  constructor
  · intro present
    exact @forall_append _ store.calls call
      (fun number found => found.phase = .returned true → store.calls[number]? = some found)
      (fun ended => absurd ended new) (fun _ _ there _ => there) other found present ended
  · intro present
    rw [List.getElem?_append_left (List.getElem?_eq_some_iff.mp present).1]
    exact present

/-- One call goes on, alone on the disk if it uses it. -/
theorem Sound.moved (sound : Sound codec store) (present : store.calls[number]? = some call)
    (calls : next.calls = store.calls.set number changed)
    (grows : store.changes <+: next.changes) (opened : next.opened = store.opened)
    (separate : next.disk.Separate)
    (entries : next.entries = next.changes.foldl change next.opened)
    (own : CallSound codec next changed)
    (others : changed.phase.isWriting = true ∨ next.disk ≠ store.disk →
      ∀ (other : Nat) (found : StoreCall Byte), number ≠ other →
        store.calls[other]? = some found → found.phase.isWriting = false) :
    Sound codec next := by
  refine ⟨separate, entries, ?_, ?_⟩
  · rw [calls]
    refine forall_set present own fun other found different there => ?_
    refine (sound.calls other found there).keep grows opened fun writing => ?_
    by_contra moved
    rw [others (.inr moved) other found different there] at writing
    cases writing
  · rw [calls]
    refine forall_set present (fun writing => ?_) fun other found different there writing => ?_
    · refine forall_set present (fun _ => rfl) fun other found different there also => ?_
      rw [others (.inl writing) other found different there] at also
      cases also
    · refine forall_set present (fun also => ?_) fun third third' _ present =>
        sound.alone other found there writing third third' present
      rw [others (.inl also) other found different there] at writing
      cases writing

/-- A call goes on without returning successfully, and the file keeps what it has. -/
theorem Sound.going (sound : Sound codec store) (covered : Covered codec store count)
    (present : store.calls[number]? = some call)
    (calls : next.calls = store.calls.set number changed)
    (before : call.phase ≠ .returned true) (now : changed.phase ≠ .returned true)
    (grows : store.changes <+: next.changes) (opened : next.opened = store.opened)
    (separate : next.disk.Separate) (read : next.disk.read .path = store.disk.read .path)
    (entries : next.entries = next.changes.foldl change next.opened)
    (own : CallSound codec next changed)
    (others : changed.phase.isWriting = true ∨ next.disk ≠ store.disk →
      ∀ (other : Nat) (found : StoreCall Byte), number ≠ other →
        store.calls[other]? = some found → found.phase.isWriting = false) :
    ∃ later, count ≤ later ∧ Sound codec next ∧ Covered codec next later := by
  refine ⟨count, Nat.le_refl _, sound.moved present calls grows opened separate entries own others,
    covered.keep grows opened read ?_⟩
  rw [calls]
  exact done_advance present before now

/-- While a call writes, no other does. -/
theorem Sound.others (sound : Sound codec store) (present : store.calls[number]? = some call)
    (writing : call.phase.isWriting = true) (other : Nat) (found : StoreCall Byte)
    (different : number ≠ other) (there : store.calls[other]? = some found) :
    found.phase.isWriting = false := by
  by_contra also
  exact different (sound.alone number call present writing other found there
    (Bool.not_eq_false _ ▸ also))

/-- The temporary file is opened by one call at a time. -/
theorem Sound.create (sound : Sound codec store) (covered : Covered codec store count)
    (present : store.calls[number]? = some call) {data : List Byte}
    (serialized : call.phase = .serialized data)
    (exclusive : ∀ (other : Nat) (found : StoreCall Byte), store.calls[other]? = some found →
      found.phase.isWriting = false) :
    let opened := store.disk.create .tmp
    let next := { store.advance number { call with phase := .writing opened.1 0 data } with
      disk := opened.2 }
    ∃ later, count ≤ later ∧ Sound codec next ∧ Covered codec next later := by
  have own := sound.calls number call present
  unfold CallSound at own
  rw [serialized] at own
  obtain ⟨separate, named, empty, elsewhere⟩ :=
    @Disk.create_spec _ _ store.disk StoreName.tmp _ sound.separate
  refine sound.going covered present rfl ?_ (fun ended => nomatch ended) (List.prefix_refl _) rfl
    separate (elsewhere .path (by decide)).2 sound.entries ?_ ?_
  · rw [serialized]
    exact fun ended => nomatch ended
  · exact ⟨own.1, own.2, named, empty, Nat.zero_le _⟩
  · exact fun _ other found _ there => exclusive other found there

/-- Some more of a text is written. -/
theorem Sound.write (sound : Sound codec store) (covered : Covered codec store count)
    (present : store.calls[number]? = some call) {file written amount : Nat} {data : List Byte}
    (writing : call.phase = .writing file written data)
    (fits : written + amount ≤ data.length) :
    let next := { store.advance number { call with
        phase := .writing file (written + amount) data } with
      disk := store.disk.write codec.zero file written ((data.drop written).take amount) }
    ∃ later, count ≤ later ∧ Sound codec next ∧ Covered codec next later := by
  have own := sound.calls number call present
  unfold CallSound at own
  rw [writing] at own
  obtain ⟨placed, text, named, content, -⟩ := own
  have length : (data.take written).length = written :=
    List.length_take_of_le (Nat.le_trans (Nat.le_add_right _ _) fits)
  have wrote := @Disk.files_write_end _ _ _ _ codec.zero ((data.drop written).take amount)
    _ content
  rw [length, ← List.take_add] at wrote
  refine sound.going covered present rfl ?_ (fun ended => nomatch ended) (List.prefix_refl _) rfl
    (sound.separate.write _ _) (Disk.read_write_of_ne ?_) sound.entries ?_ ?_
  · rw [writing]
    exact fun ended => nomatch ended
  · intro leads
    cases sound.separate.apart _ _ _ leads named
  · exact ⟨placed, text, named, wrote, fits⟩
  · exact fun _ => sound.others present (by rw [writing]; rfl)

/-- The whole text is put in place, and the call returns. -/
theorem Sound.rename (sound : Sound codec store) (covered : Covered codec store count)
    (present : store.calls[number]? = some call) {file : Nat} {data : List Byte}
    (writing : call.phase = .writing file data.length data)
    (inOrder : ∀ (other : Nat) (done : StoreCall Byte), store.calls[other]? = some done →
      done.phase = .returned true → done.snapshot ≤ call.snapshot) :
    ∃ disk, store.disk.rename .tmp .path = some disk ∧
      let next := { store.advance number { call with phase := .returned true } with disk := disk }
      ∃ later, count ≤ later ∧ Sound codec next ∧ Covered codec next later := by
  have own := sound.calls number call present
  unfold CallSound at own
  rw [writing] at own
  obtain ⟨placed, ⟨found, back, same⟩, named, content, -⟩ := own
  obtain ⟨disk, renamed, separate, -, leads, files⟩ :=
    @Disk.rename_spec _ _ _ _ _ sound.separate StoreName.tmp StoreName.path (by decide) named
  have read : disk.read .path = some data := by
    rw [Disk.read_eq leads, files, content, List.take_length]
  refine ⟨disk, renamed, call.snapshot, ?_, ?_, placed.2, ?_, ?_, ?_, ?_⟩
  · rcases covered.newest with none_ | ⟨other, done, there, ended, newest⟩
    · rw [none_]
      exact Nat.zero_le _
    · rw [← newest]
      exact inOrder other done there ended
  · exact sound.moved present rfl (List.prefix_refl _) rfl separate sound.entries placed
      fun _ => sound.others present (by rw [writing]; rfl)
  · intro key
    unfold reopen
    dsimp only
    rw [read, Option.bind_some, back]
    exact same key
  · exact fun _ => ⟨data, read, by rw [back]; rfl⟩
  · refine forall_set present (fun _ => ⟨placed.1, Nat.le_refl _⟩) ?_
    intro other found different there ended
    exact ⟨(covered.returned other found there ended).1, inOrder other found there ended⟩
  · refine .inr ⟨number, { call with phase := .returned true }, ?_, rfl, rfl⟩
    exact (getElem?_set_of_some present _ _).trans (if_pos rfl)

/-- **One step** of a store whose calls write one after the other, in order. -/
theorem Sound.step (sound : Sound codec store) (covered : Covered codec store count)
    (stepped : store.step codec event = some next) (exclusive : Exclusive ⟨store, event, next⟩)
    (inOrder : InOrder ⟨store, event, next⟩) :
    ∃ later, count ≤ later ∧ Sound codec next ∧ Covered codec next later := by
  cases event with
  | begin key value =>
      cases stepped
      refine ⟨count, Nat.le_refl _, ⟨sound.separate, sound.entries, ?_, ?_⟩, ?_⟩
      · exact forall_append trivial fun other found there =>
          (sound.calls other found there).keep (List.prefix_refl _) rfl fun _ => rfl
      · refine forall_append (fun writing => nomatch writing) fun other found there writing => ?_
        exact forall_append (fun also => nomatch also) (sound.alone other found there writing)
      · exact covered.keep (List.prefix_refl _) rfl rfl (done_append (fun ended => nomatch ended))
  | update number =>
      obtain ⟨call, present, stepped⟩ := Option.bind_eq_some_iff.mp stepped
      split at stepped
      · next begun =>
        cases stepped
        refine sound.going covered present rfl ?_ (fun ended => nomatch ended)
          (List.prefix_append _ _) rfl sound.separate rfl ?_ ?_ ?_
        · rw [begun]
          exact fun ended => nomatch ended
        · dsimp only
          rw [List.foldl_append, sound.entries]
          rfl
        · change store.changes.length < (store.changes ++ [(call.key, call.value)]).length
          rw [List.length_append]
          exact Nat.lt_succ_self _
        · rintro (writing | moved)
          · cases writing
          · exact absurd rfl moved
      · cases stepped
  | serialize number hash =>
      obtain ⟨call, present, stepped⟩ := Option.bind_eq_some_iff.mp stepped
      split at stepped
      · next updated =>
        cases stepped
        have own := sound.calls number call present
        unfold CallSound at own
        rw [updated] at own
        refine sound.going covered present rfl ?_ (fun ended => nomatch ended)
          (List.prefix_refl _) rfl sound.separate rfl sound.entries ⟨⟨own, Nat.le_refl _⟩, ?_⟩ ?_
        · rw [updated]
          exact fun ended => nomatch ended
        · obtain ⟨found, back, same⟩ := codec.read_write (store.entries.listing hash)
          refine ⟨found, back, fun key => ?_⟩
          rw [same, Assoc.get?_listing, sound.entries]
          unfold after advance
          dsimp only
          rw [List.take_length]
        · rintro (writing | moved)
          · cases writing
          · exact absurd rfl moved
      · cases stepped
  | create number =>
      obtain ⟨call, present, stepped⟩ := Option.bind_eq_some_iff.mp stepped
      split at stepped
      · next data serialized =>
        cases stepped
        exact sound.create covered present serialized (exclusive number rfl)
      · cases stepped
  | write number amount =>
      obtain ⟨call, present, stepped⟩ := Option.bind_eq_some_iff.mp stepped
      split at stepped
      · next file written data writing =>
        by_cases fits : written + amount ≤ data.length
        · rw [if_pos fits] at stepped
          cases stepped
          exact sound.write covered present writing fits
        · rw [if_neg fits] at stepped
          cases stepped
      · cases stepped
  | rename number =>
      obtain ⟨call, present, stepped⟩ := Option.bind_eq_some_iff.mp stepped
      split at stepped
      · next file written data writing =>
        by_cases whole : written = data.length
        · subst whole
          obtain ⟨disk, renamed, kept⟩ :=
            sound.rename covered present writing (inOrder number call rfl present)
          rw [if_pos rfl, renamed] at stepped
          cases stepped
          exact kept
        · rw [if_neg whole] at stepped
          cases stepped
      · cases stepped
  | fail number =>
      obtain ⟨call, present, stepped⟩ := Option.bind_eq_some_iff.mp stepped
      split at stepped
      · cases stepped
      · cases stepped
      · next began returned =>
        cases stepped
        refine sound.going covered present rfl (returned true) (fun ended => nomatch ended)
          (List.prefix_refl _) rfl sound.separate rfl sound.entries trivial ?_
        rintro (writing | moved)
        · cases writing
        · exact absurd rfl moved

end Invariant

section Runs

variable {moments : List (Moment StoreEvent (JsonFile Byte))}

theorem separate_diskOf (file tmp : Option (List Byte)) : (diskOf file tmp).Separate := by
  cases file <;> cases tmp
  all_goals
    refine ⟨fun name number leads => ?_, fun name other number leads also => ?_⟩
    · cases name <;> cases leads <;> simp [diskOf]
    · cases name <;> cases other <;> cases leads <;> cases also <;> rfl

theorem sound_new (codec : EntriesCodec Byte) (file tmp : Option (List Byte)) :
    Sound codec (new codec file tmp) ∧ Covered codec (new codec file tmp) 0 := by
  constructor
  · exact ⟨separate_diskOf file tmp, rfl, (fun _ _ present => nomatch present),
      (fun _ _ present => nomatch present)⟩
  · exact ⟨Nat.le_refl _, fun _ => rfl, (fun some_ => nomatch some_),
      (fun _ _ present => nomatch present), .inl rfl⟩

/-- **When the store survives a crash.** If no call opens the temporary file while another
has it open, and calls rename in the order in which they have serialized, then wherever the
run stops, reopening the file finds what the first so many changes have made, with those of
all calls that have returned successfully; and the file never goes back. -/
theorem covers_of_serial (codec : EntriesCodec Byte) (file tmp : Option (List Byte))
    (run : Run (step codec) (new codec file tmp) moments last)
    (exclusive : ∀ moment ∈ moments, Exclusive moment)
    (inOrder : ∀ moment ∈ moments, InOrder moment) :
    (∃ count, Covers codec last count) ∧ ∀ moment ∈ moments, Safe codec moment := by
  obtain ⟨sound, covered⟩ := sound_new codec file tmp
  obtain ⟨⟨count, -, ends⟩, each⟩ := @Run.guarded _ _ _ _ _ _
    (fun store => ∃ count, Sound codec store ∧ Covered codec store count)
    (fun moment => Exclusive moment ∧ InOrder moment) run ⟨0, sound, covered⟩
    (fun event before after ⟨count, sound, covered⟩ stepped allowed => by
      obtain ⟨later, -, kept⟩ := sound.step covered stepped allowed.1 allowed.2
      exact ⟨later, kept⟩)
    fun moment member => ⟨exclusive moment member, inOrder moment member⟩
  refine ⟨⟨count, ends.covers⟩, fun moment member => ?_⟩
  obtain ⟨stepped, ⟨earlier, sound, covered⟩, -⟩ := each moment member
  obtain ⟨later, grows, -, kept⟩ := sound.step covered stepped (exclusive moment member)
    (inOrder moment member)
  exact ⟨earlier, later, grows, covered.covers, kept.covers⟩

end Runs

end JsonFile

namespace Sample

open JsonFile

/-- Entries that are kept as they are, one to a byte. -/
def plainEntries : EntriesCodec (String × Value) where
  zero := ("", .null)
  write entries := entries
  read bytes := some (Assoc.ofList bytes)
  read_write _ := ⟨_, rfl, fun _ => rfl⟩

/-- Maps that are iterated in the order of insertion. -/
def storeOrder : HashOrder := ⟨fun elements => elements, fun _ => .refl _⟩

/-- A call writes a text of so many entries to the file. -/
def persistEvents (number count : Nat) : List StoreEvent :=
  [.create number, .write number count, .rename number]

/-- Two calls save one after the other. -/
def serialSaves : List StoreEvent :=
  [.begin "a" (some .null), .update 0, .serialize 0 storeOrder] ++ persistEvents 0 1 ++
    [.begin "b" (some .null), .update 1, .serialize 1 storeOrder] ++ persistEvents 1 2

/-- The first call has serialized the map when the second one changes it, and writes the
file after the second one has returned. -/
def staleSaves : List StoreEvent :=
  [.begin "a" (some .null), .begin "b" (some .null), .update 0, .serialize 0 storeOrder,
    .update 1, .serialize 1 storeOrder] ++ persistEvents 1 2 ++ persistEvents 0 1

theorem firstOnly {first found : StoreCall (String × Value)} {other : Nat}
    (there : [first][other]? = some found) : first = found :=
  (List.mem_singleton.mp (List.mem_of_getElem? there)).symm

theorem bothOnly {first second found : StoreCall (String × Value)} {other : Nat}
    (there : [first, second][other]? = some found) : found = first ∨ found = second := by
  simpa using List.mem_of_getElem? there

/-- Calls that follow each other leave the file safe. -/
theorem serialSaves_safe : ∃ moments last,
    Run (step plainEntries) (new plainEntries none none) moments last ∧
      ∀ moment ∈ moments, Safe plainEntries moment := by
  have played : play (step plainEntries) (new plainEntries none none) serialSaves =
    some (_, _) := rfl
  refine ⟨_, _, Run.nil.play played,
    (covers_of_serial plainEntries none none (Run.nil.play played) ?_ ?_).2⟩
  · intro moment member number here other call there
    simp only [List.nil_append, List.mem_cons, List.not_mem_nil, or_false] at member
    rcases member with
      rfl | rfl | rfl | rfl | rfl | rfl | rfl | rfl | rfl | rfl | rfl | rfl
    all_goals cases here
    · cases firstOnly there
      rfl
    · rcases bothOnly there with rfl | rfl <;> rfl
  · intro moment member number call here present other done there ended
    simp only [List.nil_append, List.mem_cons, List.not_mem_nil, or_false] at member
    rcases member with
      rfl | rfl | rfl | rfl | rfl | rfl | rfl | rfl | rfl | rfl | rfl | rfl
    all_goals cases here
    · cases firstOnly there
      cases ended
    · cases present
      rcases bothOnly there with rfl | rfl
      · decide
      · cases ended

/-- **An older text replaces a newer one**: the second call has returned successfully, and
its entry is not in the file. -/
theorem staleSaves_not_covered : ∃ moments last,
    Run (step plainEntries) (new plainEntries none none) moments last ∧
      last.calls.map (·.phase) = [.returned true, .returned true] ∧
      (reopen plainEntries last.disk).get? "b" = none ∧
      ¬ ∃ count, Covers plainEntries last count := by
  have played : play (step plainEntries) (new plainEntries none none) staleSaves =
    some (_, _) := rfl
  refine ⟨_, _, Run.nil.play played, rfl, rfl, ?_⟩
  rintro ⟨count, covers⟩
  have later : 1 < count := covers.returned 1 _ rfl rfl
  have kept : none = some Value.null := covers.holds_of_length_le rfl later "b"
  cases kept

end Sample

end Sohara
