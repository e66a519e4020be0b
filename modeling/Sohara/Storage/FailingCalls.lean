import Sohara.Storage.JsonFile

/-! # Calls of the JSON file store that fail

A call that fails has left the file alone, but it has already changed the map. So the store
answers as before only when the call has asked for what was there already.
-/

namespace Sohara

open Storage Transition

/-- The call that an event is about. -/
def StoreEvent.call? : StoreEvent → Option Nat
  | .begin _ _ => none
  | .update number => some number
  | .serialize number _ => some number
  | .create number => some number
  | .write number _ => some number
  | .rename number => some number
  | .fail number => some number

namespace JsonFile

variable {Byte : Type}

/-- The value under a key. -/
def load (store : JsonFile Byte) (key : String) : Option Value := store.entries.get? key

/-- **Untouched**: every key is loaded as before, and reopening the file finds the same map. -/
structure Untouched (codec : EntriesCodec Byte) (before after : JsonFile Byte) : Prop where
  loads : ∀ key, after.load key = before.load key
  reopens : ∀ key, (reopen codec after.disk).get? key = (reopen codec before.disk).get? key

variable {codec : EntriesCodec Byte} {store state next last : JsonFile Byte} {event : StoreEvent}
  {call current : StoreCall Byte} {number : Nat}
  {moments : List (Moment StoreEvent (JsonFile Byte))}

theorem get?_change (entries : Assoc Value) (changed : String × Option Value) (key : String) :
    (change entries changed).get? key =
      if changed.1 = key then changed.2 else entries.get? key := by
  unfold change
  split
  · next value some_ => rw [Assoc.get?_insert, some_]
  · next none_ => rw [Assoc.get?_erase, none_]

/-- A change that asks for what is there changes nothing. -/
theorem change_untouched_iff (entries : Assoc Value) (changed : String × Option Value) :
    (∀ key, (change entries changed).get? key = entries.get? key) ↔
      entries.get? changed.1 = changed.2 := by
  constructor
  · intro same
    rw [← same, get?_change, if_pos rfl]
  · intro there key
    rw [get?_change]
    split
    · next here => rw [← here, there]
    · rfl

section Files

/-- Files stay separate, whatever the calls do. -/
theorem separate_step (separate : store.disk.Separate)
    (stepped : step codec event store = some next) : next.disk.Separate := by
  cases event with
  | begin =>
      cases stepped
      exact separate
  | update number | serialize number =>
      obtain ⟨call, present, stepped⟩ := Option.bind_eq_some_iff.mp stepped
      split at stepped
      · cases stepped
        exact separate
      · cases stepped
  | create number =>
      obtain ⟨call, present, stepped⟩ := Option.bind_eq_some_iff.mp stepped
      split at stepped
      · cases stepped
        exact (Disk.create_spec separate).1
      · cases stepped
  | write number count =>
      obtain ⟨call, present, stepped⟩ := Option.bind_eq_some_iff.mp stepped
      split at stepped
      · split at stepped
        · cases stepped
          exact separate.write _ _
        · cases stepped
      · cases stepped
  | rename number =>
      obtain ⟨call, present, stepped⟩ := Option.bind_eq_some_iff.mp stepped
      split at stepped
      · split at stepped
        · split at stepped
          · next disk renamed =>
            cases stepped
            obtain ⟨file, named, -⟩ := Option.map_eq_some_iff.mp renamed
            obtain ⟨other, same, kept, -⟩ :=
              @Disk.rename_spec _ _ _ _ _ separate StoreName.tmp StoreName.path (by decide) named
            cases renamed.symm.trans same
            exact kept
          · cases stepped
            exact separate
        · cases stepped
      · cases stepped
  | fail number =>
      obtain ⟨call, present, stepped⟩ := Option.bind_eq_some_iff.mp stepped
      split at stepped
      · cases stepped
      · cases stepped
      · cases stepped
        exact separate

theorem separate_of_run {file tmp : Option (List Byte)}
    (run : Run (step codec) (new codec file tmp) moments last) : last.disk.Separate :=
  (run.invariant (separate_diskOf file tmp)
    fun _ _ _ separate stepped => separate_step separate stepped).1

end Files

section Alone

/-- What a call has done so far, when no other call goes on: before its update nothing, and then
the map is changed, and the file is not unless the call has returned successfully. -/
def Done (store : JsonFile Byte) (call : StoreCall Byte) (state : JsonFile Byte) :
    WritePhase Byte → Prop
  | .begun => state.entries = store.entries ∧ state.disk.read .path = store.disk.read .path
  | .returned true => True
  | .writing file _ _ => state.entries = change store.entries (call.key, call.value) ∧
      state.disk.read .path = store.disk.read .path ∧ state.disk.names .tmp = some file
  | _ => state.entries = change store.entries (call.key, call.value) ∧
      state.disk.read .path = store.disk.read .path

/-- How far a call is, from the state in which it began, when no other call goes on. -/
structure Alone (store : JsonFile Byte) (number : Nat) (call : StoreCall Byte)
    (state : JsonFile Byte) : Prop where
  separate : state.disk.Separate
  current : ∃ current, state.calls[number]? = some current ∧ current.key = call.key ∧
    current.value = call.value ∧ Done store call state current.phase

theorem Alone.advance (separate : next.disk.Separate)
    (present : state.calls[number]? = some current) {phase : WritePhase Byte}
    {position snapshot : Nat} (key : current.key = call.key) (value : current.value = call.value)
    (calls : next.calls = state.calls.set number ⟨current.key, current.value, phase, position,
      snapshot⟩) (done : Done store call next phase) : Alone store number call next := by
  refine ⟨separate, ⟨current.key, current.value, phase, position, snapshot⟩, ?_, key, value, done⟩
  rw [calls]
  exact (getElem?_set_of_some present _ _).trans (if_pos rfl)

/-- **One step** of the call. -/
theorem Alone.step (alone : Alone store number call state)
    (stepped : JsonFile.step codec event state = some next) (own : event.call? = some number) :
    Alone store number call next := by
  have separate := separate_step alone.separate stepped
  obtain ⟨apart, current, present, key, value, done⟩ := alone
  cases event with
  | begin => cases own
  | update =>
      cases own
      obtain ⟨found, there, stepped⟩ := Option.bind_eq_some_iff.mp stepped
      cases present.symm.trans there
      split at stepped
      · next begun =>
        cases stepped
        rw [begun] at done
        refine .advance separate present key value rfl ⟨?_, done.2⟩
        dsimp only
        rw [done.1, key, value]
      · cases stepped
  | serialize _ hash =>
      cases own
      obtain ⟨found, there, stepped⟩ := Option.bind_eq_some_iff.mp stepped
      cases present.symm.trans there
      split at stepped
      · next updated =>
        cases stepped
        rw [updated] at done
        exact .advance separate present key value rfl done
      · cases stepped
  | create =>
      cases own
      obtain ⟨found, there, stepped⟩ := Option.bind_eq_some_iff.mp stepped
      cases present.symm.trans there
      split at stepped
      · next data serialized =>
        cases stepped
        rw [serialized] at done
        obtain ⟨-, named, -, elsewhere⟩ :=
          @Disk.create_spec _ _ state.disk StoreName.tmp _ apart
        exact .advance separate present key value rfl
          ⟨done.1, (elsewhere .path (by decide)).2.trans done.2, named⟩
      · cases stepped
  | write _ count =>
      cases own
      obtain ⟨found, there, stepped⟩ := Option.bind_eq_some_iff.mp stepped
      cases present.symm.trans there
      split at stepped
      · next file written data writing =>
        split at stepped
        · cases stepped
          rw [writing] at done
          obtain ⟨changed, read, named⟩ := done
          refine .advance separate present key value rfl
            ⟨changed, (Disk.read_write_of_ne fun leads => ?_).trans read, named⟩
          cases apart.apart _ _ _ leads named
        · cases stepped
      · cases stepped
  | rename =>
      cases own
      obtain ⟨found, there, stepped⟩ := Option.bind_eq_some_iff.mp stepped
      cases present.symm.trans there
      split at stepped
      · next file written data writing =>
        split at stepped
        · split at stepped
          · cases stepped
            exact .advance separate present key value rfl trivial
          · cases stepped
            rw [writing] at done
            exact .advance separate present key value rfl ⟨done.1, done.2.1⟩
        · cases stepped
      · cases stepped
  | fail =>
      cases own
      obtain ⟨found, there, stepped⟩ := Option.bind_eq_some_iff.mp stepped
      cases present.symm.trans there
      split at stepped
      · cases stepped
      · cases stepped
      · next begun returned =>
        cases stepped
        refine .advance separate present key value rfl ?_
        cases phase : current.phase with
        | begun => exact absurd phase begun
        | returned ok => exact absurd phase (returned ok)
        | updated | serialized =>
            rw [phase] at done
            exact done
        | writing =>
            rw [phase] at done
            exact ⟨done.1, done.2.1⟩

/-- **One call, run alone.** When it has failed, the map has its change and the file does not. -/
theorem done_of_failed {later : List (Moment StoreEvent (JsonFile Byte))}
    (separate : store.disk.Separate) (present : store.calls[number]? = some call)
    (begun : call.phase = .begun) (run : Run (JsonFile.step codec) store later last)
    (own : ∀ moment ∈ later, moment.event.call? = some number)
    (failed : ∃ ended, last.calls[number]? = some ended ∧ ended.phase = .returned false) :
    last.entries = change store.entries (call.key, call.value) ∧
      last.disk.read .path = store.disk.read .path := by
  have start : Alone store number call store :=
    ⟨separate, call, present, rfl, rfl, by rw [begun]; exact ⟨rfl, rfl⟩⟩
  have alone := (run.guarded start (fun _ _ _ alone stepped own => alone.step stepped own) own).1
  obtain ⟨current, there, -, -, done⟩ := alone.current
  obtain ⟨ended, here, phase⟩ := failed
  cases here.symm.trans there
  rw [phase] at done
  exact done

end Alone

/-- **When a failed call leaves the store as it was.** From every state that a store can reach,
a call that is run alone and fails leaves the file, and it leaves every key just in case it has
asked for what was there under its key. -/
theorem failed_call_iff (codec : EntriesCodec Byte) (file tmp : Option (List Byte))
    {earlier later : List (Moment StoreEvent (JsonFile Byte))}
    (reached : Run (step codec) (new codec file tmp) earlier store)
    (present : store.calls[number]? = some call) (begun : call.phase = .begun)
    (run : Run (step codec) store later last)
    (own : ∀ moment ∈ later, moment.event.call? = some number)
    (failed : ∃ ended, last.calls[number]? = some ended ∧ ended.phase = .returned false) :
    Untouched codec store last ↔ store.load call.key = call.value := by
  obtain ⟨entries, read⟩ :=
    done_of_failed (separate_of_run reached) present begun run own failed
  have loads : (∀ key, last.load key = store.load key) ↔ store.load call.key = call.value := by
    unfold load
    rw [entries]
    exact change_untouched_iff store.entries (call.key, call.value)
  constructor
  · exact fun untouched => loads.mp untouched.loads
  · intro same
    refine ⟨loads.mpr same, fun key => ?_⟩
    unfold reopen
    rw [read]

end JsonFile

namespace Sample

open JsonFile

/-- A store, opened on a file, in which a call is about to save a value. -/
def saving (file : Option (List (String × Value))) : JsonFile (String × Value) :=
  { new plainEntries file none with calls := [{ key := "a", value := some .null }] }

/-- The map is serialized, and the temporary file cannot be opened. -/
def failingSave : List StoreEvent := [.update 0, .serialize 0 storeOrder, .fail 0]

/-- The call has failed, and its value is loaded. -/
theorem failingSave_loaded : ∃ earlier later last,
    Run (step plainEntries) (new plainEntries none none) earlier (saving none) ∧
      Run (step plainEntries) (saving none) later last ∧
      last.calls.map (·.phase) = [.returned false] ∧ (saving none).load "a" = none ∧
      last.load "a" = some .null ∧ ¬ Untouched plainEntries (saving none) last := by
  have begun : play (step plainEntries) (new plainEntries none none) [.begin "a" (some .null)] =
    some (_, saving none) := rfl
  have played : play (step plainEntries) (saving none) failingSave = some (_, _) := rfl
  refine ⟨_, _, _, Run.nil.play begun, Run.nil.play played, rfl, rfl, rfl, fun same => ?_⟩
  have kept : some Value.null = none := same.loads "a"
  cases kept

/-- The value was there already. -/
theorem failingSave_untouched : ∃ later last,
    Run (step plainEntries) (saving (some [("a", .null)])) later last ∧
      last.calls.map (·.phase) = [.returned false] ∧
      Untouched plainEntries (saving (some [("a", .null)])) last := by
  have begun : play (step plainEntries) (new plainEntries (some [("a", .null)]) none)
    [.begin "a" (some .null)] = some (_, saving (some [("a", .null)])) := rfl
  have played : play (step plainEntries) (saving (some [("a", .null)])) failingSave =
    some (_, _) := rfl
  have present : (saving (some [("a", .null)])).calls[0]? =
    some { key := "a", value := some .null } := rfl
  refine ⟨_, _, Run.nil.play played, rfl, ?_⟩
  refine (failed_call_iff plainEntries (some [("a", .null)]) none (Run.nil.play begun) present rfl
    (Run.nil.play played) ?_ ⟨_, rfl, rfl⟩).mpr rfl
  intro moment member
  simp only [List.nil_append, List.mem_cons, List.not_mem_nil, or_false] at member
  rcases member with rfl | rfl | rfl <;> rfl

end Sample

end Sohara
