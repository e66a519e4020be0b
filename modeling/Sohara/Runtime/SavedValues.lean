import Sohara.Async.History
import Sohara.Runtime.World

/-! # Saved values

While nothing is deleted, a store holds under each key what has been saved there last, and a
store whose file can be written is as new as its file.
-/

namespace Sohara

open Async

section Definitions

/-- What the store of a process holds, which is nothing without a store. -/
def World.entries (world : World) : Entries := world.store.getD fun _ => none

/-- What is under a key after an operation. -/
def savedUnder (key : String) (op : Op) (last : Option Value) : Option Value :=
  match op with
  | .save other value => if other = key then some value else last
  | _ => last

/-- The last value saved under a key, or what was there before. -/
def lastSaved (key : String) (before : Option Value) (steps : List (Occurrence Engine World)) :
    Option Value :=
  steps.foldl (fun last step => savedUnder key step.op last) before

end Definitions

section Lists

variable {key : String} {before : Option Value} {steps more : List (Occurrence Engine World)}

theorem lastSaved_append : lastSaved key before (steps ++ more) =
    lastSaved key (lastSaved key before steps) more := List.foldl_append

/-- Without a save nothing changes. -/
theorem lastSaved_of_silent (silent : ∀ step ∈ steps, ∀ value, step.op ≠ .save key value) :
    lastSaved key before steps = before := by
  induction steps with
  | nil => rfl
  | cons step rest ih =>
      obtain ⟨here, later⟩ := List.forall_mem_cons.mp silent
      have same : savedUnder key step.op before = before := by
        cases performed : step.op with
        | save other value =>
            refine if_neg fun named => here value ?_
            rw [performed, named]
        | _ => rfl
      show lastSaved key (savedUnder key step.op before) rest = before
      rw [same]
      exact ih later

/-- What the last save has saved. -/
theorem lastSaved_of_last {step : Occurrence Engine World} {value : Value}
    (saves : step.op = .save key value)
    (silent : ∀ later ∈ more, ∀ value, later.op ≠ .save key value) :
    lastSaved key before (steps ++ step :: more) = some value := by
  rw [lastSaved_append]
  show lastSaved key (savedUnder key step.op (lastSaved key before steps)) more = _
  rw [lastSaved_of_silent silent, saves]
  exact if_pos rfl

end Lists

section Worlds

variable {host : Host} {world after : World} {steps : List (Occurrence Engine World)} {op : Op}

theorem World.entries_eq (key : String) :
    (world.store.bind fun entries => entries key) = world.entries key := by
  unfold World.entries
  cases world.store <;> rfl

theorem stored_eq_savedUnder (key : String) (entries : Entries)
    (kept : ∀ other, op ≠ .delete other) :
    World.stored op entries key = savedUnder key op (entries key) := by
  cases op with
  | save other value =>
      show Function.update entries other (some value) key =
        if other = key then some value else entries key
      by_cases same : other = key
      · rw [if_pos same, same, Function.update_self]
      · rw [if_neg same, Function.update_of_ne (Ne.symm same)]
  | delete other => exact absurd rfl (kept other)
  | _ => rfl

/-- A store stays configured. -/
theorem isSome_perform (present : world.store.isSome = true) (op : Op) :
    (World.perform host world op).2.store.isSome = true := by
  rw [World.perform_store, Option.isSome_map]
  exact present

/-- **The store of a run** holds what was saved last. -/
theorem entries_of_history (present : world.store.isSome = true)
    (history : History (World.perform host) world steps after)
    (kept : Permitted (S := Engine) (fun op => ∀ key, op ≠ .delete key) steps) :
    after.store.isSome = true ∧
      ∀ key, after.entries key = lastSaved key (world.entries key) steps := by
  induction history with
  | nil => exact ⟨present, fun _ => rfl⟩
  | @snoc steps between history task op ih =>
      obtain ⟨still, saved⟩ := ih fun step member => kept step (List.mem_append_left _ member)
      have last := kept _ (List.mem_append_right _ List.mem_cons_self)
      refine ⟨isSome_perform still op, fun key => ?_⟩
      rw [lastSaved_append, ← saved]
      obtain ⟨entries, held⟩ := Option.isSome_iff_exists.mp still
      have before : between.entries = entries := by
        unfold World.entries
        rw [held]
        rfl
      have now : (World.perform host between op).2.entries = World.stored op entries := by
        unfold World.entries
        rw [World.perform_store, held]
        rfl
      rw [now, before]
      exact stored_eq_savedUnder key entries last

/-- A store whose file can be written is as new as its file. -/
theorem synced_perform (working : ∀ time, host.persist time = .ok ())
    (synced : world.store = some world.file) (op : Op) :
    (World.perform host world op).2.store = some (World.perform host world op).2.file := by
  rw [World.perform_store, synced, World.perform_file host world working op fun _ _ => synced]
  rfl

theorem synced_of_history (working : ∀ time, host.persist time = .ok ())
    (synced : world.store = some world.file)
    (history : History (World.perform host) world steps after) :
    after.store = some after.file := by
  induction history with
  | nil => exact synced
  | snoc _ _ op ih => exact synced_perform working ih op

theorem entries_of_synced (synced : world.store = some world.file) :
    world.entries = world.file := by
  unfold World.entries
  rw [synced]
  rfl

end Worlds

end Sohara
