import Sohara.Async.BigStep
import Sohara.Runtime.Approving

/-! # Programs running alone

What a program that runs alone leaves in the approve queues of its flow: parking adds
to them, taking empties one of them, and everything else leaves them as they are.
-/

namespace Sohara

open Async Async.Program

variable {flow : String} {host : Host} {world after : World}
  {steps : List (Occurrence Engine World)}

/-- The results of a program running alone. -/
abbrev Yields (host : Host) {α : Type} (program : Prog α) (world : World)
    (steps : List (Occurrence Engine World)) (value : α) (after : World) : Prop :=
  Evaluates (S := Engine) walkCall (World.perform host) program world steps value after

section Operations

variable {β : Type} {result : β}

theorem yields_hasStore {rest : Bool → Prog β}
    (yields : Yields host (Perform.hasStore >>= rest) world steps result after) :
    ∃ more, steps = ⟨0, world, .hasStore⟩ :: more ∧
      Yields host (rest world.store.isSome) world more result after :=
  evaluates_op_bind yields

theorem yields_load {key : String} {rest : Except Error (Option Value) → Prog β}
    (yields : Yields host (Perform.load key >>= rest) world steps result after) :
    ∃ more, steps = ⟨0, world, .load key⟩ :: more ∧
      Yields host (rest (.ok (world.store.bind fun entries => entries key))) world more result
        after :=
  evaluates_op_bind yields

theorem yields_delete {key : String} {rest : Except Error Unit → Prog β}
    (yields : Yields host (Perform.delete key >>= rest) world steps result after) :
    ∃ more response, steps = ⟨0, world, .delete key⟩ :: more ∧
      Yields host (rest response) (World.perform host world (.delete key)).2 more result after := by
  obtain ⟨more, split, others⟩ := evaluates_op_bind yields
  exact ⟨more, _, split, others⟩

end Operations

/-- A queue has grown by what has been parked in it. -/
def GrowsAt (key : String) (world : World) (steps : List (Occurrence Engine World))
    (after : World) : Prop :=
  after.queue key = world.queue key ++ parkedAt (· = key) steps

/-- Every queue of the flow has grown by what has been parked in it. -/
def Grows (flow : String) (world : World) (steps : List (Occurrence Engine World))
    (after : World) : Prop :=
  ∀ key, isQueueKey flow key = true → GrowsAt key world steps after

namespace Parking

/-- The queues while a program runs alone without taking. -/
structure Alone (flow : String) (start : World) (steps : List (Occurrence Engine World))
    (world : World) (state : Parking) : Prop where
  stored : world.PlainStore flow
  grows : Grows flow start steps world
  current : ∀ key stored, state = .loaded key stored →
    Executor.queued stored = world.queue key

theorem Alone.start (stored : world.PlainStore flow) : Alone flow world [] world .idle :=
  ⟨stored, fun _ _ => (List.append_nil _).symm, fun _ _ same => nomatch same⟩

/-- Writes under other keys leave a queue as it is. -/
theorem GrowsAt.silent {start : World} {op : Op} {key : String}
    (grown : GrowsAt key start steps world) (silent : Op.writes key op = false) :
    GrowsAt key start (steps ++ [⟨0, world, op⟩]) (World.perform host world op).2 := by
  have parks : parkedAt (· = key) [(⟨0, world, op⟩ : Occurrence Engine World)] = [] := by
    refine parkedAt_of_not_writes fun other writes => ?_
    rw [decide_eq_false_iff_not]
    rintro rfl
    exact nomatch silent.symm.trans writes
  unfold GrowsAt at grown ⊢
  rw [World.queue_perform silent, grown, parkedAt_snoc, parks, List.append_nil]

/-- Step of a program running alone. -/
theorem Alone.step {start : World} {state : Parking} {op : Op}
    (holds : Alone flow start steps world state) (permitted : Permits flow false state op) :
    Alone flow start (steps ++ [⟨0, world, op⟩]) (World.perform host world op).2
      (advance flow state op (World.perform host world op).1) := by
  refine ⟨holds.stored.perform permitted, fun key isQueue => ?_, fun key stored loaded => ?_⟩
  · have grown : GrowsAt key start steps world := holds.grows key isQueue
    cases state with
    | idle => exact GrowsAt.silent grown (not_writes_of_idle permitted isQueue)
    | loaded name stored =>
        obtain ⟨-, ⟨item, rfl⟩ | ⟨impossible, -⟩⟩ := permitted
        · by_cases same : name = key
          · subst same
            obtain ⟨entries, found, -⟩ := holds.stored
            unfold GrowsAt at grown ⊢
            rw [World.queue_save _ _ _ (by rw [found]; rfl), parkedAt_snoc, parkedAt_save,
              if_pos (decide_eq_true rfl), ← List.append_assoc, ← grown,
              holds.current name stored rfl]
          · exact GrowsAt.silent grown (decide_eq_false same)
        · cases impossible
    | parked =>
        obtain rfl : op = .count .waiting := permitted
        exact GrowsAt.silent grown rfl
  · cases state with
    | idle =>
        rcases advance_idle flow host world op with resting | ⟨name, rfl, reached⟩
        · exact nomatch resting.symm.trans loaded
        · cases reached.symm.trans loaded
          rfl
    | loaded name kept =>
        obtain ⟨-, ⟨item, rfl⟩ | ⟨impossible, -⟩⟩ := permitted
        · generalize (World.perform host world
            (.save name (.array (Executor.queued kept ++ [item])))).1 = response at loaded
          cases response <;> cases loaded
        · cases impossible
    | parked =>
        obtain rfl : op = .count .waiting := permitted
        cases loaded

end Parking

/-- **A program that does not take lets queues grow.** -/
theorem grows_of_parks {α : Type} {program : Prog α} {post : α → Prop} {value : α}
    (uuids : ∀ time, PlainId flow (host.uuid time))
    (parks : ParksPlain flow false post program) (stored : world.PlainStore flow)
    (yields : Yields host program world steps value after) :
    post value ∧ after.PlainStore flow ∧ Grows flow world steps after := by
  obtain ⟨state, ⟨-, holds⟩, alone⟩ := parks.evaluates (Parking.Alone flow world)
    (fun target inFlow => (Executor.parks_walkCall target inFlow).mono
      Parking.admits_of_admitsPlain (fun _ same => same) fun _ _ same => same)
    (fun steps between state op alone permitted =>
      ⟨alone.stored.admits uuids op, alone.step permitted⟩)
    (Parking.Alone.start stored) yields
  exact ⟨holds, alone.stored, alone.grows⟩

theorem GrowsAt.trans {key : String} {middle : World} {more : List (Occurrence Engine World)}
    (first : GrowsAt key world steps middle) (second : GrowsAt key middle more after) :
    GrowsAt key world (steps ++ more) after := by
  unfold GrowsAt at first second ⊢
  rw [second, first, parkedAt_append, List.append_assoc]

end Sohara
