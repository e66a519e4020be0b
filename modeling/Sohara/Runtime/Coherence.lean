import Sohara.Runtime.ParkingRaces
import Sohara.Runtime.Releases

/-! # Coherence of the store file

Serving and approving processes over one store file keep every marker and state and
release every parked record once, as long as each write is by a process whose handle
is as new as the file. A handle never reads the file again, so this ends as soon as
two processes write in turn: the second write undoes the first.
-/

namespace Sohara

open Async Async.Program

variable {flow key : String} {owner : Nat → Nat} {file : Entries} {hosts : Nat → Host}
  {steps : List (Occurrence Engine Fleet)} {fleet after : Fleet} {states : List Parking}

namespace Parking

/-- A queue over one file: what has been parked is what has been taken and what is left,
and every task in the middle of an exchange knows the queue unless it has been written
since. -/
structure QueueFlows (flow key : String) (owner : Nat → Nat) (base : List Value)
    (steps : List (Occurrence Engine Fleet)) (fleet : Fleet) (states : List Parking) : Prop where
  balance : Careful flow owner steps → base ++ parkedAt (· = key) steps =
    takenAt key owner steps ++ Executor.queued (fleet.file key)
  opened : ∀ (index : Nat) (stored : Option Value),
    states[index]? = some (Parking.loaded key stored) →
      (fleet.processes (owner index)).isSome = true
  seen : ∀ (index : Nat) (stored : Option Value),
    states[index]? = some (Parking.loaded key stored) →
      (ledger key owner steps).seen index = Executor.queued stored
  current : ∀ (index : Nat) (stored : Option Value),
    states[index]? = some (Parking.loaded key stored) → UpToDate key index steps →
      (fleet.process (owner index)).queue key = Executor.queued stored

variable {base : List Value} {index : Nat} {op : Op} {stored : Option Value} {state : Parking}

/-- The tasks in the middle of an exchange with a queue after a step. -/
theorem loaded_set {other : Nat}
    (selected : (states.set index state)[other]? = some (Parking.loaded key stored)) :
    (other = index ∧ state = .loaded key stored) ∨
      other ≠ index ∧ states[other]? = some (Parking.loaded key stored) := by
  by_cases equal : other = index
  · subst equal
    rw [List.getElem?_set_self'] at selected
    obtain ⟨_, -, is⟩ := Option.map_eq_some_iff.mp selected
    exact .inl ⟨rfl, is⟩
  · rw [List.getElem?_set_ne (Ne.symm equal)] at selected
    exact .inr ⟨equal, selected⟩

theorem isSome_perform {other : Nat} (opened : (fleet.processes other).isSome = true) :
    ((Fleet.perform hosts index fleet op).2.processes other).isSome = true := by
  by_cases same : other = index
  · subst same
    rw [Fleet.processes_perform_self]
    rfl
  · rwa [Fleet.processes_perform_of_ne hosts op same]

/-- Operations other than writes under the key. -/
theorem QueueFlows.other (holds : QueueFlows flow key owner base steps fleet states)
    (silent : Op.writes key op = false)
    (kept : Careful flow owner (steps ++ [⟨index, fleet, op⟩]) →
      (Fleet.perform hosts (owner index) fleet op).2.file key = fleet.file key)
    (loads : ∀ stored, state = .loaded key stored → Op.loads key op = true ∧
      Executor.queued stored = (fleet.process (owner index)).queue key)
    (reads : Op.loads key op = true → ∃ stored, op = .load key ∧ state = .loaded key stored) :
    QueueFlows flow key owner base (steps ++ [⟨index, fleet, op⟩])
      (Fleet.perform hosts (owner index) fleet op).2 (states.set index state) := by
  have parks : parkedAt (· = key) [⟨index, fleet, op⟩] = [] := by
    refine parkedAt_of_not_writes fun other writes => ?_
    rw [decide_eq_false_iff_not]
    rintro rfl
    rw [silent] at writes
    cases writes
  have taken : takenAt key owner (steps ++ [⟨index, fleet, op⟩]) = takenAt key owner steps := by
    unfold takenAt
    rw [ledger_snoc]
    cases loading : Op.loads key op with
    | false => rw [Ledger.note_other ⟨index, fleet, op⟩ _ loading silent]
    | true =>
        obtain ⟨_, rfl, -⟩ := reads loading
        show Ledger.taken (if key = key then _ else _) = _
        rw [if_pos rfl]
  have seenBy : ∀ other : Nat, other ≠ index →
      (ledger key owner (steps ++ [⟨index, fleet, op⟩])).seen other =
        (ledger key owner steps).seen other := by
    intro other different
    rw [ledger_snoc]
    cases loading : Op.loads key op with
    | false => rw [Ledger.note_other ⟨index, fleet, op⟩ _ loading silent]
    | true =>
        obtain ⟨_, rfl, -⟩ := reads loading
        show Ledger.seen (if key = key then _ else _) other = _
        rw [if_pos rfl]
        exact Function.update_of_ne different _ _
  constructor
  · intro careful
    rw [parkedAt_snoc, parks, List.append_nil, taken, kept careful]
    exact holds.balance (eachStep_snoc.mp careful).1
  · intro other stored selected
    rcases loaded_set selected with ⟨rfl, -⟩ | ⟨-, old⟩
    · rw [Fleet.processes_perform_self]
      rfl
    · exact isSome_perform (holds.opened other stored old)
  · intro other stored selected
    rcases loaded_set selected with ⟨rfl, rfl⟩ | ⟨different, old⟩
    · obtain ⟨loading, same⟩ := loads stored rfl
      obtain ⟨_, rfl, -⟩ := reads loading
      rw [ledger_snoc]
      show Ledger.seen (if key = key then _ else _) other = _
      rw [if_pos rfl]
      exact (Function.update_self ..).trans same.symm
    · rw [seenBy other different]
      exact holds.seen other stored old
  · intro other stored selected fresh
    rcases loaded_set selected with ⟨rfl, rfl⟩ | ⟨different, old⟩
    · obtain ⟨loading, same⟩ := loads stored rfl
      obtain ⟨_, rfl, -⟩ := reads loading
      rw [same]
      unfold World.queue
      rw [Fleet.process_perform_self]
      cases (fleet.process (owner other)).store <;> rfl
    · rcases upToDate_snoc.mp fresh with ⟨own, -⟩ | ⟨earlier, -⟩
      · exact absurd own.symm different
      · rw [Fleet.queue_perform silent (holds.opened other stored old)]
        exact holds.current other stored old earlier

/-- A careful write finds the queue its task has loaded. -/
theorem QueueFlows.found (holds : QueueFlows flow key owner base steps fleet states)
    (isQueue : isQueueKey flow key = true)
    (selected : states[index]? = some (Parking.loaded key stored))
    (careful : Careful flow owner (steps ++ [⟨index, fleet, op⟩]))
    (writes : Op.writes key op = true) :
    Executor.queued (fleet.file key) = Executor.queued stored := by
  obtain ⟨fresh, upToDate⟩ := (eachStep_snoc.mp careful).2 key writes
  have known := holds.current index stored selected (upToDate isQueue)
  unfold World.queue at known
  rw [fresh] at known
  exact known

/-- Writes under the key end the exchange of their task. -/
theorem QueueFlows.write (holds : QueueFlows flow key owner base steps fleet states)
    (writes : Op.writes key op = true) (rests : ∀ stored, state ≠ .loaded key stored)
    (balance : Careful flow owner (steps ++ [⟨index, fleet, op⟩]) →
      base ++ parkedAt (· = key) (steps ++ [⟨index, fleet, op⟩]) =
        takenAt key owner (steps ++ [⟨index, fleet, op⟩]) ++
          Executor.queued ((Fleet.perform hosts (owner index) fleet op).2.file key)) :
    QueueFlows flow key owner base (steps ++ [⟨index, fleet, op⟩])
      (Fleet.perform hosts (owner index) fleet op).2 (states.set index state) := by
  have others : ∀ {other : Nat} {stored},
      (states.set index state)[other]? = some (Parking.loaded key stored) →
        states[other]? = some (Parking.loaded key stored) := by
    intro other stored selected
    rcases loaded_set selected with ⟨-, is⟩ | ⟨-, old⟩
    · exact absurd is (rests stored)
    · exact old
  refine ⟨balance, fun other stored selected => ?_, fun other stored selected => ?_,
    fun other stored selected fresh => ?_⟩
  · exact isSome_perform (holds.opened other stored (others selected))
  · have unseen : (ledger key owner (steps ++ [⟨index, fleet, op⟩])).seen other =
        (ledger key owner steps).seen other := by
      rw [ledger_snoc]
      cases op with
      | delete name =>
          show Ledger.seen (if name = key then _ else _) other = _
          split <;> rfl
      | save name value => rfl
      | _ => cases writes
    rw [unseen]
    exact holds.seen other stored (others selected)
  · rcases upToDate_snoc.mp fresh with ⟨-, loads⟩ | ⟨-, silent⟩
    · cases op <;> first | cases loads | cases writes
    · exact nomatch writes.symm.trans silent

/-- The file and the handles of all processes during a run. -/
structure Coherent (flow : String) (owner : Nat → Nat) (start : Fleet)
    (steps : List (Occurrence Engine Fleet)) (fleet : Fleet) (states : List Parking) : Prop where
  plainFile : PlainEntry flow fleet.file
  opened : ∀ index world, fleet.processes index = some world → world.PlainStore flow
  deletes : ∀ step ∈ steps, ∀ key, step.op = .delete key → isQueueKey flow key = true
  through : Careful flow owner steps → fleet.file = writtenThrough start.file steps
  queues : ∀ key, isQueueKey flow key = true →
    QueueFlows flow key owner (Executor.queued (start.file key)) steps fleet states

/-- Every process has a store, and its cached run id is plain. -/
theorem Coherent.cached {start : Fleet} (holds : Coherent flow owner start steps fleet states)
    (process : Nat) : (fleet.process process).PlainStore flow := by
  unfold Fleet.process
  cases found : fleet.processes process with
  | none => exact ⟨fleet.file, rfl, holds.plainFile⟩
  | some world => exact holds.opened process world found

/-- Nothing has happened, and nobody is in the middle of anything. -/
theorem Coherent.initial {start : Fleet} (plainFile : PlainEntry flow start.file)
    (opened : ∀ index world, start.processes index = some world → world.PlainStore flow)
    (resting : ∀ state ∈ states, state = .idle) : Coherent flow owner start [] start states := by
  have unloaded : ∀ {key : String} {index : Nat} {stored : Option Value},
      states[index]? ≠ some (Parking.loaded key stored) := fun selected =>
    nomatch resting _ (List.mem_of_getElem? selected)
  refine ⟨plainFile, opened, (fun _ member => nomatch member), fun _ => rfl, fun key _ => ?_⟩
  refine ⟨fun _ => ?_, fun _ _ selected => absurd selected unloaded,
    fun _ _ selected => absurd selected unloaded, fun _ _ selected => absurd selected unloaded⟩
  exact List.append_nil _

/-- A process opens the file. -/
theorem Coherent.opens {start : Fleet} (holds : Coherent flow owner start steps fleet states)
    (opens : Fleet.Opens fleet after) : Coherent flow owner start steps after states := by
  obtain ⟨process, closed⟩ := opens
  have others : ∀ {other : Nat}, (fleet.processes other).isSome = true → other ≠ process := by
    rintro other opened rfl
    rw [closed] at opened
    cases opened
  refine ⟨holds.plainFile, fun other world found => ?_, holds.deletes, holds.through,
    fun key isQueue => ?_⟩
  · dsimp only at found
    by_cases same : other = process
    · subst same
      rw [Function.update_self] at found
      cases found
      exact holds.cached other
    · rw [Function.update_of_ne same] at found
      exact holds.opened other world found
  · have queue := holds.queues key isQueue
    refine ⟨queue.balance, fun index stored selected => ?_, queue.seen,
      fun index stored selected fresh => ?_⟩
    · dsimp only
      rw [Function.update_of_ne (others (queue.opened index stored selected))]
      exact queue.opened index stored selected
    · rw [← queue.current index stored selected fresh]
      unfold Fleet.process
      dsimp only
      rw [Function.update_of_ne (others (queue.opened index stored selected))]

variable {start : Fleet} {index : Nat} {state : Parking} {op : Op}

/-- The responses of a process are plain. -/
theorem Coherent.admits (holds : Coherent flow owner start steps fleet states)
    (uuids : ∀ process time, PlainId flow ((hosts process).uuid time)) (process : Nat) (op : Op) :
    AdmitsPlain flow op (Fleet.perform hosts process fleet op).1 :=
  (holds.cached process).admits (uuids process) op

/-- Careful writes go through to the file. -/
theorem file_of_careful (persists : ∀ process time, (hosts process).persist time = .ok ())
    (careful : Careful flow owner (steps ++ [⟨index, fleet, op⟩])) :
    (Fleet.perform hosts (owner index) fleet op).2.file = World.stored op fleet.file :=
  Fleet.file_perform (persists _) fun name writes => ((eachStep_snoc.mp careful).2 name writes).1

/-- Queues that a step does not write. -/
theorem Coherent.untouched (holds : Coherent flow owner start steps fleet states)
    (persists : ∀ process time, (hosts process).persist time = .ok ())
    (isQueue : isQueueKey flow key = true) (silent : Op.writes key op = false)
    (loads : ∀ stored, state = .loaded key stored → Op.loads key op = true ∧
      Executor.queued stored = (fleet.process (owner index)).queue key)
    (reads : Op.loads key op = true → ∃ stored, op = .load key ∧ state = .loaded key stored) :
    QueueFlows flow key owner (Executor.queued (start.file key))
      (steps ++ [⟨index, fleet, op⟩]) (Fleet.perform hosts (owner index) fleet op).2
      (states.set index state) := by
  refine (holds.queues key isQueue).other silent (fun careful => ?_) loads reads
  rw [file_of_careful persists careful]
  exact World.stored_of_not_writes _ silent

/-- Parking saves the queue that was loaded with one more record. -/
theorem QueueFlows.park {item : Value}
    (holds : QueueFlows flow key owner base steps fleet states)
    (persists : ∀ process time, (hosts process).persist time = .ok ())
    (isQueue : isQueueKey flow key = true)
    (current : states[index]? = some (Parking.loaded key stored)) :
    let op := Op.save key (.array (Executor.queued stored ++ [item]))
    QueueFlows flow key owner base (steps ++ [⟨index, fleet, op⟩])
      (Fleet.perform hosts (owner index) fleet op).2 (states.set index .parked) := by
  refine holds.write (decide_eq_true rfl) (fun _ same => nomatch same) fun careful => ?_
  have found := holds.found isQueue current careful (decide_eq_true rfl)
  have balance := holds.balance (eachStep_snoc.mp careful).1
  rw [file_of_careful persists careful, parkedAt_snoc, parkedAt_save,
    if_pos (decide_eq_true rfl), ← List.append_assoc, balance, found]
  unfold takenAt
  rw [ledger_snoc]
  show _ = _ ++ Executor.queued (Function.update fleet.file key _ key)
  rw [Function.update_self, List.append_assoc]
  rfl

/-- Taking deletes the queue that was loaded. -/
theorem QueueFlows.take (holds : QueueFlows flow key owner base steps fleet states)
    (persists : ∀ process time, (hosts process).persist time = .ok ())
    (isQueue : isQueueKey flow key = true)
    (current : states[index]? = some (Parking.loaded key stored)) :
    QueueFlows flow key owner base (steps ++ [⟨index, fleet, Op.delete key⟩])
      (Fleet.perform hosts (owner index) fleet (.delete key)).2 (states.set index .idle) := by
  refine holds.write (decide_eq_true rfl) (fun _ same => nomatch same) fun careful => ?_
  have found := holds.found isQueue current careful (decide_eq_true rfl)
  have balance := holds.balance (eachStep_snoc.mp careful).1
  have parks : parkedAt (· = key) [⟨index, fleet, Op.delete key⟩] = [] := rfl
  rw [file_of_careful persists careful, parkedAt_snoc, parks, List.append_nil, balance, found]
  unfold takenAt
  rw [ledger_snoc]
  show _ = Ledger.taken (if key = key then _ else _) ++
    Executor.queued (Function.update fleet.file key none key)
  rw [Function.update_self, if_pos rfl, holds.seen index stored current]
  exact (List.append_nil _).symm

/-- Every queue goes on to be balanced. -/
theorem Coherent.queues_step (holds : Coherent flow owner start steps fleet states)
    (persists : ∀ process time, (hosts process).persist time = .ok ())
    (current : states[index]? = some state) (permitted : Permits flow true state op)
    (isQueue : isQueueKey flow key = true) :
    QueueFlows flow key owner (Executor.queued (start.file key))
      (steps ++ [⟨index, fleet, op⟩]) (Fleet.perform hosts (owner index) fleet op).2
      (states.set index (advance flow state op
        (Fleet.perform hosts (owner index) fleet op).1)) := by
  cases state with
  | idle =>
      refine holds.untouched persists isQueue (not_writes_of_idle permitted isQueue) ?_ ?_
      · intro stored loaded
        rcases advance_idle flow (hosts (owner index)) (fleet.process (owner index)) op with
          resting | ⟨name, rfl, reached⟩
        · exact nomatch resting.symm.trans loaded
        · cases reached.symm.trans loaded
          exact ⟨decide_eq_true rfl, rfl⟩
      · intro reads
        cases op with
        | load name =>
            obtain rfl := of_decide_eq_true reads
            exact ⟨_, rfl, if_pos isQueue⟩
        | _ => cases reads
  | loaded name stored =>
      obtain ⟨-, ⟨item, rfl⟩ | ⟨-, rfl⟩⟩ := permitted
      · have saved := World.perform_save_fst (hosts (owner index))
          (fleet.process (owner index)) (persists _) name
          (.array (Executor.queued stored ++ [item]))
        have after : advance flow (.loaded name stored)
            (.save name (.array (Executor.queued stored ++ [item])))
            (Fleet.perform hosts (owner index) fleet
              (.save name (.array (Executor.queued stored ++ [item])))).1 = .parked := by
          unfold Fleet.perform
          rw [saved]
          rfl
        rw [after]
        by_cases same : name = key
        · subst same
          exact (holds.queues name isQueue).park persists isQueue current
        · exact holds.untouched persists isQueue (decide_eq_false same)
            (fun _ loaded => nomatch loaded) fun reads => nomatch reads
      · by_cases same : name = key
        · subst same
          exact (holds.queues name isQueue).take persists isQueue current
        · exact holds.untouched persists isQueue (decide_eq_false same)
            (fun _ loaded => nomatch loaded) fun reads => nomatch reads
  | parked =>
      obtain rfl : op = .count .waiting := permitted
      exact holds.untouched persists isQueue rfl (fun _ loaded => nomatch loaded)
        fun reads => nomatch reads

/-- Only queues are deleted. -/
theorem isQueueKey_of_delete (permitted : Permits flow true state (.delete key)) :
    isQueueKey flow key = true := by
  cases state with
  | idle => exact permitted.elim
  | loaded name stored =>
      obtain ⟨isQueue, ⟨item, is⟩ | ⟨-, is⟩⟩ := permitted
      · cases is
      · cases is
        exact isQueue
  | parked => cases permitted

/-- **Step of the processes over one file.** -/
theorem Coherent.step (holds : Coherent flow owner start steps fleet states)
    (persists : ∀ process time, (hosts process).persist time = .ok ())
    (current : states[index]? = some state) (permitted : Permits flow true state op) :
    Coherent flow owner start (steps ++ [⟨index, fleet, op⟩])
      (Fleet.perform hosts (owner index) fleet op).2
      (states.set index (advance flow state op
        (Fleet.perform hosts (owner index) fleet op).1)) := by
  obtain ⟨entries, cached, plain⟩ := holds.cached (owner index)
  refine ⟨?_, fun other world found => ?_, fun step member name deleted => ?_, fun careful => ?_,
    fun key isQueue => holds.queues_step persists current permitted isQueue⟩
  · rcases Fleet.file_perform_cases fleet hosts (owner index) op with same | ⟨kept, found, same⟩
    · rw [same]
      exact holds.plainFile
    · rw [same]
      obtain rfl := Option.some.inj (cached.symm.trans found)
      exact plain.stored permitted
  · by_cases same : other = owner index
    · subst same
      rw [Fleet.processes_perform_self] at found
      cases found
      exact (holds.cached (owner index)).perform permitted
    · rw [Fleet.processes_perform_of_ne hosts op same] at found
      exact holds.opened other world found
  · rcases List.mem_append.mp member with old | new
    · exact holds.deletes step old name deleted
    · obtain rfl := List.mem_singleton.mp new
      obtain rfl : op = .delete name := deleted
      exact isQueueKey_of_delete permitted
  · rw [file_of_careful persists careful, holds.through (eachStep_snoc.mp careful).1,
      writtenThrough_snoc]

end Parking

/-- Entries that are only ever saved stay. -/
theorem isSome_writtenThrough (deletes : ∀ step ∈ steps, step.op ≠ .delete key)
    (present : (file key).isSome = true ∨ ∃ step ∈ steps, ∃ value, step.op = .save key value) :
    (writtenThrough file steps key).isSome = true := by
  induction steps using List.reverseRecOn with
  | nil =>
      rcases present with kept | ⟨_, member, -⟩
      · exact kept
      · cases member
  | append_singleton steps step ih =>
      rw [writtenThrough_snoc]
      have keeps := deletes step (List.mem_append_right _ List.mem_cons_self)
      by_cases saves : ∃ value, step.op = .save key value
      · obtain ⟨value, saved⟩ := saves
        rw [saved]
        show Option.isSome (Function.update (writtenThrough file steps) key (some value) key) = true
        rw [Function.update_self]
        rfl
      · have silent : Op.writes key step.op = false := by
          obtain ⟨task, fleet, op⟩ := step
          cases op with
          | save name value =>
              refine decide_eq_false ?_
              rintro rfl
              exact saves ⟨value, rfl⟩
          | delete name =>
              refine decide_eq_false ?_
              rintro rfl
              exact keeps rfl
          | _ => rfl
        rw [World.stored_of_not_writes _ silent]
        refine ih (fun other member => deletes other (List.mem_append_left _ member)) ?_
        refine present.imp_right fun ⟨other, member, value, saved⟩ => ?_
        rcases List.mem_append.mp member with old | new
        · exact ⟨other, old, value, saved⟩
        · obtain rfl := List.mem_singleton.mp new
          exact absurd ⟨value, saved⟩ saves

/-- **Store coherence.** Over careful runs of any number of serving and approving processes,
all writes go through to the file: no marker or state that has been saved is missing from
it, and what has been parked in a queue is what has been taken from it, in order and once,
and what is left. When the passes have ended, what they have taken is what they have injected,
record by record, and what they have dropped after a failure. -/
theorem store_coherent (persists : ∀ process time, (hosts process).persist time = .ok ())
    (uuids : ∀ process time, PlainId flow ((hosts process).uuid time)) (start : Fleet)
    (plainFile : PlainEntry flow start.file)
    (opened : ∀ index world, start.processes index = some world → world.PlainStore flow)
    {duties : List (Prog Outcome)} (each : ∀ program ∈ duties, Duty flow program)
    {config : Config Engine Fleet}
    (run : Config.Run (S := Engine) walkCall (fun task => Fleet.perform hosts (owner task))
      Fleet.Opens ⟨start, duties.map .run⟩ steps config)
    (careful : Careful flow owner steps) :
    config.world.file = writtenThrough start.file steps ∧
      (∀ key, isQueueKey flow key = false → ((start.file key).isSome = true ∨
        ∃ step ∈ steps, ∃ value, step.op = .save key value) →
          (config.world.file key).isSome = true) ∧
      (∀ key, isQueueKey flow key = true →
        Executor.queued (start.file key) ++ parkedAt (· = key) steps =
          takenAt key owner steps ++ Executor.queued (config.world.file key)) ∧
      ∃ released, EachReleases hosts owner duties steps config.tasks released ∧
        (PassesEnded flow duties config.tasks → ∀ key, isQueueKey flow key = true →
          (Executor.queued (start.file key) ++ parkedAt (· = key) steps : Multiset Value) =
            ∑ index ∈ Finset.range duties.length, (injectedFrom key (released index) +
                droppedFrom key (released index) : Multiset Value) +
              Executor.queued (config.world.file key)) := by
  have follows : Config.Follows (Parking.protocol flow true) (Parking.AdmitsPlain flow)
      (InFlow flow) ⟨start, duties.map .run⟩ (duties.map fun _ => Parking.idle) := by
    refine List.forall₂_map_left_iff.mpr (List.forall₂_map_right_iff.mpr ?_)
    refine List.forall₂_same.mpr fun program member => ⟨trivial, ?_⟩
    exact (each program member).parks.mono (fun _ _ => id) (fun _ => id) fun _ _ => And.left
  have initial : Parking.Coherent flow owner start [] start
      (duties.map fun _ => Parking.idle) :=
    .initial plainFile opened fun state member => (List.mem_map.mp member).choose_spec.2.symm
  obtain ⟨states, -, holds, admitted⟩ := follows.run
    (fun steps fleet states => Parking.Coherent flow owner start steps fleet states ∧
      ∀ step ∈ steps, Parking.AdmitsPlain flow step.op
        (Fleet.perform hosts (owner step.task) step.world step.op).1)
    (fun target inFlow => (Executor.parks_walkCall target inFlow).mono
      Parking.admits_of_admitsPlain (fun _ same => same) fun _ _ same => same)
    (fun steps fleet states index state op holds current permitted => by
      have admits := holds.1.admits uuids (owner index) op
      refine ⟨admits, holds.1.step persists current permitted, fun step member => ?_⟩
      rcases List.mem_append.mp member with old | new
      · exact holds.2 step old
      · rw [List.mem_singleton.mp new]
        exact admits)
    (fun steps fleet after states holds opens => ⟨holds.1.opens opens, holds.2⟩)
    ⟨initial, fun _ member => nomatch member⟩ run
  have through := holds.through careful
  have balance := fun key isQueue => (holds.queues key isQueue).balance careful
  refine ⟨through, fun key noQueue present => ?_, balance, ?_⟩
  · rw [through]
    refine isSome_writtenThrough (fun step member deleted => ?_) present
    rw [holds.deletes step member key deleted] at noQueue
    cases noQueue
  · obtain ⟨released, each', sums⟩ := released_of_run persists each rfl run admitted
    refine ⟨released, each', fun ended key isQueue => ?_⟩
    rw [← sums ended key, balance key isQueue]
    exact (Multiset.coe_add _ _).symm

namespace Sample

/-- The letter that is added for every record. -/
def countFields : List (String × Expr) :=
  [("seen", .add (.path ["state", "seen"]) (.lit (.string "x")))]

/-- Components that also provide state steps. -/
def countRegistry : Registry :=
  { FlowGraph.Sample.registry with
    build := fun kind type config ctx =>
      match kind, type with
      | .control, "approve" => .ok (.control (.approve "approval"))
      | .transform, "state" =>
          FlowGraph.Sample.requiring ["expr"] (.control (.state countFields)) config
      | _, _ => FlowGraph.Sample.registry.build kind type config ctx }

/-- What is counted before any record. -/
def noCount : Value := .object [("seen", .string "")]

/-- A state step behind an approve step. -/
def countFlow : FlowConfig :=
  { FlowGraph.Sample.intake with
    triggers := []
    steps := [FlowGraph.Sample.source "a", FlowGraph.Sample.step "gate" .control "approve",
      { FlowGraph.Sample.step "count" .transform "state" with
        state := some noCount
        extra := [("expr", .object [("seen", .string "state.seen + 'x'")])] },
      FlowGraph.Sample.sink "out"]
    edges := [.pair "a" "gate", .pair "gate" "count", .pair "count" "out"] }

/-- The graph of the state step behind an approve step. -/
def countGraph : FlowGraph where
  name := "intake"
  nodes := ((((∅ : BTreeMap Node).insert "a"
    ⟨"a", none, .fail, .source, [⟨"gate", none⟩], 0, none⟩).insert "gate"
      ⟨"gate", none, .fail, .control (.approve "approval"), [⟨"count", none⟩], 1, none⟩).insert
        "count" ⟨"count", none, .fail, .control (.state countFields), [⟨"out", none⟩], 1,
          some noCount⟩).insert "out" ⟨"out", none, .fail, .sink, [], 1, none⟩
  roots := ["a"]

/-- What the samples create executors over. -/
def env : ExecutorEnv := ⟨platform, FlowGraph.Sample.hashOrder⟩

/-- The file of a flow with the given queue. -/
def fileWith (queue : Option Value) : Entries
  | "intake:run_id" => some (.string "run")
  | "intake:approve:gate" => queue
  | _ => none

/-- A serving process over an empty queue. -/
def serving : Fleet where
  file := fileWith none
  processes index :=
    if index = 0 then some (.start (some (fileWith none)) (fileWith none) fun _ => [])
    else none

/-- A source that is serving and an approval pass, in two processes. -/
def serveAndApprove : List (Prog Outcome) :=
  [(executor countGraph).runSource "a", do
    let approved ← approvePending env countRegistry countFlow none
    return approved.map fun _ => ()]

/-- The approval pass runs between the first and the second record of the source. -/
def interleaved : List (Occurrence Engine Fleet) × Config Engine Fleet :=
  Config.play (S := Engine) walkCall (Fleet.perform fun _ => host twoRecords)
    ⟨serving, serveAndApprove.map .run⟩
    (List.replicate 9 0 ++ List.replicate 50 1 ++ List.replicate 20 0)

/-- The record that has been released is back in the queue, and the state that the
approval pass has saved is gone. -/
theorem interleaved_undone :
    FlowGraph.build countRegistry FlowGraph.Sample.hashOrder countFlow FlowGraph.Sample.ctx =
        .ok countGraph ∧
      ∃ steps config, Config.Run (S := Engine) walkCall (Fleet.perform fun _ => host twoRecords)
          Fleet.Opens ⟨serving, serveAndApprove.map .run⟩ steps config ∧
        (config.tasks.all fun task => task.outcome?.isSome) = true ∧
        parkedAt (· = "intake:approve:gate") steps = [.null, .bool true] ∧
        takenAt "intake:approve:gate" (fun task => task) steps = [.null] ∧
        Executor.queued (config.world.file "intake:approve:gate") = [.null, .bool true] ∧
        (steps.any fun step => Op.writes "run:state:count" step.op) = true ∧
        config.world.file "run:state:count" = none :=
  ⟨rfl, interleaved.1, interleaved.2, Config.run_play _ _, rfl, rfl, rfl, rfl, rfl, rfl⟩

theorem plainId_id : PlainId "intake" "id" := ⟨by decide, by decide⟩

/-- The source parks both records. -/
def parking : List (Occurrence Engine Fleet) × Config Engine Fleet :=
  Config.play (S := Engine) walkCall (Fleet.perform fun _ => host twoRecords)
    ⟨serving, serveAndApprove.map .run⟩ (List.replicate 18 0)

/-- Then the approval pass opens the file, while the source comes to its end. -/
def releasing : List (Occurrence Engine Fleet) × Config Engine Fleet :=
  Config.play (S := Engine) walkCall (Fleet.perform fun _ => host twoRecords) parking.2
    ((List.replicate 3 [1, 0]).flatten ++ List.replicate 90 1)

theorem parking_run : Config.Run (S := Engine) walkCall
    (fun task => Fleet.perform (fun _ => host twoRecords) task) Fleet.Opens
    ⟨serving, serveAndApprove.map .run⟩ parking.1 parking.2 :=
  Config.run_play _ _

theorem releasing_run : Config.Run (S := Engine) walkCall
    (fun task => Fleet.perform (fun _ => host twoRecords) task) Fleet.Opens parking.2 releasing.1
    releasing.2 :=
  Config.run_play _ _

/-- The run of both processes. -/
def handedOver : List (Occurrence Engine Fleet) := parking.1 ++ releasing.1

theorem handedOver_run : Config.Run (S := Engine) walkCall
    (fun task => Fleet.perform (fun _ => host twoRecords) task) Fleet.Opens
    ⟨serving, serveAndApprove.map .run⟩ handedOver releasing.2 :=
  parking_run.play _

/-- The key of a write. -/
def writtenKey (step : Occurrence Engine Fleet) : Option String :=
  match step.op with
  | .save key _ => some key
  | .delete key => some key
  | _ => none

theorem writtenKey_of_writes {step : Occurrence Engine Fleet} {key : String}
    (writes : Op.writes key step.op = true) : writtenKey step = some key := by
  obtain ⟨task, fleet, op⟩ := step
  cases op with
  | save name value => exact congrArg some (of_decide_eq_true writes)
  | delete name => exact congrArg some (of_decide_eq_true writes)
  | _ => cases writes

theorem parking_writers : parking.1.map (·.task) = List.replicate 10 0 := rfl

theorem releasing_writers :
    (releasing.1.all fun step => (writtenKey step).isNone || step.task == 1) = true := by
  decide +kernel

/-- The writes of the gate's queue, in turn. -/
theorem handedOver_queue :
    isUndisturbed "intake:approve:gate" [] handedOver = true ∧
      ((handedOver.filterMap writtenKey).all fun key =>
        !isQueueKey "intake" key || key == "intake:approve:gate") = true := by
  decide +kernel

/-- Each process writes while its handle is as new as the file. -/
theorem handedOver_fresh : ∀ step ∈ handedOver, ∀ key, Op.writes key step.op = true →
    step.world.Fresh step.task := by
  have first := Fleet.fresh_of_sole_writer (fun _ _ => rfl) parking_run
    (show serving.Fresh 0 from rfl) fun step member _ _ => by
      have inside : step.task ∈ parking.1.map (·.task) := List.mem_map_of_mem member
      rw [parking_writers] at inside
      exact (List.mem_replicate.mp inside).2
  have opens : parking.2.world.Fresh 1 := by
    have closed : parking.2.world.processes 1 = none := rfl
    unfold Fleet.Fresh Fleet.process
    rw [closed]
    rfl
  have second := Fleet.fresh_of_sole_writer (fun _ _ => rfl) releasing_run opens
    fun step member key writes => by
      have checked := List.all_eq_true.mp releasing_writers step member
      rw [writtenKey_of_writes writes] at checked
      exact beq_iff_eq.mp checked
  intro step member
  rcases List.mem_append.mp member with parks | releases
  · exact first.2 step parks
  · exact second.2 step releases

theorem handedOver_careful : Careful "intake" (fun task => task) handedOver := by
  refine careful_of_fresh handedOver_fresh fun key isQueue => ?_
  obtain ⟨undisturbed, others⟩ := handedOver_queue
  by_cases same : key = "intake:approve:gate"
  · subst same
    have nobody : ∀ task ∈ ([] : List Nat),
        UpToDate (W := Fleet) "intake:approve:gate" task [] := fun _ member => nomatch member
    have clean := undisturbed_of_check nobody undisturbed_nil undisturbed
    rwa [List.nil_append] at clean
  · rintro before step after split writes
    have written : key ∈ handedOver.filterMap writtenKey := by
      refine List.mem_filterMap.mpr ⟨step, ?_, writtenKey_of_writes writes⟩
      rw [split]
      exact List.mem_append_right _ List.mem_cons_self
    have checked := List.all_eq_true.mp others key written
    rw [isQueue] at checked
    exact absurd (beq_iff_eq.mp checked) same

/-- The file has no run id but that of the executor, in whatever process. -/
theorem serving_plain : PlainEntry "intake" serving.file ∧
    ∀ index world, serving.processes index = some world → world.PlainStore "intake" := by
  have plainFile : PlainEntry "intake" (fileWith none) := by
    intro id found
    obtain rfl : "run" = id := Value.string.inj (Option.some.inj found)
    exact plainId
  refine ⟨plainFile, fun index world opened => ⟨fileWith none, ?_, plainFile⟩⟩
  unfold serving at opened
  dsimp only at opened
  split at opened
  · cases opened
    rfl
  · cases opened

theorem serveAndApprove_duties : ∀ program ∈ serveAndApprove, Duty "intake" program := by
  intro program member
  rcases List.mem_cons.mp member with rfl | last
  · exact .serve (.source (executor countGraph) "a" rfl plainId)
  · obtain rfl := List.mem_singleton.mp last
    exact .approve env countRegistry countFlow none rfl

/-- Both tasks have come to their ends, nothing is left in the queue, and the state is in the
file. -/
theorem releasing_ended :
    (releasing.2.tasks.all fun task => match task.outcome? with
      | some (.ok _) => true
      | _ => false) = true ∧
    (Executor.queued (releasing.2.world.file "intake:approve:gate")).isEmpty = true ∧
    (parkedAt (· = "intake:approve:gate") releasing.1).isEmpty = true ∧
    (releasing.2.world.file "run:state:count").isSome = true := by
  decide +kernel

theorem handedOver_succeeded {index : Nat} (inside : index < 2) :
    releasing.2.tasks[index]? = some (.run (.done (.ok ()))) := by
  have length : releasing.2.tasks.length = 2 := handedOver_run.within.1
  obtain ⟨task, found⟩ : ∃ task, releasing.2.tasks[index]? = some task :=
    ⟨_, List.getElem?_eq_getElem (length ▸ inside)⟩
  have checked := List.all_eq_true.mp releasing_ended.1 task (List.mem_of_getElem? found)
  split at checked
  · next ended => rw [found, Async.Task.outcome?_eq_some ended]
  · cases checked

theorem handedOver_parked : parkedAt (· = "intake:approve:gate") handedOver = [.null, .bool true] := by
  have first : parkedAt (· = "intake:approve:gate") parking.1 = [.null, .bool true] := rfl
  rw [handedOver, parkedAt_append, first, List.isEmpty_iff.mp releasing_ended.2.2.1, List.append_nil]

/-- Both records are parked by the source, taken by the approval pass in another process, and
injected; nothing else is. -/
theorem handedOver_released :
    ∃ steps config released, Config.Run (S := Engine) walkCall
        (fun task => Fleet.perform (fun _ => host twoRecords) task) Fleet.Opens
        ⟨serving, serveAndApprove.map .run⟩ steps config ∧
      takenAt "intake:approve:gate" (fun task => task) steps = [.null, .bool true] ∧
      EachReleases (fun _ => host twoRecords) (fun task => task) serveAndApprove steps
        config.tasks released ∧
      ∑ index ∈ Finset.range 2, (injectedFrom "intake:approve:gate" (released index) :
        Multiset Value) = {.null, .bool true} ∧
      (config.world.file "run:state:count").isSome = true := by
  obtain ⟨plainFile, opened⟩ := serving_plain
  obtain ⟨-, -, balance, released, each, sums⟩ := store_coherent (fun _ _ => rfl)
    (fun _ _ => plainId_id) serving plainFile opened serveAndApprove_duties handedOver_run
    handedOver_careful
  have left := List.isEmpty_iff.mp releasing_ended.2.1
  have inside : ∀ {index : Nat} {program}, serveAndApprove[index]? = some program → index < 2 :=
    fun selected => (List.getElem?_eq_some_iff.mp selected).1
  have ended : PassesEnded "intake" serveAndApprove releasing.2.tasks := fun index program selected =>
    .inr ⟨_, handedOver_succeeded (inside selected)⟩
  have nothing : ∀ index < 2, droppedFrom "intake:approve:gate" (released index) = [] := by
    intro index small
    obtain ⟨program, selected⟩ : ∃ program, serveAndApprove[index]? = some program :=
      ⟨_, List.getElem?_eq_getElem small⟩
    have kept := (each index program _ selected (handedOver_succeeded small)).2 rfl
    unfold droppedFrom
    refine List.flatMap_eq_nil_iff.mpr fun visit member => ?_
    rw [kept visit member]
    exact ite_self _
  refine ⟨handedOver, releasing.2, released, handedOver_run, ?_, each, ?_, ?_⟩
  · have taken := balance "intake:approve:gate" rfl
    rw [handedOver_parked, left, List.append_nil] at taken
    exact taken.symm
  · have sum := sums ended "intake:approve:gate" rfl
    rw [handedOver_parked, left, Multiset.coe_nil, add_zero] at sum
    refine Eq.trans (Finset.sum_congr rfl fun index member => ?_) sum.symm
    rw [nothing index (Finset.mem_range.mp member), Multiset.coe_nil, add_zero]
  · exact releasing_ended.2.2.2

end Sample

end Sohara
