import Sohara.Runtime.TracedRun

/-! # The ledger of a batch

What has entered a batch, what has been taken out of its buffer, and what it still holds.
A batch is taken when an arrival finds it due, and by the final pass of a run.
-/

namespace Sohara

open Async Async.Program

namespace World

/-- Whether a batch of a given length is due, by its size or by its window. -/
def isDue (host : Host) (world : World) (id : String) (size : Option Nat)
    (within : Option Duration) (count : Nat) : Bool :=
  size.any (fun limit => decide (limit ≤ count)) ||
    within.any fun window => (world.batches id).since.any fun since =>
      decide ((window : Int) ≤ host.clock world.asked - since)

/-- The records a batch holds. -/
def collected (world : World) (id : String) : List Record := (world.batches id).records

end World

namespace Op

/-- The record an operation brings to a batch. -/
def entering (id : String) : Op → List Record
  | .batchArrive other _ _ record => if other = id then [record] else []
  | _ => []

/-- Whether an operation takes a batch in the final pass. -/
def takes (id : String) : Op → Bool
  | .takeBatch other => other = id
  | _ => false

/-- Whether an operation is an arrival at a batch. -/
def enters (id : String) : Op → Bool
  | .batchArrive other _ _ _ => other = id
  | _ => false

/-- Whether an arrival at a batch finds it due. -/
def findsDue (host : Host) (world : World) : Op → Bool
  | .batchArrive id size within record =>
      world.isDue host id size within (world.collected id ++ [record]).length
  | _ => false

/-- The batch an operation takes out of its buffer, if any. -/
def taken (host : Host) (world : World) : Op → Option (String × List Record)
  | .batchArrive id size within record =>
      (world.batchArrive host id size within record).1.map fun records => (id, records)
  | .takeBatch id => if world.collected id = [] then none else some (id, world.collected id)
  | _ => none

end Op

section Ledger

variable (host : Host)

/-- The records that have entered a batch. -/
def entries (id : String) (steps : List (Occurrence Engine World)) : List Record :=
  steps.flatMap fun step => step.op.entering id

/-- The batches that have been taken out of their buffers. -/
def takenBatches (steps : List (Occurrence Engine World)) : List (String × List Record) :=
  steps.filterMap fun step => step.op.taken host step.world

/-- The batches of one buffer. -/
def batchesOf (id : String) (batches : List (String × List Record)) : List (List Record) :=
  (batches.filter fun batch => batch.1 = id).map (·.2)

variable {host} {world after : World} {id : String} {op : Op}

theorem takenBatches_snoc {steps : List (Occurrence Engine World)} {task : Nat} :
    takenBatches host (steps ++ [⟨task, world, op⟩]) =
      takenBatches host steps ++ (op.taken host world).toList := by
  unfold takenBatches
  rw [List.filterMap_append]
  simp only [List.filterMap_cons, List.filterMap_nil]
  cases op.taken host world <;> rfl

theorem batchArrive_fst (size : Option Nat) (within : Option Duration) (record : Record) :
    (world.batchArrive host id size within record).1 =
      if world.isDue host id size within (world.collected id ++ [record]).length then
        some (world.collected id ++ [record])
      else none := rfl

theorem taken_batchArrive (size : Option Nat) (within : Option Duration) (record : Record) :
    (Op.batchArrive id size within record).taken host world =
      if (Op.batchArrive id size within record).findsDue host world then
        some (id, world.collected id ++ [record])
      else none := by
  show (world.batchArrive host id size within record).1.map _ =
    if world.isDue host id size within (world.collected id ++ [record]).length then _ else _
  rw [batchArrive_fst]
  split <;> rfl

theorem taken_takeBatch : (Op.takeBatch id).taken host world =
    if world.collected id = [] then none else some (id, world.collected id) := rfl

theorem collected_batchArrive (other : String) (size : Option Nat) (within : Option Duration)
    (record : Record) : (world.batchArrive host other size within record).2.collected id =
      if other = id then
        if world.isDue host id size within (world.collected id ++ [record]).length then []
        else world.collected id ++ [record]
      else world.collected id := by
  show (Function.update world.batches other _ id).records = _
  by_cases same : other = id
  · subst same
    rw [Function.update_self, if_pos rfl]
    exact apply_ite BatchBuffer.records _ _ _
  · rw [Function.update_of_ne (Ne.symm same), if_neg same]
    rfl

/-- Batches change by arrivals and by the final pass only. -/
theorem collected_perform (quiet : op.enters id = false) (left : op.takes id = false) :
    (World.perform host world op).2.collected id = world.collected id := by
  have writes : op.isWrite = true →
      (World.perform host world op).2.collected id = world.collected id := by
    intro writes
    obtain ⟨_, _, _, same⟩ := World.perform_write_frame host world writes
    exact congrArg (fun after => after.collected id) same
  cases op with
  | batchArrive other size within record =>
      exact (collected_batchArrive other size within record).trans
        (if_neg (of_decide_eq_false quiet))
  | takeBatch other =>
      show (Function.update world.batches other _ id).records = _
      rw [Function.update_of_ne (Ne.symm (of_decide_eq_false left))]
      rfl
  | send sink record =>
      obtain ⟨_, same⟩ := World.perform_send_frame host world sink record
      exact congrArg (fun after => after.collected id) same
  | flush sink =>
      obtain ⟨_, _, same⟩ := World.perform_flush_frame host world sink
      exact congrArg (fun after => after.collected id) same
  | save key value => exact writes rfl
  | delete key => exact writes rfl
  | _ => rfl

/-- A batch that is taken is empty. -/
theorem collected_of_takes (takes : op.takes id = true) :
    (World.perform host world op).2.collected id = [] := by
  cases op with
  | takeBatch other =>
      obtain rfl := of_decide_eq_true takes
      show (Function.update world.batches other _ other).records = _
      rw [Function.update_self]
  | _ => cases takes

/-- An arrival empties a batch that is due and adds to any other. -/
theorem collected_of_enters (enters : op.enters id = true) :
    (World.perform host world op).2.collected id =
      if op.findsDue host world then [] else world.collected id ++ op.entering id := by
  cases op with
  | batchArrive other size within record =>
      obtain rfl := of_decide_eq_true enters
      have brought : (Op.batchArrive other size within record).entering other = [record] :=
        if_pos rfl
      rw [brought]
      exact (collected_batchArrive other size within record).trans (if_pos rfl)
  | _ => cases enters

/-- What is in a batch stays or is taken out. -/
theorem balance_perform (op : Op) : world.collected id ++ op.entering id =
    (batchesOf id (op.taken host world).toList).flatten ++
      (World.perform host world op).2.collected id := by
  cases op with
  | batchArrive other size within record =>
      by_cases same : other = id
      · subst same
        have enters : (Op.batchArrive other size within record).enters other = true :=
          decide_eq_true rfl
        rw [collected_of_enters enters]
        rw [taken_batchArrive]
        by_cases due : (Op.batchArrive other size within record).findsDue host world = true
        · rw [if_pos due, if_pos due]
          simp [batchesOf, Op.entering]
        · rw [if_neg due, if_neg due]
          simp [batchesOf, Op.entering]
      · have elsewhere : (Op.batchArrive other size within record).enters id = false :=
          decide_eq_false same
        rw [collected_perform elsewhere rfl]
        have none_ : (Op.batchArrive other size within record).entering id = [] := if_neg same
        have apart : batchesOf id ((Op.batchArrive other size within record).taken host
            world).toList = [] := by
          rw [taken_batchArrive]
          split <;> simp [batchesOf, same]
        rw [none_, apart, List.append_nil]
        rfl
  | takeBatch other =>
      by_cases same : other = id
      · subst same
        have takes : (Op.takeBatch other).takes other = true := decide_eq_true rfl
        rw [collected_of_takes takes, taken_takeBatch]
        split
        · next empty => simp [batchesOf, Op.entering, empty]
        · simp [batchesOf, Op.entering]
      · have elsewhere : (Op.takeBatch other).takes id = false := decide_eq_false same
        rw [collected_perform rfl elsewhere]
        have apart : batchesOf id ((Op.takeBatch other).taken host world).toList = [] := by
          rw [taken_takeBatch]
          split <;> simp [batchesOf, same]
        rw [apart]
        exact List.append_nil _
  | _ =>
      rw [collected_perform rfl rfl]
      exact List.append_nil _

/-- **The ledger of a batch.** What it held and what has entered is what has been taken out
and what it holds. -/
theorem balance {steps : List (Occurrence Engine World)}
    (history : History (World.perform host) world steps after) (id : String) :
    world.collected id ++ entries id steps =
      (batchesOf id (takenBatches host steps)).flatten ++ after.collected id := by
  induction history with
  | nil => simp [entries, takenBatches, batchesOf]
  | @snoc steps between earlier task op ih =>
      have entered : entries id (steps ++ [⟨task, between, op⟩]) =
          entries id steps ++ op.entering id := by
        simp only [entries, List.flatMap_append, List.flatMap_cons, List.flatMap_nil,
          List.append_nil]
      have taken : batchesOf id (takenBatches host (steps ++ [⟨task, between, op⟩])) =
          batchesOf id (takenBatches host steps) ++
            batchesOf id (op.taken host between).toList := by
        rw [takenBatches_snoc]
        unfold batchesOf
        rw [List.filter_append, List.map_append]
      rw [entered, taken, ← List.append_assoc, ih, List.append_assoc,
        @balance_perform host between id op, List.flatten_append, List.append_assoc]

/-- An operation on the buffer of a batch. -/
def Op.touches (id : String) (op : Op) : Bool := op.enters id || op.takes id

theorem collected_of_untouched {steps : List (Occurrence Engine World)}
    (history : History (World.perform host) world steps after)
    (untouched : ∀ step ∈ steps, step.op.touches id = false) :
    after.collected id = world.collected id := by
  induction history with
  | nil => rfl
  | @snoc steps between earlier task op ih =>
      have last : op.touches id = false :=
        untouched _ (List.mem_append_right _ List.mem_cons_self)
      obtain ⟨quiet, left⟩ := Bool.or_eq_false_iff.mp last
      rw [collected_perform quiet left]
      exact ih fun step member => untouched step (List.mem_append_left _ member)

variable (host) in
/-- After the final pass has taken a batch, the last record to arrive there finds it due. -/
def EndsDue (id : String) (pass : List (Occurrence Engine World)) : Prop :=
  ∀ before step rest, pass = before ++ step :: rest →
    (∃ earlier ∈ before, earlier.op.takes id = true) → step.op.enters id = true →
      (∀ later ∈ rest, later.op.touches id = false) → step.op.findsDue host step.world = true

/-- **When a batch that has been taken is empty at the end.** -/
theorem collected_eq_nil_iff {pass : List (Occurrence Engine World)}
    (history : History (World.perform host) world pass after)
    (taken : ∃ step ∈ pass, step.op.takes id = true) :
    after.collected id = [] ↔ EndsDue host id pass := by
  have after_ : ∀ {before step rest}, pass = before ++ step :: rest →
      (∀ later ∈ rest, later.op.touches id = false) →
        after.collected id = (World.perform host step.world step.op).2.collected id := by
    rintro before step rest rfl untouched
    exact collected_of_untouched history.at.2 untouched
  constructor
  · intro empty before step rest split _ enters untouched
    have left := (after_ split untouched).symm.trans empty
    rw [collected_of_enters enters] at left
    by_contra early
    rw [if_neg early] at left
    have brought : step.op.entering id ≠ [] := by
      obtain ⟨_, _, op⟩ := step
      cases op with
      | batchArrive other size within record =>
          intro none_
          have here : (Op.batchArrive other size within record).entering id = [record] :=
            if_pos (of_decide_eq_true enters)
          rw [here] at none_
          cases none_
      | _ => cases enters
    exact brought (List.append_eq_nil_iff.mp left).2
  · intro due
    have touched : ∃ step ∈ pass, step.op.touches id = true := by
      obtain ⟨step, member, takes⟩ := taken
      exact ⟨step, member, Bool.or_eq_true_iff.mpr (.inr takes)⟩
    obtain ⟨before, step, rest, split, touches, none_⟩ := exists_last touched
    have untouched : ∀ later ∈ rest, later.op.touches id = false :=
      fun later member => eq_false_of_ne_true (none_ later member)
    rw [after_ split untouched]
    rcases Bool.or_eq_true_iff.mp touches with enters | takes
    · rw [collected_of_enters enters, if_pos]
      refine due before step rest split ?_ enters untouched
      obtain ⟨other, member, takes⟩ := taken
      rw [split] at member
      rcases List.mem_append.mp member with earlier | later
      · exact ⟨other, earlier, takes⟩
      · rcases List.mem_cons.mp later with rfl | inside
        · obtain ⟨_, _, op⟩ := other
          cases op <;> first | cases takes | cases enters
        · have quiet := untouched other inside
          rw [Op.touches, takes, Bool.or_true] at quiet
          cases quiet
    · exact collected_of_takes takes

end Ledger

end Sohara
