import Sohara.Buffer.Gather
import Sohara.Runtime.TracedRun

/-! # The ledger of a join

What has arrived at a join under one correlation, what it has released, and what it
still holds. A join is a gatherer for each correlation: it waits for a fixed number of
arrivals, whichever they are.
-/

namespace Sohara

open Async Async.Program Gather

namespace Op

/-- Whether an operation is an arrival at a join under a correlation. -/
def arrivesAt (id correlation : String) : Op → Bool
  | .joinArrive other group _ _ _ _ => decide (other = id ∧ group = correlation)
  | _ => false

/-- The record of an arrival. -/
def arriving : Op → Record
  | .joinArrive _ _ _ _ _ record => record
  | _ => default

/-- The group an arrival releases in a world. -/
def releasedIn (world : World) : Op → Option (List Record)
  | .joinArrive id correlation mode expected threshold record =>
      (world.joinArrive id correlation mode expected threshold record).1
  | _ => none

end Op

namespace World

/-- The records a join holds under a correlation. -/
def held (world : World) (id correlation : String) : List Record :=
  ((world.joins id).get? correlation).getD []

/-- Whether a group is ready. -/
def isReady (mode : JoinMode) (expected threshold count : Nat) : Bool :=
  match mode with
  | .any => true
  | .all => decide (expected ≤ count)
  | .n => decide (threshold ≤ count)

theorem joinArrive_fst (world : World) (id correlation : String) (mode : JoinMode)
    (expected threshold : Nat) (record : Record) :
    (world.joinArrive id correlation mode expected threshold record).1 =
      if isReady mode expected threshold (world.held id correlation ++ [record]).length then
        some (world.held id correlation ++ [record])
      else none := rfl

theorem joins_joinArrive (world : World) (other group : String) (mode : JoinMode)
    (expected threshold : Nat) (record : Record) :
    (world.joinArrive other group mode expected threshold record).2.joins =
      Function.update world.joins other ((world.joins other).insert group
        (if isReady mode expected threshold (world.held other group ++ [record]).length then []
          else world.held other group ++ [record])) := rfl

theorem get?_joins_joinArrive (world : World) (id correlation other group : String)
    (mode : JoinMode) (expected threshold : Nat) (record : Record) :
    ((world.joinArrive other group mode expected threshold record).2.joins id).get? correlation =
      if other = id ∧ group = correlation then
        some (if isReady mode expected threshold (world.held id correlation ++ [record]).length
          then [] else world.held id correlation ++ [record])
      else (world.joins id).get? correlation := by
  by_cases here : other = id
  · subst here
    rw [joins_joinArrive, Function.update_self, Assoc.get?_insert]
    by_cases same : group = correlation
    · subst same
      have both : other = other ∧ group = group := ⟨rfl, rfl⟩
      rw [if_pos (rfl : group = group), if_pos both]
    · rw [if_neg same, if_neg fun both => same both.2]
  · rw [joins_joinArrive, Function.update_of_ne (Ne.symm here), if_neg fun both => here both.1]

theorem held_joinArrive (world : World) (id correlation other group : String) (mode : JoinMode)
    (expected threshold : Nat) (record : Record) :
    (world.joinArrive other group mode expected threshold record).2.held id correlation =
      if other = id ∧ group = correlation then
        if isReady mode expected threshold (world.held id correlation ++ [record]).length then []
        else world.held id correlation ++ [record]
      else world.held id correlation := by
  rw [held, get?_joins_joinArrive]
  split <;> rfl

/-- Joins change by arrivals only. -/
theorem get?_joins_perform (host : Host) (world : World) (id correlation : String) {op : Op}
    (other : op.arrivesAt id correlation = false) :
    ((perform host world op).2.joins id).get? correlation =
      (world.joins id).get? correlation := by
  have writes : op.isWrite = true → ((perform host world op).2.joins id).get? correlation =
      (world.joins id).get? correlation := by
    intro writes
    obtain ⟨_, _, _, same⟩ := perform_write_frame host world writes
    exact congrArg (fun after => (after.joins id).get? correlation) same
  cases op with
  | joinArrive node group mode expected threshold record =>
      have apart := of_decide_eq_false other
      exact (get?_joins_joinArrive world id correlation node group mode expected threshold
        record).trans (if_neg apart)
  | send sink record =>
      obtain ⟨_, same⟩ := perform_send_frame host world sink record
      exact congrArg (fun after => (after.joins id).get? correlation) same
  | flush sink =>
      obtain ⟨_, _, same⟩ := perform_flush_frame host world sink
      exact congrArg (fun after => (after.joins id).get? correlation) same
  | save key value => exact writes rfl
  | delete key => exact writes rfl
  | _ => rfl

theorem held_perform (host : Host) (world : World) (id correlation : String) {op : Op}
    (other : op.arrivesAt id correlation = false) :
    (perform host world op).2.held id correlation = world.held id correlation := by
  rw [held, get?_joins_perform host world id correlation other]
  rfl

end World

namespace Executor

variable (executor : Executor)

/-- The number of arrivals a join waits for. -/
def awaited (id : String) : Nat :=
  match executor.joinBuffer id with
  | some (.any, _, _) => 1
  | some (.all, expected, _) => max expected 1
  | some (.n, _, n) => max n 1
  | none => 1

theorem awaited_pos (id : String) : 0 < executor.awaited id := by
  unfold awaited
  split <;> omega

/-- Arrivals have the settings of the buffer. -/
def JoinsAs (op : Op) : Prop :=
  ∀ id correlation mode expected threshold record,
    op = .joinArrive id correlation mode expected threshold record →
      ∃ incoming n, executor.joinBuffer id = some (mode, incoming, n) ∧
        expected = max incoming 1 ∧ threshold = max n 1

theorem allows_joins (node : Node) : executor.Allows executor.JoinsAs node where
  quiet op quiet id correlation mode expected threshold record same := by
    rw [same] at quiet
    exact quiet.elim
  state _ _ := by rintro _ _ _ _ _ _ ⟨⟩
  send _ _ := by rintro _ _ _ _ _ _ ⟨⟩
  lookup _ _ := by rintro _ _ _ _ _ _ ⟨⟩
  marker _ _ := by rintro _ _ _ _ _ _ ⟨⟩
  queue _ _ := by rintro _ _ _ _ _ _ ⟨⟩
  park _ _ _ := by rintro _ _ _ _ _ _ ⟨⟩
  wait _ _ := by rintro _ _ _ _ _ _ ⟨⟩
  join _ mode expected n buffer correlation record := by
    rintro id group mode' expected' threshold record' ⟨⟩
    exact ⟨expected, n, buffer, rfl, rfl⟩
  update _ _ := by rintro _ _ _ _ _ _ ⟨⟩
  collect _ _ _ _ := by rintro _ _ _ _ _ _ ⟨⟩
  merge _ := by rintro _ _ _ _ _ _ ⟨⟩
  emit _ _ := by rintro _ _ _ _ _ _ ⟨⟩

theorem takes_joins : ∀ id ∈ executor.batches, executor.JoinsAs (.takeBatch id) := by
  rintro _ _ _ _ _ _ _ _ ⟨⟩

theorem flushes_joins : ∀ id ∈ executor.sinks, executor.JoinsAs (.flush id) := by
  rintro _ _ _ _ _ _ _ _ ⟨⟩

theorem emits_joins (records : List Record) :
    executor.JoinsAs (.newRecord (batchPayload records)) := by
  rintro _ _ _ _ _ _ ⟨⟩

variable {executor}

/-- A group is ready when as many records as awaited have come together. -/
theorem JoinsAs.isReady {id correlation : String} {mode : JoinMode} {expected threshold : Nat}
    {record : Record}
    (joins : executor.JoinsAs (.joinArrive id correlation mode expected threshold record))
    {count : Nat} (some_ : 0 < count) :
    World.isReady mode expected threshold count = decide (executor.awaited id ≤ count) := by
  obtain ⟨incoming, n, buffer, rfl, rfl⟩ := joins _ _ _ _ _ _ rfl
  unfold World.isReady awaited
  rw [buffer]
  cases mode with
  | any => exact (decide_eq_true some_).symm
  | all => rfl
  | n => rfl

end Executor

section Ledger

variable {T : Type} (view : T → Occurrence Engine World) (id correlation : String)

/-- One more operation in the ledger of a join. -/
def logArrival (ledger : Gathered T) (step : T) : Gathered T :=
  if (view step).op.arrivesAt id correlation then
    if ((view step).op.releasedIn (view step).world).isSome then
      ⟨[], ledger.released ++ [ledger.pending ++ [step]]⟩
    else ⟨ledger.pending ++ [step], ledger.released⟩
  else ledger

/-- The arrivals at a join under a correlation: those since the last release, and those
of each release. -/
def joinLedger (steps : List T) : Gathered T :=
  steps.foldl (logArrival view id correlation) ⟨[], []⟩

/-- The arrivals at a join under a correlation. -/
def arrivals (steps : List T) : List T :=
  steps.filter fun step => (view step).op.arrivesAt id correlation

/-- The records of arrivals. -/
def recordsOf (steps : List T) : List Record := steps.map fun step => (view step).op.arriving

variable {view id correlation}

theorem joinLedger_snoc (steps : List T) (step : T) :
    joinLedger view id correlation (steps ++ [step]) =
      logArrival view id correlation (joinLedger view id correlation steps) step := by
  unfold joinLedger
  rw [List.foldl_append, List.foldl_cons, List.foldl_nil]

/-- What a ledger holds back has arrived. -/
theorem arrived_of_pending {steps : List T} {step : T}
    (held : step ∈ (joinLedger view id correlation steps).pending) :
    step ∈ steps ∧ (view step).op.arrivesAt id correlation = true := by
  induction steps using List.reverseRecOn with
  | nil => cases held
  | append_singleton steps last ih =>
      rw [joinLedger_snoc] at held
      unfold logArrival at held
      have earlier : step ∈ (joinLedger view id correlation steps).pending →
          step ∈ steps ++ [last] ∧ (view step).op.arrivesAt id correlation = true :=
        fun old => ⟨List.mem_append_left _ (ih old).1, (ih old).2⟩
      split at held
      · next here =>
          split at held
          · cases held
          · rcases List.mem_append.mp held with old | new
            · exact earlier old
            · obtain rfl := List.mem_singleton.mp new
              exact ⟨List.mem_append_right _ List.mem_cons_self, here⟩
      · exact earlier held

theorem arrivals_snoc (steps : List T) (step : T) :
    arrivals view id correlation (steps ++ [step]) =
      if (view step).op.arrivesAt id correlation then arrivals view id correlation steps ++ [step]
      else arrivals view id correlation steps := by
  unfold arrivals
  rw [List.filter_append]
  cases here : (view step).op.arrivesAt id correlation with
  | false =>
      rw [List.filter_cons_of_neg (by simp [here]), List.filter_nil, List.append_nil]
      rfl
  | true =>
      rw [List.filter_cons_of_pos (by simp [here]), List.filter_nil]
      rfl

theorem recordsOf_append (first second : List T) :
    recordsOf view (first ++ second) = recordsOf view first ++ recordsOf view second :=
  List.map_append

variable {executor : Executor} {host : Host} {world after : World}

/-- **One arrival.** The group is released, with the records held before, when it is as
large as awaited. -/
theorem arrival_of_held {pending : List T} {step : T} {op : Op} (performed : (view step).op = op)
    (here : op.arrivesAt id correlation = true) (settings : executor.JoinsAs op)
    (holds : world.held id correlation = recordsOf view pending) :
    op.releasedIn world =
        (if executor.awaited id ≤ (pending ++ [step]).length then
          some (recordsOf view (pending ++ [step]))
        else none) ∧
      (World.perform host world op).2.held id correlation =
        if executor.awaited id ≤ (pending ++ [step]).length then []
        else recordsOf view (pending ++ [step]) := by
  cases op with
  | joinArrive node correlated mode expected threshold record =>
      obtain ⟨rfl, rfl⟩ := of_decide_eq_true here
      have group : world.held node correlated ++ [record] = recordsOf view (pending ++ [step]) := by
        rw [recordsOf_append, ← holds, recordsOf, List.map_singleton, performed]
        rfl
      have count : (recordsOf view (pending ++ [step])).length = (pending ++ [step]).length :=
        List.length_map ..
      have some_ : 0 < (pending ++ [step]).length := by
        rw [List.length_append, List.length_singleton]
        omega
      have both : node = node ∧ correlated = correlated := ⟨rfl, rfl⟩
      have left := World.held_joinArrive world node correlated node correlated mode expected
        threshold record
      rw [if_pos both, group, count, settings.isReady some_] at left
      rw [Op.releasedIn, World.joinArrive_fst, group, count, settings.isReady some_]
      by_cases due : executor.awaited node ≤ (pending ++ [step]).length
      · rw [if_pos (decide_eq_true due)] at left ⊢
        rw [if_pos due, if_pos due]
        exact ⟨rfl, left⟩
      · rw [if_neg (fun holds => due (of_decide_eq_true holds))] at left ⊢
        rw [if_neg due, if_neg due]
        exact ⟨rfl, left⟩
  | _ => cases here

/-- **The ledger of a join.** Its arrivals are gathered into groups of as many as are
awaited; the join holds the records of the unfinished group. -/
theorem joinLedger_eq_gather {steps : List T}
    (history : History (World.perform host) world (steps.map view) after)
    (joins : Permitted executor.JoinsAs (steps.map view))
    (empty : world.held id correlation = []) :
    joinLedger view id correlation steps =
        gather (executor.awaited id) (arrivals view id correlation steps) ∧
      after.held id correlation =
        recordsOf view (joinLedger view id correlation steps).pending := by
  induction steps using List.reverseRecOn generalizing after with
  | nil =>
      obtain rfl := History.of_nil history
      exact ⟨rfl, empty⟩
  | append_singleton steps step ih =>
      rw [List.map_append, List.map_singleton] at history joins
      obtain ⟨earlier, rfl⟩ := history.of_snoc
      obtain ⟨same, holds⟩ := ih earlier fun other member =>
        joins other (List.mem_append_left _ member)
      have settings : executor.JoinsAs (view step).op :=
        joins (view step) (List.mem_append_right _ List.mem_cons_self)
      rw [joinLedger_snoc]
      unfold logArrival
      cases here : (view step).op.arrivesAt id correlation with
      | false =>
          rw [arrivals_snoc, here, if_neg Bool.false_ne_true, if_neg Bool.false_ne_true,
            World.held_perform host _ id correlation here]
          exact ⟨same, holds⟩
      | true =>
          obtain ⟨releases, left⟩ := @arrival_of_held _ view id correlation executor host
            (view step).world _ step _ rfl here settings holds
          rw [if_pos rfl, arrivals_snoc, here, if_pos rfl, gather_snoc, ← same, left, releases]
          unfold push
          by_cases due : executor.awaited id ≤
              ((joinLedger view id correlation steps).pending ++ [step]).length
          · rw [if_pos due, if_pos due, if_pos due]
            exact ⟨rfl, rfl⟩
          · rw [if_neg due, if_neg due, if_neg due]
            exact ⟨rfl, rfl⟩

end Ledger

end Sohara
