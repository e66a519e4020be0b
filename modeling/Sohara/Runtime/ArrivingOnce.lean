import Sohara.Async.Tracking
import Sohara.Runtime.JoinLedger

/-! # A visit arrives once

A visit of a join arrives there with its record, once, and no other visit arrives at a join.
-/

namespace Sohara

open Async Async.Program

/-- Whether an operation is an arrival at a join. -/
def Op.isArrival : Op → Bool
  | .joinArrive _ _ _ _ _ _ => true
  | _ => false

theorem isArrival_of_arrivesAt {op : Op} {name correlation : String}
    (here : op.arrivesAt name correlation = true) : op.isArrival = true := by
  cases op with
  | joinArrive => rfl
  | _ => cases here

/-- At most one arrival. -/
def oneArrival : Protocol Engine Bool where
  rest := false
  permits arrived op := op.isArrival = true → arrived = false
  advance arrived op _ := arrived || op.isArrival

namespace Executor

variable {executor : Executor} {node : Node} {record : Record} {α : Type}

variable (executor) in
/-- A program that arrives at most once. -/
abbrev ArrivesOnce (post : α → Bool → Prop) (program : Prog α) (arrived : Bool) : Prop :=
  program.Conforms (fun _ _ => True) executor.Known oneArrival post arrived

/-- A program without arrivals may run before and after one. -/
theorem arrivesOnce_of_safe {program : Prog α} {arrived : Bool}
    (safe : Safe (S := Engine) (fun _ _ => True) (fun op => op.isArrival = false) executor.Known
      program) : executor.ArrivesOnce (fun _ after => after = arrived) program arrived := by
  refine conforms_of_safe (safe.mono (fun op other => ?_) (fun _ => id) fun _ => id)
  refine ⟨fun arrives => ?_, fun response => ?_⟩
  · rw [other] at arrives
    cases arrives
  · show (arrived || op.isArrival) = arrived
    rw [other, Bool.or_false]

theorem allows_unarriving (notJoin : ∀ mode n, node.step ≠ .control (.join mode n)) :
    executor.Allows (fun op => op.isArrival = false) node where
  quiet op quiet := by
    cases op with
    | joinArrive => exact quiet.elim
    | _ => rfl
  state _ _ := rfl
  send _ _ := rfl
  lookup _ _ := rfl
  marker _ _ := rfl
  queue _ _ := rfl
  park _ _ _ := rfl
  wait _ _ := rfl
  join isJoin := by
    obtain ⟨mode, n, same⟩ := isJoin
    exact absurd same (notJoin mode n)
  update _ _ := rfl
  collect _ _ _ _ := rfl
  merge _ := rfl
  emit _ _ := rfl

/-- Nothing arrives around a walk. -/
theorem performs_unarriving : executor.Performs (fun _ _ => True)
    (fun op => op.isArrival = false) executor.Known default := by
  have notJoin : ∀ mode n, (default : Node).step ≠ .control (.join mode n) := fun _ _ => nofun
  exact (allows_unarriving notJoin).performs

theorem arrivesOnce_applyJoin (leads : executor.Leads executor.Known node) :
    executor.ArrivesOnce (fun _ _ => True) (executor.applyJoin node record) false := by
  have performs : executor.Performs _ _ _ _ := performs_unarriving
  refine (arrivesOnce_of_safe (safe_correlationOf performs record)).bind ?_
  rintro correlation _ rfl
  cases executor.joinBuffer node.id with
  | none => exact conforms_pure trivial
  | some settings =>
      refine ⟨fun _ => rfl, fun group _ => ?_⟩
      cases group with
      | none => exact conforms_pure trivial
      | some records =>
          have merged : Safe (S := Engine) (fun _ _ => True) (fun op => op.isArrival = false)
              executor.Known (mergeRecords records >>= fun merged =>
                executor.route merged node) := by
            refine Safe.bind ?_ fun merged => safe_route performs leads merged
            cases records with
            | nil => exact safe_op rfl
            | cons first rest => exact safe_pure _
          exact (arrivesOnce_of_safe merged).mono fun _ _ _ => trivial

theorem arrivesOnce_walkCall (formed : executor.graph.WellFormed) {call : Call}
    (known : executor.Known call) :
    executor.ArrivesOnce (fun _ _ => True) (walkCall call) false := by
  obtain ⟨rfl, node, found⟩ := known
  have leads := leads_known formed found
  by_cases isJoin : ∃ mode n, node.step = .control (.join mode n)
  · obtain ⟨mode, n, isJoin⟩ := isJoin
    have performs : call.executor.Performs _ _ _ _ := performs_unarriving
    show call.executor.ArrivesOnce _ (call.executor.walk call.record call.node) false
    unfold walk
    rw [found]
    refine (arrivesOnce_of_safe (safe_nodeOpen performs.quiet call.record.payload)).bind ?_
    rintro isOpen _ rfl
    cases isOpen
    · exact conforms_pure trivial
    · show call.executor.ArrivesOnce _ (call.executor.applyStep node call.record) false
      unfold applyStep
      rw [isJoin]
      exact arrivesOnce_applyJoin leads
  · have performs : call.executor.Performs (fun _ _ => True) (fun op => op.isArrival = false)
        call.executor.Known node :=
      (allows_unarriving fun mode n same => isJoin ⟨mode, n, same⟩).performs
    exact (arrivesOnce_of_safe (safe_walk found performs leads call.record)).mono
      fun _ _ _ => trivial

end Executor

section Runs

variable {executor : Executor} {host : Host} {world : World}
  {steps : List (Occurrence (Traced Engine) World)} {config : Config (Traced Engine) World}

/-- Of two arrivals in this order, the visits differ. -/
def ApartInArrival (first second : Occurrence (Traced Engine) World) : Prop :=
  first.op.1.isArrival = true → second.op.1.isArrival = true → first.op.2 ≠ second.op.2

/-- Every arrival is noted in its visit, and no visit has arrived twice. -/
def ArrivingApart (host : Host) (steps : List (Occurrence (Traced Engine) World)) : Prop :=
  (∀ step ∈ steps, step.op.1.isArrival = true →
      progress (fun _ => oneArrival) (World.perform host) steps step.op.2 = true) ∧
    steps.Pairwise ApartInArrival

theorem ArrivingApart.step {index : Nat} {op : Op} {visit : Visit Engine}
    (apart : ArrivingApart host steps)
    (permitted : op.isArrival = true →
      progress (fun _ => oneArrival) (World.perform host) steps visit = false) :
    ArrivingApart host (steps ++ [⟨index, world, (op, visit)⟩]) := by
  obtain ⟨noted, apart⟩ := apart
  refine ⟨fun step member arrives => ?_, ?_⟩
  · rcases List.mem_append.mp member with old | new
    · have before := noted step old arrives
      by_cases same : visit = step.op.2
      · rw [← same] at before ⊢
        rw [progress_snoc_self]
        exact Bool.or_eq_true_iff.mpr (.inl before)
      · rw [progress_snoc_of_ne same]
        exact before
    · obtain rfl := List.mem_singleton.mp new
      rw [progress_snoc_self]
      exact Bool.or_eq_true_iff.mpr (.inr arrives)
  · refine List.pairwise_append.mpr ⟨apart, List.pairwise_singleton _ _, ?_⟩
    intro first early second late before arrives same
    obtain rfl := List.mem_singleton.mp late
    have once := noted first early before
    rw [same, permitted arrives] at once
    cases once

/-- **A visit arrives at most once** in a run. -/
theorem arrivals_apart (formed : executor.graph.WellFormed)
    (run : executor.TracedRun host world steps config) : steps.Pairwise ApartInArrival := by
  have starts : ∀ origin, ∀ program ∈ executor.programs,
      executor.ArrivesOnce (fun _ _ => True) program
        ((fun _ => oneArrival) (⟨origin, []⟩ : Visit Engine)).rest := by
    intro origin program member
    exact (Executor.arrivesOnce_of_safe (Executor.safe_programs formed
      Executor.performs_unarriving (fun _ _ => rfl) (fun _ _ => rfl) (fun _ => rfl) program member)).mono
        fun _ _ _ => trivial
  have tracked : Config.Tracked (fun _ => oneArrival) (World.perform host) (fun _ _ => True)
      executor.Known walkCall [] ⟨world, spawnedAll executor.programs⟩ :=
    Config.tracked_spawnedAll starts
  have initial : ArrivingApart host [] := ⟨(fun _ member => nomatch member), .nil⟩
  exact (tracked.run (fun steps _ => ArrivingApart host steps)
    (fun _ hop known => Executor.arrivesOnce_walkCall formed known)
    (fun _ _ _ _ _ apart permitted => ⟨trivial, apart.step permitted⟩) initial run).2.2

end Runs

end Sohara
