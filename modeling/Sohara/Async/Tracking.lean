import Mathlib.Data.List.Induction
import Mathlib.Data.Set.Lattice
import Mathlib.Order.CompletePartialOrder
import Sohara.Async.Lineage
import Sohara.Async.Protocol

/-! # Visits following automata

An automaton may watch the operations of a single visit, whatever runs in between. Every
visit belongs to one place in the tree of calls, so its own operations are those of one
program: they lead the automaton from state to state as if the program were alone. An
invariant of the world over all visits need only be preserved by the operations that the
automata permit.
-/

namespace Async

variable {S : Signature} {G W α β : Type}

namespace Program

section Definitions

variable (admits : (op : S.Op) → S.Response op → Prop) (onCall : S.Call → Prop)
  (protocol : Protocol S G)

/-- From the given state on, the program performs only permitted operations, may await
calls in any state, and returns values satisfying `post` in their state. -/
def Conforms (post : α → G → Prop) : Program S α → G → Prop
  | .done value, state => post value state
  | .perform op next, state => protocol.permits state op ∧ ∀ response, admits op response →
      Conforms post (next response) (protocol.advance state op response)
  | .await calls next, state => (∀ target ∈ calls, onCall target) ∧
      ∀ outcome, Conforms post (next outcome) state

end Definitions

variable {admits : (op : S.Op) → S.Response op → Prop} {onCall : S.Call → Prop}
  {protocol : Protocol S G} {post : α → G → Prop} {last : β → G → Prop}

/-- Sequencing rule. -/
theorem Conforms.bind {program : Program S α} {after : α → Program S β} {state : G}
    (first : Conforms admits onCall protocol post program state)
    (second : ∀ value state, post value state →
      Conforms admits onCall protocol last (after value) state) :
    Conforms admits onCall protocol last (program >>= after) state := by
  show Conforms admits onCall protocol last (program.bind after) state
  induction program generalizing state with
  | done value => exact second value state first
  | perform op next ih =>
      exact ⟨first.1, fun response admitted => ih response (first.2 response admitted)⟩
  | await calls next ih => exact ⟨first.1, fun outcome => ih outcome (first.2 outcome)⟩

/-- One operation. -/
theorem conforms_op {op : S.Op} {state : G} {post : S.Response op → G → Prop}
    (permitted : protocol.permits state op)
    (results : ∀ response, admits op response →
      post response (protocol.advance state op response)) :
    Conforms admits onCall protocol post (Program.op op) state := ⟨permitted, results⟩

theorem conforms_pure {value : α} {state : G} (holds : post value state) :
    Conforms admits onCall protocol post (pure value) state := holds

theorem Conforms.mono {program : Program S α} {post' : α → G → Prop} {state : G}
    (conforms : Conforms admits onCall protocol post program state)
    (results : ∀ value state, post value state → post' value state) :
    Conforms admits onCall protocol post' program state := by
  induction program generalizing state with
  | done value => exact results value state conforms
  | perform op next ih =>
      exact ⟨conforms.1, fun response admitted => ih response (conforms.2 response admitted)⟩
  | await calls next ih => exact ⟨conforms.1, fun outcome => ih outcome (conforms.2 outcome)⟩

/-- A program of operations that keep a set of states stays in it. -/
theorem conforms_of_obeys {program : Program S α} {kept : G → Prop} {result : α → Prop} {state : G}
    (obeys : program.Obeys admits (fun op => ∀ state, kept state → protocol.permits state op ∧
      ∀ response, admits op response → kept (protocol.advance state op response)) onCall result)
    (holds : kept state) :
    Conforms admits onCall protocol (fun value state => kept state ∧ result value) program
      state := by
  induction program generalizing state with
  | done value => exact ⟨holds, obeys⟩
  | perform op next ih =>
      refine ⟨(obeys.1 state holds).1, fun response admitted => ?_⟩
      exact ih response (obeys.2 response admitted) ((obeys.1 state holds).2 response admitted)
  | await calls next ih =>
      exact ⟨obeys.1, fun outcome => ih outcome (obeys.2 outcome) holds⟩

/-- A program of operations that keep a state stays in that state. -/
theorem conforms_of_safe {program : Program S α} {state : G}
    (safe : Safe admits (fun op => protocol.permits state op ∧
      ∀ response, protocol.advance state op response = state) onCall program) :
    Conforms admits onCall protocol (fun _ after => after = state) program state := by
  have kept : program.Obeys admits (fun op => ∀ other, other = state → protocol.permits other op ∧
      ∀ response, admits op response → protocol.advance other op response = state) onCall
        fun _ => True := by
    refine safe.mono (fun op keeps => ?_) (fun _ => id) fun _ => id
    rintro other rfl
    exact ⟨keeps.1, fun response _ => keeps.2 response⟩
  have both : Conforms admits onCall protocol (fun _ after => after = state ∧ True) program state :=
    conforms_of_obeys kept rfl
  exact both.mono fun _ _ => And.left

end Program

section Progress

variable (protocols : Visit S → Protocol S G) (handle : Handler S W)

open Classical in
/-- The state of a visit's automaton: only its own operations count. -/
noncomputable def progress (steps : List (Occurrence (Traced S) W)) (visit : Visit S) : G :=
  steps.foldl (fun state step =>
    if step.op.2 = visit then
      (protocols visit).advance state step.op.1 (handle step.world step.op.1).1
    else state) (protocols visit).rest

variable {protocols handle} {steps : List (Occurrence (Traced S) W)}
  {step : Occurrence (Traced S) W} {visit : Visit S}

@[simp] theorem progress_nil : progress protocols handle [] visit = (protocols visit).rest := rfl

theorem progress_snoc_self {index : Nat} {world : W} {op : S.Op} :
    progress protocols handle (steps ++ [⟨index, world, (op, visit)⟩]) visit =
      (protocols visit).advance (progress protocols handle steps visit) op
        (handle world op).1 := by
  unfold progress
  rw [List.foldl_append, List.foldl_cons, List.foldl_nil, if_pos rfl]

theorem progress_snoc_of_ne (other : step.op.2 ≠ visit) :
    progress protocols handle (steps ++ [step]) visit = progress protocols handle steps visit := by
  unfold progress
  rw [List.foldl_append, List.foldl_cons, List.foldl_nil, if_neg other]

/-- The operations of a visit may be told by a test. -/
theorem progress_eq_foldl {test : Occurrence (Traced S) W → Bool}
    (tells : ∀ step ∈ steps, (test step = true ↔ step.op.2 = visit)) :
    progress protocols handle steps visit =
      (steps.filter test).foldl (fun state step =>
        (protocols visit).advance state step.op.1 (handle step.world step.op.1).1)
          (protocols visit).rest := by
  induction steps using List.reverseRecOn with
  | nil => rfl
  | append_singleton steps step ih =>
      have earlier := ih fun other member => tells other (List.mem_append_left _ member)
      have last := tells step (List.mem_append_right _ List.mem_cons_self)
      rw [List.filter_append, List.foldl_append, ← earlier]
      by_cases own : step.op.2 = visit
      · obtain ⟨index, world, op, other⟩ := step
        obtain rfl : other = visit := own
        rw [progress_snoc_self, List.filter_cons_of_pos (last.mpr rfl)]
        rfl
      · rw [progress_snoc_of_ne own, List.filter_cons_of_neg fun same => own (last.mp same)]
        rfl

end Progress

/-- No visit of the region has performed anything. -/
def Untouched (steps : List (Occurrence (Traced S) W)) (region : Set (Visit S)) : Prop :=
  ∀ step ∈ steps, step.op.2 ∉ region

theorem Untouched.snoc {steps : List (Occurrence (Traced S) W)} {step : Occurrence (Traced S) W}
    {region : Set (Visit S)} (untouched : Untouched steps region) (outside : step.op.2 ∉ region) :
    Untouched (steps ++ [step]) region := by
  intro other member
  rcases List.mem_append.mp member with old | new
  · exact untouched other old
  · rw [List.mem_singleton.mp new]
    exact outside

theorem Untouched.mono {steps : List (Occurrence (Traced S) W)} {region smaller : Set (Visit S)}
    (untouched : Untouched steps region) (within : smaller ⊆ region) : Untouched steps smaller :=
  fun step member inside => untouched step member (within inside)

theorem progress_of_untouched {protocols : Visit S → Protocol S G} {handle : Handler S W}
    {steps : List (Occurrence (Traced S) W)} {visit : Visit S} {region : Set (Visit S)}
    (untouched : Untouched steps region) (inside : visit ∈ region) :
    progress protocols handle steps visit = (protocols visit).rest := by
  induction steps using List.reverseRecOn with
  | nil => rfl
  | append_singleton steps step ih =>
      have last : step.op.2 ∉ region :=
        untouched step (List.mem_append_right _ List.mem_cons_self)
      rw [progress_snoc_of_ne fun same => last (same ▸ inside)]
      exact ih fun other member => untouched other (List.mem_append_left _ member)

namespace Visit

/-- A visit and everything below it. -/
def subtree (visit : Visit S) : Set (Visit S) := {other | visit.Below other}

/-- What a visit leads to from the given position of a round on. -/
def calledFrom (visit : Visit S) (round position : Nat) : Set (Visit S) :=
  {other | ∃ hop : Hop S, hop.round = round ∧ position ≤ hop.position ∧
    (visit.enter hop).Below other}

/-- What a visit leads to from the given round on. -/
def future (visit : Visit S) (round : Nat) : Set (Visit S) :=
  {other | ∃ hop : Hop S, round ≤ hop.round ∧ (visit.enter hop).Below other}

variable {visit other : Visit S} {round : Nat}

/-- Below a visit there is one way to each other visit. -/
theorem Below.hop_unique {first second : Hop S} (left : (visit.enter first).Below other)
    (right : (visit.enter second).Below other) : first = second := by
  have nested := List.suffix_of_suffix_length_le left.2 right.2 (Nat.le_refl _)
  exact (List.cons.inj (nested.eq_of_length rfl)).1

theorem not_below_enter {hop : Hop S} : ¬ (visit.enter hop).Below visit := fun below =>
  Nat.not_succ_le_self _ below.2.length_le

theorem not_mem_future : visit ∉ visit.future round := by
  rintro ⟨hop, -, below⟩
  exact not_below_enter below

theorem calledFrom_subset_future (position : Nat) :
    visit.calledFrom round position ⊆ visit.future round := by
  rintro other ⟨hop, rfl, -, below⟩
  exact ⟨hop, Nat.le_refl _, below⟩

theorem future_succ_subset : visit.future (round + 1) ⊆ visit.future round := by
  rintro other ⟨hop, later, below⟩
  exact ⟨hop, Nat.le_of_succ_le later, below⟩

theorem disjoint_calledFrom_future (position : Nat) :
    Disjoint (visit.calledFrom round position) (visit.future (round + 1)) := by
  apply Set.disjoint_left.mpr
  rintro other ⟨first, rfl, -, below⟩ ⟨second, later, under⟩
  obtain rfl := below.hop_unique under
  exact Nat.not_succ_le_self _ later

theorem subtree_enter_subset {position : Nat} {call : S.Call} :
    (visit.enter ⟨round, position, call⟩).subtree ⊆ visit.calledFrom round position :=
  fun _ below => ⟨_, rfl, Nat.le_refl _, below⟩

theorem calledFrom_succ_subset {position : Nat} :
    visit.calledFrom round (position + 1) ⊆ visit.calledFrom round position := by
  rintro other ⟨hop, same, later, below⟩
  exact ⟨hop, same, Nat.le_of_succ_le later, below⟩

theorem disjoint_subtree_calledFrom {position : Nat} {call : S.Call} :
    Disjoint (visit.enter ⟨round, position, call⟩).subtree
      (visit.calledFrom round (position + 1)) := by
  apply Set.disjoint_left.mpr
  rintro other below ⟨hop, -, later, under⟩
  obtain rfl := Below.hop_unique below under
  exact Nat.not_succ_le_self _ later

end Visit

section Tracking

variable (protocols : Visit S → Protocol S G) (handle : Handler S W)
  (admits : (op : S.Op) → S.Response op → Prop) (onCall : S.Call → Prop)
  (body : S.Call → Program S S.Outcome) (steps : List (Occurrence (Traced S) W))

/-- The rest of a visit lies in a region, and what it still leads to is untouched. -/
structure Owns (visit : Visit S) (round : Nat) (region : Set (Visit S)) : Prop where
  own : visit ∈ region
  later : visit.future round ⊆ region
  untouched : Untouched steps (visit.future round)

/-- From here on a visit conforms to its automaton. -/
def OnTrack (visit : Visit S) (program : Program S S.Outcome) : Prop :=
  program.Conforms admits onCall (protocols visit) (fun _ _ => True)
    (progress protocols handle steps visit)

/-- Every program of a task belongs to a visit of the region and conforms to the
automaton of that visit. -/
def Task.Tracked : Task (Traced S) → Set (Visit S) → Prop
  | .call target, region => target.2.subtree ⊆ region ∧ Untouched steps target.2.subtree ∧
      (body target.1).Conforms admits onCall (protocols target.2) (fun _ _ => True)
        (protocols target.2).rest
  | .run program, region => (∃ outcome, program = .done outcome) ∨
      ∃ visit round plain, program = Program.traced visit round plain ∧
        Owns steps visit round region ∧ OnTrack protocols handle admits onCall steps visit plain
  | .both left right, region => ∃ first second, first ⊆ region ∧ second ⊆ region ∧
      Disjoint first second ∧ left.Tracked first ∧ right.Tracked second
  | .await child next, region => ∃ (visit : Visit S) (round : Nat)
      (plain : S.Outcome → Program S S.Outcome) (inner : Set (Visit S)),
      (∀ outcome, next outcome = Program.traced visit round (plain outcome)) ∧
        Owns steps visit round region ∧ inner ⊆ region ∧ visit ∉ inner ∧
          Disjoint inner (visit.future round) ∧ child.Tracked inner ∧
            ∀ outcome, OnTrack protocols handle admits onCall steps visit (plain outcome)

end Tracking

section Rules

variable {protocols : Visit S → Protocol S G} {handle : Handler S W}
  {admits : (op : S.Op) → S.Response op → Prop} {onCall : S.Call → Prop}
  {body : S.Call → Program S S.Outcome} {steps : List (Occurrence (Traced S) W)}
  {extra : Occurrence (Traced S) W} {region larger : Set (Visit S)} {visit : Visit S} {round : Nat}

theorem Owns.frame (owns : Owns steps visit round region)
    (outside : extra.op.2 ∉ visit.future round) : Owns (steps ++ [extra]) visit round region :=
  ⟨owns.own, owns.later, owns.untouched.snoc outside⟩

theorem Owns.mono (owns : Owns steps visit round region) (within : region ⊆ larger) :
    Owns steps visit round larger :=
  ⟨within owns.own, owns.later.trans within, owns.untouched⟩

theorem OnTrack.frame {program : Program S S.Outcome}
    (onTrack : OnTrack protocols handle admits onCall steps visit program)
    (other : extra.op.2 ≠ visit) :
    OnTrack protocols handle admits onCall (steps ++ [extra]) visit program := by
  unfold OnTrack
  rw [progress_snoc_of_ne other]
  exact onTrack

/-- The steps after one more event of a task, if any. -/
def extended (steps : List (Occurrence (Traced S) W)) (index : Nat) (world : W) :
    Option (Event (Traced S)) → List (Occurrence (Traced S) W)
  | none => steps
  | some event => steps ++ [⟨index, world, event.op⟩]

theorem Owns.recorded {index : Nat} {world : W} {event : Option (Event (Traced S))}
    (owns : Owns steps visit round region)
    (outside : ∀ performed, event = some performed → performed.op.2 ∉ visit.future round) :
    Owns (extended steps index world event) visit round region := by
  cases event with
  | none => exact owns
  | some performed => exact owns.frame (outside performed rfl)

theorem OnTrack.recorded {program : Program S S.Outcome} {index : Nat} {world : W}
    {event : Option (Event (Traced S))}
    (onTrack : OnTrack protocols handle admits onCall steps visit program)
    (other : ∀ performed, event = some performed → performed.op.2 ≠ visit) :
    OnTrack protocols handle admits onCall (extended steps index world event) visit program := by
  cases event with
  | none => exact onTrack
  | some performed => exact onTrack.frame (other performed rfl)

namespace Task

/-- Operations outside its region leave a task on its track. -/
theorem Tracked.frame {task : Task (Traced S)}
    (tracked : task.Tracked protocols handle admits onCall body steps region)
    (outside : extra.op.2 ∉ region) :
    task.Tracked protocols handle admits onCall body (steps ++ [extra]) region := by
  induction task generalizing region with
  | call target =>
      obtain ⟨within, untouched, conforms⟩ := tracked
      exact ⟨within, untouched.snoc fun inside => outside (within inside), conforms⟩
  | run program =>
      rcases tracked with finished | ⟨visit, round, plain, same, owns, onTrack⟩
      · exact .inl finished
      · have other : extra.op.2 ≠ visit := fun same => outside (same ▸ owns.own)
        have later : extra.op.2 ∉ visit.future round := fun inside => outside (owns.later inside)
        exact .inr ⟨visit, round, plain, same, owns.frame later, onTrack.frame other⟩
  | both left right ihLeft ihRight =>
      obtain ⟨first, second, firstWithin, secondWithin, apart, leftTracked, rightTracked⟩ := tracked
      exact ⟨first, second, firstWithin, secondWithin, apart,
        ihLeft leftTracked fun inside => outside (firstWithin inside),
        ihRight rightTracked fun inside => outside (secondWithin inside)⟩
  | await child next ih =>
      obtain ⟨visit, round, plain, inner, same, owns, within, notInner, apart, childTracked,
        onTrack⟩ := tracked
      have other : extra.op.2 ≠ visit := fun same => outside (same ▸ owns.own)
      have later : extra.op.2 ∉ visit.future round := fun inside => outside (owns.later inside)
      exact ⟨visit, round, plain, inner, same, owns.frame later, within, notInner, apart,
        ih childTracked fun inside => outside (within inside),
        fun outcome => (onTrack outcome).frame other⟩

theorem Tracked.mono {task : Task (Traced S)}
    (tracked : task.Tracked protocols handle admits onCall body steps region)
    (within : region ⊆ larger) :
    task.Tracked protocols handle admits onCall body steps larger := by
  cases task with
  | call target => exact ⟨tracked.1.trans within, tracked.2⟩
  | run program =>
      rcases tracked with finished | ⟨visit, round, plain, same, owns, onTrack⟩
      · exact .inl finished
      · exact .inr ⟨visit, round, plain, same, owns.mono within, onTrack⟩
  | both left right =>
      obtain ⟨first, second, firstWithin, secondWithin, rest⟩ := tracked
      exact ⟨first, second, firstWithin.trans within, secondWithin.trans within, rest⟩
  | await child next =>
      obtain ⟨visit, round, plain, inner, same, owns, inside, rest⟩ := tracked
      exact ⟨visit, round, plain, inner, same, owns.mono within, inside.trans within, rest⟩

theorem Tracked.pair {left right : Task (Traced S)} {first second : Set (Visit S)}
    (leftTracked : left.Tracked protocols handle admits onCall body steps first)
    (rightTracked : right.Tracked protocols handle admits onCall body steps second)
    (firstWithin : first ⊆ region) (secondWithin : second ⊆ region)
    (apart : Disjoint first second) :
    (pair left right).Tracked protocols handle admits onCall body steps region := by
  rcases pair_cases left right with ⟨outcome, resolved⟩ | open_
  · rw [resolved]
    exact .inl ⟨outcome, rfl⟩
  · rw [open_]
    exact ⟨first, second, firstWithin, secondWithin, apart, leftTracked, rightTracked⟩

theorem Tracked.thenRun {child : Task (Traced S)} {inner : Set (Visit S)}
    {next : S.Outcome → Program (Traced S) S.Outcome} {plain : S.Outcome → Program S S.Outcome}
    (same : ∀ outcome, next outcome = Program.traced visit round (plain outcome))
    (owns : Owns steps visit round region) (within : inner ⊆ region) (notInner : visit ∉ inner)
    (apart : Disjoint inner (visit.future round))
    (childTracked : child.Tracked protocols handle admits onCall body steps inner)
    (onTrack : ∀ outcome, OnTrack protocols handle admits onCall steps visit (plain outcome)) :
    (thenRun child next).Tracked protocols handle admits onCall body steps region := by
  rcases thenRun_cases child next with ⟨outcome, -, resumed⟩ | waiting
  · rw [resumed]
    exact .inr ⟨visit, round, _, same outcome, owns, onTrack outcome⟩
  · rw [waiting]
    exact ⟨visit, round, plain, inner, same, owns, within, notInner, apart, childTracked, onTrack⟩

/-- Calls awaited together are on their tracks. -/
theorem tracked_spawn
    (bodies : ∀ (parent : Visit S) (hop : Hop S), onCall hop.call →
      (body hop.call).Conforms admits onCall (protocols (parent.enter hop)) (fun _ _ => True)
        (protocols (parent.enter hop)).rest)
    {calls : List S.Call} (allowed : ∀ target ∈ calls, onCall target) (position : Nat)
    (untouched : Untouched steps (visit.calledFrom round position)) :
    (spawn (S := Traced S) ((calls.zipIdx position).map fun entry =>
      (entry.1, visit.enter ⟨round, entry.2, entry.1⟩))).Tracked protocols handle admits onCall
        body steps (visit.calledFrom round position) := by
  induction calls generalizing position with
  | nil => exact .inl ⟨_, rfl⟩
  | cons target rest ih =>
      have head := bodies visit ⟨round, position, target⟩ (allowed target List.mem_cons_self)
      have others := ih (fun other member => allowed other (List.mem_cons_of_mem _ member))
        (position + 1) (untouched.mono Visit.calledFrom_succ_subset)
      have first :
          (Task.call (S := Traced S) (target, visit.enter ⟨round, position, target⟩)).Tracked
          protocols handle admits onCall body steps
            (visit.enter ⟨round, position, target⟩).subtree :=
        ⟨Set.Subset.rfl, untouched.mono Visit.subtree_enter_subset, head⟩
      exact first.pair others Visit.subtree_enter_subset Visit.calledFrom_succ_subset
        Visit.disjoint_subtree_calledFrom

/-- The operation of a step belongs to the region, and its automaton permits it. -/
theorem Tracked.permits {task next : Task (Traced S)} {event : Event (Traced S)}
    (tracked : task.Tracked protocols handle admits onCall body steps region)
    (stepped : Step (tracedBody body) task (some event) next) :
    event.op.2 ∈ region ∧ (protocols event.op.2).permits
      (progress protocols handle steps event.op.2) event.op.1 := by
  generalize performed : some event = label at stepped
  induction stepped generalizing region with
  | enter target => cases performed
  | perform op after response =>
      cases performed
      rcases tracked with ⟨outcome, finished⟩ | ⟨visit, round, plain, same, owns, onTrack⟩
      · cases finished
      · cases plain with
        | done value => cases same
        | perform op' after' =>
            cases same
            exact ⟨owns.own, onTrack.1⟩
        | await calls after' => cases same
  | start calls after => cases performed
  | left waiting stepped ih =>
      obtain ⟨first, second, within, -, -, leftTracked, -⟩ := tracked
      obtain ⟨inside, permitted⟩ := ih leftTracked performed
      exact ⟨within inside, permitted⟩
  | right waiting stepped ih =>
      obtain ⟨first, second, -, within, -, -, rightTracked⟩ := tracked
      obtain ⟨inside, permitted⟩ := ih rightTracked performed
      exact ⟨within inside, permitted⟩
  | child rest stepped ih =>
      obtain ⟨visit, round, plain, inner, -, -, within, -, -, childTracked, -⟩ := tracked
      obtain ⟨inside, permitted⟩ := ih childTracked performed
      exact ⟨within inside, permitted⟩

theorem Tracked.recorded {task : Task (Traced S)} {index : Nat} {world : W}
    {event : Option (Event (Traced S))}
    (tracked : task.Tracked protocols handle admits onCall body steps region)
    (outside : ∀ performed, event = some performed → performed.op.2 ∉ region) :
    task.Tracked protocols handle admits onCall body (extended steps index world event) region := by
  cases event with
  | none => exact tracked
  | some performed => exact tracked.frame (outside performed rfl)

/-- **Tracking rule, one step.** -/
theorem Tracked.step {task next : Task (Traced S)} {event : Option (Event (Traced S))}
    {index : Nat} {world : W}
    (bodies : ∀ (parent : Visit S) (hop : Hop S), onCall hop.call →
      (body hop.call).Conforms admits onCall (protocols (parent.enter hop)) (fun _ _ => True)
        (protocols (parent.enter hop)).rest)
    (tracked : task.Tracked protocols handle admits onCall body steps region)
    (stepped : Step (tracedBody body) task event next)
    (answered : ∀ performed, event = some performed →
      performed.response = (handle world performed.op.1).1 ∧
        admits performed.op.1 performed.response) :
    next.Tracked protocols handle admits onCall body (extended steps index world event)
      region := by
  induction stepped generalizing region with
  | enter target =>
      obtain ⟨within, untouched, conforms⟩ := tracked
      refine .inr ⟨target.2, 0, body target.1, rfl, ⟨within (Visit.Below.refl _), ?_, ?_⟩, ?_⟩
      · rintro other ⟨hop, -, below⟩
        exact within ((Visit.below_enter _ hop).trans below)
      · refine untouched.mono ?_
        rintro other ⟨hop, -, below⟩
        exact (Visit.below_enter _ hop).trans below
      · unfold OnTrack
        rw [show extended steps index world none = steps from rfl,
          progress_of_untouched untouched (Visit.Below.refl _)]
        exact conforms
  | perform op after response =>
      rcases tracked with ⟨outcome, finished⟩ | ⟨visit, round, plain, same, owns, onTrack⟩
      · cases finished
      · cases plain with
        | done value => cases same
        | perform op' after' =>
            cases same
            obtain ⟨answer, admitted⟩ := answered _ rfl
            change response = (handle world op').1 at answer
            subst answer
            refine .inr ⟨visit, round, _, rfl, owns.frame Visit.not_mem_future, ?_⟩
            have advanced := @progress_snoc_self S G W protocols handle steps visit index world op'
            unfold OnTrack extended
            rw [advanced]
            exact onTrack.2 _ admitted
        | await calls after' => cases same
  | start calls after =>
      rcases tracked with ⟨outcome, finished⟩ | ⟨visit, round, plain, same, owns, onTrack⟩
      · cases finished
      · cases plain with
        | done value => cases same
        | perform op' after' => cases same
        | await calls' after' =>
            cases same
            have inside : visit.calledFrom round 0 ⊆ visit.future round :=
              Visit.calledFrom_subset_future 0
            have later : Owns steps visit (round + 1) region :=
              ⟨owns.own, Visit.future_succ_subset.trans owns.later,
                owns.untouched.mono Visit.future_succ_subset⟩
            exact Tracked.thenRun (fun _ => rfl) later (inside.trans owns.later)
              (fun member => Visit.not_mem_future (inside member))
              (Visit.disjoint_calledFrom_future 0)
              (tracked_spawn bodies onTrack.1 0 (owns.untouched.mono inside)) onTrack.2
  | left waiting stepped ih =>
      obtain ⟨first, second, firstWithin, secondWithin, apart, leftTracked, rightTracked⟩ := tracked
      refine Tracked.pair (ih leftTracked answered) (rightTracked.recorded ?_) firstWithin
        secondWithin apart
      rintro performed rfl
      exact Set.disjoint_left.mp apart (leftTracked.permits stepped).1
  | right waiting stepped ih =>
      obtain ⟨first, second, firstWithin, secondWithin, apart, leftTracked, rightTracked⟩ := tracked
      refine Tracked.pair (leftTracked.recorded ?_) (ih rightTracked answered) firstWithin
        secondWithin apart
      rintro performed rfl
      exact Set.disjoint_right.mp apart (rightTracked.permits stepped).1
  | @child _ _ event rest stepped ih =>
      obtain ⟨visit, round, plain, inner, same, owns, within, notInner, apart, childTracked,
        onTrack⟩ := tracked
      have inside : ∀ performed, event = some performed → performed.op.2 ∈ inner := by
        rintro performed rfl
        exact (childTracked.permits stepped).1
      refine Tracked.thenRun same (owns.recorded fun performed is => ?_) within notInner apart
        (ih childTracked answered) fun outcome =>
        (onTrack outcome).recorded fun performed is own => ?_
      · exact Set.disjoint_left.mp apart (inside performed is)
      · exact notInner (own ▸ inside performed is)

end Task

namespace Config

variable (protocols handle admits onCall body steps) in
/-- Every task is on its tracks in the tree of its own origin. -/
def Tracked (config : Config (Traced S) W) : Prop :=
  ∀ (index : Nat) (task : Task (Traced S)), config.tasks[index]? = some task →
    task.Tracked protocols handle admits onCall body steps {visit | visit.origin = index}

theorem tracked_spawnedAll {world : W} {programs : List (Program S S.Outcome)}
    (conform : ∀ (origin : Nat), ∀ program ∈ programs,
      program.Conforms admits onCall (protocols ⟨origin, []⟩) (fun _ _ => True)
        (protocols ⟨origin, []⟩).rest) :
    Tracked protocols handle admits onCall body [] ⟨world, spawnedAll programs⟩ := by
  intro index task selected
  unfold spawnedAll at selected
  rw [List.getElem?_map, List.getElem?_zipIdx, Nat.zero_add, Option.map_map] at selected
  obtain ⟨program, present, rfl⟩ := Option.map_eq_some_iff.mp selected
  refine .inr ⟨⟨index, []⟩, 0, program, rfl, ⟨rfl, ?_, fun _ member => nomatch member⟩, ?_⟩
  · rintro other ⟨hop, -, below⟩
    exact below.1.symm
  · exact conform index program (List.mem_of_getElem? present)

/-- **Tracking rule for whole runs.** -/
theorem Tracked.run {start config : Config (Traced S) W}
    (invariant : List (Occurrence (Traced S) W) → W → Prop)
    (bodies : ∀ (parent : Visit S) (hop : Hop S), onCall hop.call →
      (body hop.call).Conforms admits onCall (protocols (parent.enter hop)) (fun _ _ => True)
        (protocols (parent.enter hop)).rest)
    (preserved : ∀ steps world index op visit, invariant steps world →
      (protocols visit).permits (progress protocols handle steps visit) op →
        admits op (handle world op).1 ∧
          invariant (steps ++ [⟨index, world, (op, visit)⟩]) (handle world op).2)
    (tracked : Tracked protocols handle admits onCall body [] start)
    (initial : invariant [] start.world)
    (run : Config.Run (tracedBody body) (fun _ => tracedHandle handle) (fun _ _ => False) start
      steps config) :
    Tracked protocols handle admits onCall body steps config ∧ invariant steps config.world := by
  have others : ∀ {steps : List (Occurrence (Traced S) W)} {config : Config (Traced S) W}
      {index : Nat} {task next : Task (Traced S)} {event : Option (Event (Traced S))},
      Tracked protocols handle admits onCall body steps config →
        config.tasks[index]? = some task → Task.Step (tracedBody body) task event next →
          next.Tracked protocols handle admits onCall body
            (extended steps index config.world event) {visit | visit.origin = index} →
              ∀ world, Tracked protocols handle admits onCall body
                (extended steps index config.world event) ⟨world, config.tasks.set index next⟩ := by
    intro steps config index task next event tracked selected step moved world position other found
    by_cases same : index = position
    · subst same
      rw [List.getElem?_set_self (List.getElem?_eq_some_iff.mp selected).1] at found
      cases found
      exact moved
    · rw [List.getElem?_set_ne same] at found
      refine (tracked position other found).recorded fun performed is inside => same ?_
      subst is
      exact ((tracked index task selected).permits step).1.symm.trans inside
  induction run with
  | refl => exact ⟨tracked, initial⟩
  | @silent steps config index task next _ selected step ih =>
      obtain ⟨tracked, holds⟩ := ih
      have moved : next.Tracked protocols handle admits onCall body
          (extended steps index config.world none) {visit | visit.origin = index} :=
        (tracked index task selected).step bodies step fun _ impossible => nomatch impossible
      exact ⟨others tracked selected step moved _, holds⟩
  | @event steps config index task next op _ selected step ih =>
      obtain ⟨tracked, holds⟩ := ih
      have permitted := ((tracked index task selected).permits step).2
      obtain ⟨admitted, kept⟩ := preserved steps config.world index op.1 op.2 holds permitted
      have moved : next.Tracked protocols handle admits onCall body
          (extended steps index config.world (some ⟨op, (handle config.world op.1).1⟩))
            {visit | visit.origin = index} :=
        (tracked index task selected).step bodies step fun performed same => by
          cases same
          exact ⟨rfl, admitted⟩
      exact ⟨others tracked selected step moved _, kept⟩
  | environment _ changed => exact changed.elim

end Config

end Rules

end Async
