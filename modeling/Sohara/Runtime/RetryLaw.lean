import Sohara.Runtime.Propagation
import Sohara.Runtime.RunMeaning

/-! # Retries

Under a retry policy a transform is called on the same record until it answers or its
attempts are used up. Its answer is handled once; what fails behind it is none of its
failures.
-/

namespace Sohara

open Async Async.Program

section Definitions

/-- The failure in the answer of a transform, if any. -/
def failureOf : Except Error TransformOutcome → Option Error
  | .ok (.fail failure) => some failure
  | .error failure => some failure
  | _ => none

/-- The calls of transforms among acts, with their answers. -/
def transformings (acts : List (Act Engine)) :
    List (String × Record × Except Error TransformOutcome) :=
  acts.filterMap fun
    | .performed (.transform id record) answer => some (id, record, answer)
    | _ => none

variable (executor : Executor) (host : Host) (rely : World → World → Prop) (node : Node)
  (record : Record)

/-- Failed attempts, each with the pause after it. -/
def attempts (backoff : Duration) (answers : List (Except Error TransformOutcome)) :
    List (Act Engine) :=
  answers.flatMap fun answer =>
    [.performed (.transform node.id record) answer, .performed (.sleep backoff) ()]

/-- The end of a transform whose failures are used up. -/
def reported (failure : Error) : List (Act Engine) :=
  [.performed (.count .errors) (), .performed (.tickStep node.id .errors) (),
    .performed (.recordError node.id "transform" failure.text) ()]

/-- **The answer of a transform is handled**: its records are routed, or the record is counted as
filtered. -/
inductive Handled : TransformOutcome → List (Act Engine) → Outcome → World → Prop where
  | filtered {after : World} : Handled .filtered
      [.performed (.count .filtered) (), .performed (.tickStep node.id .filtered) ()] (.ok ()) after
  | pass {passed : Record} {routed : List (Act Engine)} {outcome : Outcome} {between after : World}
      (routes : (executor.route passed node).Amid (World.perform host) rely between routed outcome
        after) (quiet : ∀ op ∈ operations routed, op.IsRouting node.id) :
      Handled (.pass passed) (.performed (.tickStep node.id .processed) () :: routed) outcome after
  | expand {records : List Record} {routed : List (Act Engine)} {outcome : Outcome}
      {between after : World}
      (routes : (executor.routeEach node records).Amid (World.perform host) rely between routed
        outcome after) (quiet : ∀ op ∈ operations routed, op.IsRouting node.id) :
      Handled (.expand records) (.performed (.tickStep node.id .processed) () :: routed) outcome
        after

/-- **The law of retries** for answers of which the first `k` are failures. -/
structure Retries (max : Nat) (backoff : Duration) (answers : Nat → Except Error TransformOutcome)
    (k : Nat) (acts : List (Act Engine)) (outcome : Outcome) (after : World) : Prop where
  calls : transformings acts =
    (List.range (min k max + 1)).map fun i => (node.id, record, answers i)
  healed : k ≤ max → ∃ result handled, answers k = .ok result ∧
    acts = attempts node record backoff ((List.range k).map answers) ++
      .performed (.transform node.id record) (answers k) :: handled ∧
    Handled executor host rely node result handled outcome after
  exhausted : max < k → ∃ failure, failureOf (answers max) = some failure ∧
    acts = attempts node record backoff ((List.range max).map answers) ++
      .performed (.transform node.id record) (answers max) :: reported node failure ∧
    outcome = .error failure
  propagated : ∀ before calls failure rest,
    acts = before ++ .awaited calls (.error failure) :: rest → calls ≠ [] →
      rest = [] ∧ outcome = .error failure

end Definitions

section Transformings

variable {node : Node} {record : Record} {first second : List (Act Engine)}

@[simp] theorem transformings_append :
    transformings (first ++ second) = transformings first ++ transformings second :=
  List.filterMap_append

/-- No transform is called by routing. -/
theorem transformings_of_routing {id : String}
    (quiet : ∀ op ∈ operations first, op.IsRouting id) : transformings first = [] := by
  refine List.filterMap_eq_nil_iff.mpr fun act member => ?_
  cases act with
  | awaited calls outcome => rfl
  | performed op response =>
      have routing := quiet op (List.mem_filterMap.mpr ⟨_, member, rfl⟩)
      cases op with
      | transform id record => exact routing.elim
      | _ => rfl

theorem transformings_handled {executor : Executor} {host : Host} {rely : World → World → Prop}
    {result : TransformOutcome} {outcome : Outcome} {after : World}
    (handled : Handled executor host rely node result first outcome after) :
    transformings first = [] := by
  cases handled with
  | filtered => rfl
  | pass _ quiet =>
      have none_ := transformings_of_routing quiet
      exact none_
  | expand _ quiet =>
      have none_ := transformings_of_routing quiet
      exact none_

theorem transformings_attempts (backoff : Duration)
    (answers : List (Except Error TransformOutcome)) :
    transformings (attempts node record backoff answers) =
      answers.map fun answer => (node.id, record, answer) := by
  induction answers with
  | nil => rfl
  | cons answer rest ih => exact congrArg (List.cons _) ih

end Transformings

section Law

variable {executor : Executor} {host : Host} {rely : World → World → Prop} {node : Node}
  {record : Record} {world after : World} {acts : List (Act Engine)} {outcome : Outcome}

/-- **One attempt**: the answer is handled, or its failure is left to the policy. -/
theorem amid_attemptTransform {onFailure : Error → Prog Outcome}
    (amid : (executor.attemptTransform node record onFailure).Amid (World.perform host) rely world
      acts outcome after) :
    ∃ answer rest, acts = .performed (.transform node.id record) answer :: rest ∧
      ((∃ result, answer = .ok result ∧ failureOf answer = none ∧
          Handled executor host rely node result rest outcome after) ∨
        ∃ failure between, failureOf answer = some failure ∧
          (onFailure failure).Amid (World.perform host) rely between rest outcome after) := by
  obtain ⟨between, rest, -, rfl, continued⟩ := amid.of_op_bind
  generalize (World.perform host between (.transform node.id record)).1 = answer at continued
  refine ⟨answer, rest, rfl, ?_⟩
  match answer with
  | .ok (.pass passed) =>
      obtain ⟨ticked, routed, -, rfl, routes⟩ := continued.of_op_bind
      exact .inl ⟨_, rfl, rfl, .pass routes (quiet_of_routing routes
        (routing_routeAlong passed node.id node.routes))⟩
  | .ok .filtered =>
      obtain ⟨counted, others, -, rfl, ticking⟩ := continued.of_op_bind
      obtain ⟨ticked, done, -, rfl, finished⟩ := ticking.of_op_bind
      obtain ⟨rfl, rfl, -⟩ := finished.of_done
      exact .inl ⟨_, rfl, rfl, .filtered⟩
  | .ok (.expand records) =>
      obtain ⟨ticked, routed, -, rfl, routes⟩ := continued.of_op_bind
      exact .inl ⟨_, rfl, rfl, .expand routes (quiet_of_routing routes (routing_routeEach records))⟩
  | .ok (.fail failure) => exact .inr ⟨failure, _, rfl, continued⟩
  | .error failure => exact .inr ⟨failure, _, rfl, continued⟩

/-- Under a retry policy the last failure is reported and returned. -/
theorem amid_settleFailure {max : Nat} {backoff : Duration} {failure : Error}
    (policy : node.policy = .retry max backoff)
    (amid : (Executor.settleFailure node failure).Amid (World.perform host) rely world acts outcome
      after) : acts = reported node failure ∧ outcome = .error failure := by
  obtain ⟨counted, _, -, rfl, ticking⟩ := amid.of_op_bind
  obtain ⟨ticked, _, -, rfl, recording⟩ := ticking.of_op_bind
  obtain ⟨recorded, _, -, rfl, finished⟩ := recording.of_op_bind
  rw [policy] at finished
  obtain ⟨rfl, rfl, -⟩ := finished.of_done
  exact ⟨rfl, rfl⟩

/-- **All attempts**, by induction on those that are left: some fail, and the last answer is
handled, or its failure is reported when no attempt is left. -/
theorem amid_retryTransform {max left : Nat} {backoff : Duration}
    (policy : node.policy = .retry max backoff)
    (amid : (executor.retryTransform node record backoff left).Amid (World.perform host) rely world
      acts outcome after) :
    ∃ failed answer rest, (∀ other ∈ failed, (failureOf other).isSome = true) ∧
      acts = attempts node record backoff failed ++
        .performed (.transform node.id record) answer :: rest ∧
      ((∃ result, failed.length ≤ left ∧ answer = .ok result ∧ failureOf answer = none ∧
          Handled executor host rely node result rest outcome after) ∨
        ∃ failure, failed.length = left ∧ failureOf answer = some failure ∧
          rest = reported node failure ∧ outcome = .error failure) := by
  induction left generalizing world acts with
  | zero =>
      obtain ⟨answer, rest, rfl, ended⟩ := amid_attemptTransform amid
      refine ⟨[], answer, rest, (fun _ member => nomatch member), rfl, ?_⟩
      rcases ended with ⟨result, same, fine, handled⟩ | ⟨failure, between, fails, settled⟩
      · exact .inl ⟨result, Nat.le_refl _, same, fine, handled⟩
      · exact .inr ⟨failure, rfl, fails, amid_settleFailure policy settled⟩
  | succ left ih =>
      obtain ⟨answer, rest, rfl, ended⟩ := amid_attemptTransform amid
      rcases ended with ⟨result, same, fine, handled⟩ | ⟨failure, between, fails, retried⟩
      · exact ⟨[], answer, rest, (fun _ member => nomatch member), rfl,
          .inl ⟨result, Nat.zero_le _, same, fine, handled⟩⟩
      · obtain ⟨slept, _, -, rfl, again⟩ := retried.of_op_bind
        obtain ⟨failed, last, rest, failing, rfl, ended⟩ := ih again
        refine ⟨answer :: failed, last, rest, ?_, rfl, ?_⟩
        · exact List.forall_mem_cons.mpr ⟨Option.isSome_of_eq_some fails, failing⟩
        · rcases ended with ⟨result, within, rest⟩ | ⟨failure, used, rest⟩
          · exact .inl ⟨result, Nat.succ_le_succ within, rest⟩
          · exact .inr ⟨failure, congrArg Nat.succ used, rest⟩

/-- Failed attempts and a last one have got the first answers of a sequence. -/
theorem answers_of_transformings {backoff : Duration}
    {failed : List (Except Error TransformOutcome)}
    {answer : Except Error TransformOutcome} {rest : List (Act Engine)}
    {answers : Nat → Except Error TransformOutcome} (silent : transformings rest = [])
    (same : acts = attempts node record backoff failed ++
      .performed (.transform node.id record) answer :: rest)
    (answered : (transformings acts).map (fun entry => entry.2.2) =
      (List.range (transformings acts).length).map answers) :
    failed = (List.range failed.length).map answers ∧ answer = answers failed.length ∧
      transformings acts =
        (List.range (failed.length + 1)).map fun i => (node.id, record, answers i) := by
  have calls : transformings acts =
      (failed ++ [answer]).map fun answer => (node.id, record, answer) := by
    have last : transformings (.performed (.transform node.id record) answer :: rest) =
        (node.id, record, answer) :: transformings rest := rfl
    rw [same, transformings_append, transformings_attempts, last, silent, List.map_append]
    rfl
  have given : failed ++ [answer] = (List.range (failed.length + 1)).map answers := by
    rw [calls, List.length_map, List.length_append, List.map_map] at answered
    have plain : (failed ++ [answer]).map ((fun entry => entry.2.2) ∘
        fun answer => (node.id, record, answer)) = failed ++ [answer] := List.map_id _
    rw [plain] at answered
    exact answered
  have counted : transformings acts =
      (List.range (failed.length + 1)).map fun i => (node.id, record, answers i) := by
    rw [calls, given, List.map_map]
    rfl
  rw [List.range_succ, List.map_append] at given
  obtain ⟨before, last⟩ := List.append_inj given (by rw [List.length_map, List.length_range])
  exact ⟨before, (List.cons.inj last).1, counted⟩

/-- The first answer that is no failure comes after exactly the failures. -/
theorem eq_of_first_healthy {answers : Nat → Except Error TransformOutcome} {k n : Nat}
    (fails : ∀ i < k, (failureOf (answers i)).isSome = true)
    (early : ∀ i < n, (failureOf (answers i)).isSome = true)
    (heals : k ≤ n → failureOf (answers k) = none) (fine : failureOf (answers n) = none) :
    n = k := by
  refine Nat.le_antisymm (Nat.le_of_not_lt fun more => ?_) (Nat.le_of_not_lt fun less => ?_)
  · have bad := early k more
    rw [heals (Nat.le_of_lt more)] at bad
    cases bad
  · have bad := fails n less
    rw [fine] at bad
    cases bad

/-- **The retry law.** Whatever happens in between, an execution of a transform under a retry
policy obeys the law for any answers that it gets; and what fails behind a step fails every walk
before it, up to the programs of the run. -/
theorem retry_law {max k : Nat} {backoff : Duration}
    {answers : Nat → Except Error TransformOutcome} (policy : node.policy = .retry max backoff)
    (fails : ∀ i < k, (failureOf (answers i)).isSome = true)
    (heals : k ≤ max → failureOf (answers k) = none)
    (amid : (executor.applyTransform node record).Amid (World.perform host) rely world acts outcome
      after)
    (answered : (transformings acts).map (fun entry => entry.2.2) =
      (List.range (transformings acts).length).map answers) :
    Retries executor host rely node record max backoff answers k acts outcome after ∧
      (∀ record id, (executor.walk record id).Propagates) ∧
      ∀ program ∈ executor.programs, program.Propagates := by
  refine ⟨?_, Executor.propagates_walk, fun _ => Executor.propagates_programs⟩
  have passes : (executor.applyTransform node record).Propagates :=
    Executor.propagates_applyTransform record
  have propagated : ∀ before calls failure rest,
      acts = before ++ .awaited calls (.error failure) :: rest → calls ≠ [] →
        rest = [] ∧ outcome = .error failure :=
    fun before calls failure rest split => amid.propagates passes split
  unfold Executor.applyTransform at amid
  rw [policy] at amid
  obtain ⟨failed, answer, rest, failing, same, ended⟩ := amid_retryTransform policy amid
  have silent : transformings rest = [] := by
    rcases ended with ⟨result, -, -, -, handled⟩ | ⟨failure, -, -, rfl, -⟩
    · exact transformings_handled handled
    · rfl
  obtain ⟨before, rfl, calls⟩ := answers_of_transformings silent same answered
  have early : ∀ i < failed.length, (failureOf (answers i)).isSome = true := by
    intro i inside
    refine failing _ ?_
    rw [before]
    exact List.mem_map_of_mem (List.mem_range.mpr inside)
  rcases ended with ⟨result, within, given, fine, handled⟩ | ⟨failure, used, fails_, rfl, rfl⟩
  · obtain rfl : failed.length = k :=
      eq_of_first_healthy fails early (fun less => heals (less.trans within)) fine
    refine ⟨?_, fun _ => ⟨result, rest, given, ?_, handled⟩, fun less => ?_, propagated⟩
    · rw [calls, Nat.min_eq_left within]
    · rw [← before]
      exact same
    · exact absurd within (Nat.not_le_of_lt less)
  · -- all attempts have failed, so `answers k` comes later
    subst used
    have later : failed.length < k := by
      refine Nat.lt_of_not_le fun within => ?_
      have healthy := heals within
      rcases Nat.lt_or_eq_of_le within with less | rfl
      · have bad := early k less
        rw [healthy] at bad
        cases bad
      · rw [healthy] at fails_
        cases fails_
    refine ⟨?_, fun within => ?_, fun _ => ⟨failure, fails_, ?_, rfl⟩, propagated⟩
    · rw [calls, Nat.min_eq_right (Nat.le_of_lt later)]
    · exact absurd within (Nat.not_le_of_lt later)
    · rw [← before]
      exact same

end Law

namespace Sample

/-- A transform with two retries. -/
def flaky : Node := ⟨"flaky", none, .retry 2 1, .transform, [], 1, none⟩

/-- The transform fails until it has been called twice. -/
def healing : Host :=
  { host twoRecords with
    transform := fun _ history record =>
      if history.length < 2 then .error (.runtime "not yet") else .ok (.pass record) }

/-- The answers of the transform. -/
def healingAnswers (i : Nat) : Except Error TransformOutcome :=
  if i < 2 then .error (.runtime "not yet") else .ok (.pass (record .null))

/-- Three calls, with the pauses between them. -/
def healingActs : List (Act Engine) :=
  attempts flaky (record .null) 1 ((List.range 2).map healingAnswers) ++
    [.performed (.transform "flaky" (record .null)) (healingAnswers 2),
      .performed (.tickStep "flaky" .processed) ()]

theorem healing_amid : ∃ after, ((executor copyGraph).applyTransform flaky (record .null)).Amid
    (World.perform healing) (fun _ _ => False) (.start none (fun _ => none) fun _ => [])
      healingActs (.ok ()) after :=
  ⟨_, .perform (.perform (.perform (.perform (.perform (.perform (.done ..))))))⟩

/-- Two failures are retried, and the third answer is handled. -/
theorem healing_retries : ∃ after, Retries (executor copyGraph) healing (fun _ _ => False) flaky
    (record .null) 2 1 healingAnswers 2 healingActs (.ok ()) after := by
  obtain ⟨after, amid⟩ := healing_amid
  refine ⟨after, (retry_law rfl (fun i less => ?_) (fun _ => rfl) amid rfl).1⟩
  unfold healingAnswers
  rw [if_pos less]
  rfl

end Sample

end Sohara
