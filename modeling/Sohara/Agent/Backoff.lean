import Sohara.Agent.Lifecycle

/-! # Restarts and their backoff

Before the supervisor looks at its policy it counts the attempt that it is about to make. So the
last attempt of the budget is refused, and the first restart waits twice the base backoff: the
process is restarted once less than the policy says.
-/

namespace Sohara

namespace Supervisor

section Definitions

variable (spec : InstanceSpec) (answers : Answers) (supervisor : Supervisor)

/-- The supervisor on which a tick applies the restart policy: its process is found to have
exited, or has failed too many probes. -/
def policyApplied : Option Supervisor :=
  if supervisor.childExited answers then
    if supervisor.shared.state = .stopping then none else some { supervisor with child := none }
  else if !spec.healthEnabled || supervisor.child.isNone then none
  else
    match supervisor.shared.admin with
    | none => none
    | some admin =>
        let failing := match answers.probe admin spec.adminToken with
          | some health => !health.healthy
          | none => true
        if failing && spec.policy.healthFailures ≤ supervisor.failProbe.counters.failures then
          some supervisor.failProbe
        else none

/-- How long the supervisor sleeps in a tick before it launches the process again. -/
def waited : Option Duration :=
  (supervisor.policyApplied spec answers).bind fun base =>
    restartBackoff spec.policy base.countAttempt.counters.attempts

/-- The waits before the restarts of a sequence of ticks. -/
def waits (supervisor : Supervisor) : List Answers → List Duration
  | [] => []
  | answers :: rest =>
      (supervisor.waited spec answers).toList ++
        waits (supervisor.superviseTick spec answers) rest

end Definitions

variable {spec : InstanceSpec} {answers : Answers} {supervisor : Supervisor}

/-- Without a process, a tick waits for nothing. -/
theorem waited_of_idle (idle : supervisor.child = none) :
    supervisor.waited spec answers = none := by
  have running : supervisor.childExited answers = false := by
    unfold childExited
    rw [idle]
  have skipped : (!spec.healthEnabled || supervisor.child.isNone) = true := by
    rw [idle]
    exact Bool.or_true _
  unfold waited policyApplied
  simp only [running, Bool.false_eq_true, if_false, skipped, if_true]
  rfl

/-- What a tick makes of a supervisor that holds a process: the policy is applied, after the same
launches and attempts, or nothing is launched or ended. -/
inductive Applies (spec : InstanceSpec) (answers : Answers) (supervisor : Supervisor) :
    Option Supervisor → Supervisor → Prop where
  | policy (base : Supervisor) (spawns : base.spawns = supervisor.spawns)
      (attempts : base.counters.attempts = supervisor.counters.attempts) :
      Applies spec answers supervisor (some base) (base.restartOrFail spec answers)
  | quiet {next : Supervisor} (spawns : next.spawns = supervisor.spawns)
      (attempts : next.counters.attempts = supervisor.counters.attempts)
      (child : next.child = supervisor.child) (going : next.shared.state ≠ .stopping) :
      Applies spec answers supervisor none next

theorem applies_failProbe (going : supervisor.shared.state ≠ .stopping) :
    Applies spec answers supervisor
      (if spec.policy.healthFailures ≤ supervisor.failProbe.counters.failures then
        some supervisor.failProbe else none)
      (supervisor.failProbe.checkHealthRestart spec answers) := by
  unfold checkHealthRestart
  split
  · exact .policy _ rfl rfl
  · exact .quiet rfl rfl rfl going

theorem applies_superviseTick (going : supervisor.shared.state ≠ .stopping) :
    Applies spec answers supervisor (supervisor.policyApplied spec answers)
      (supervisor.superviseTick spec answers) := by
  unfold superviseTick policyApplied
  by_cases exited : supervisor.childExited answers = true
  · simp only [if_pos exited, if_neg going]
    exact .policy _ rfl rfl
  · rw [if_neg exited, if_neg exited]
    split
    · exact .quiet rfl rfl rfl going
    · cases supervisor.shared.admin with
      | none => exact .quiet rfl rfl rfl going
      | some admin =>
          dsimp only
          cases answers.probe admin spec.adminToken with
          | none => simpa using applies_failProbe going
          | some health =>
              obtain ⟨healthy, paused⟩ := health
              unfold applyHealth
              cases healthy with
              | false => simpa using applies_failProbe going
              | true =>
                  refine .quiet rfl rfl rfl ?_
                  change (if paused = true then InstanceState.paused
                    else if supervisor.shared.state = .paused then .running
                    else supervisor.shared.state) ≠ .stopping
                  split
                  · intro state
                    cases state
                  · split
                    · intro state
                      cases state
                    · exact going

/-- The waits before so many restarts, as the supervisor counts them. -/
def schedule (policy : Policy) (count : Nat) : List Duration :=
  (List.range count).map fun index => min (policy.backoffMs * 2 ^ min (index + 1) 10) 60000

theorem schedule_succ (policy : Policy) (count : Nat) : schedule policy (count + 1) =
    schedule policy count ++ [min (policy.backoffMs * 2 ^ min (count + 1) 10) 60000] := by
  unfold schedule
  rw [List.range_succ, List.map_append]
  rfl

/-- How far a supervisor is: it holds a process, and all its attempts were restarts; or it has
made all restarts but the last of the budget, and has failed. -/
inductive Counted (spec : InstanceSpec) (waits : List Duration) (supervisor : Supervisor) :
    Prop where
  | holding (child : supervisor.child.isSome = true)
      (going : supervisor.shared.state ≠ .stopping)
      (waited : waits = schedule spec.policy supervisor.counters.attempts)
      (spawns : supervisor.spawns.length = supervisor.counters.attempts + 1)
      (within : supervisor.counters.attempts = 0 ∨
        supervisor.counters.attempts < spec.policy.maxRestarts)
  | spent (child : supervisor.child = none) (failed : supervisor.shared.state = .failed)
      (waited : waits = schedule spec.policy (spec.policy.maxRestarts - 1))
      (spawns : supervisor.spawns.length = spec.policy.maxRestarts - 1 + 1)

section Runs

variable {waits : List Duration} (enabled : spec.policy.restart = true)

theorem restartBackoff_eq_some {attempts : Nat} {wait : Duration}
    (allowed : restartBackoff spec.policy attempts = some wait) :
    attempts < spec.policy.maxRestarts ∧
      wait = min (spec.policy.backoffMs * 2 ^ min attempts 10) 60000 := by
  unfold restartBackoff at allowed
  split at allowed
  · cases allowed
  · next within =>
      rw [Bool.or_eq_true, not_or, decide_eq_true_eq, Nat.not_le] at within
      exact ⟨within.2, (Option.some.inj allowed).symm⟩

theorem restartOrFail_of_some {base : Supervisor} {wait : Duration}
    (allowed : restartBackoff spec.policy (base.counters.attempts + 1) = some wait) :
    base.restartOrFail spec answers =
      { base.emptied.spawnChild spec answers with
        counters := { (base.emptied.spawnChild spec answers).counters with failures := 0 } } := by
  have counted : restartBackoff spec.policy base.countAttempt.counters.attempts = some wait :=
    allowed
  unfold restartOrFail
  simp only [counted]
  rfl

theorem restartOrFail_of_none {base : Supervisor}
    (refused : restartBackoff spec.policy (base.counters.attempts + 1) = none) :
    (base.restartOrFail spec answers).child = none ∧
      (base.restartOrFail spec answers).shared.state = .failed ∧
      (base.restartOrFail spec answers).spawns = base.spawns := by
  have counted : restartBackoff spec.policy base.countAttempt.counters.attempts = none := refused
  unfold restartOrFail
  simp only [counted]
  exact ⟨rfl, rfl, rfl⟩

include enabled

/-- Applying the policy is one restart more, or the end. -/
theorem counted_restartOrFail {base : Supervisor}
    (launches : ∀ bin args, (answers.spawn bin args).isSome = true)
    (waited : waits = schedule spec.policy base.counters.attempts)
    (spawns : base.spawns.length = base.counters.attempts + 1)
    (within : base.counters.attempts = 0 ∨ base.counters.attempts < spec.policy.maxRestarts) :
    Counted spec (waits ++ (restartBackoff spec.policy (base.counters.attempts + 1)).toList)
      (base.restartOrFail spec answers) := by
  cases allowed : restartBackoff spec.policy (base.counters.attempts + 1) with
  | some wait =>
      obtain ⟨room, rfl⟩ := restartBackoff_eq_some allowed
      obtain ⟨child, running⟩ := @launched_spawnChild spec answers base.emptied launches
      obtain ⟨bin, args, launched⟩ := @spawns_spawnChild spec answers base.emptied
      have attempts := @attempts_restartOrFail spec answers base
      have restarted := @restartOrFail_of_some spec answers base _ allowed
      refine .holding ?_ ?_ ?_ ?_ (.inr ?_)
      · rw [restarted]
        exact child
      · rw [restarted]
        dsimp only
        rw [running]
        exact fun state => nomatch state
      · rw [attempts, schedule_succ, waited]
        rfl
      · have same : base.emptied.spawns = base.spawns := rfl
        rw [attempts, restarted]
        dsimp only
        rw [launched, List.length_append, same, spawns]
        rfl
      · rw [attempts]
        exact room
  | none =>
      obtain ⟨child, failed, same⟩ := @restartOrFail_of_none spec answers base allowed
      have last : spec.policy.maxRestarts - 1 = base.counters.attempts := by
        rcases restartBackoff_eq_none_iff.mp allowed with disabled | spent
        · rw [enabled] at disabled
          cases disabled
        · omega
      refine .spent child failed ?_ ?_
      · rw [last, ← waited]
        exact List.append_nil _
      · rw [same, last, spawns]

/-- **A tick.** -/
theorem Counted.tick (counted : Counted spec waits supervisor)
    (launches : ∀ bin args, (answers.spawn bin args).isSome = true) :
    Counted spec (waits ++ (supervisor.waited spec answers).toList)
      (supervisor.superviseTick spec answers) := by
  cases counted with
  | holding child going waited spawns within =>
      have applies := @applies_superviseTick spec answers supervisor going
      unfold Supervisor.waited
      generalize supervisor.policyApplied spec answers = applied,
        supervisor.superviseTick spec answers = next at applies
      cases applies with
      | policy base launched attempts =>
          rw [← launched, ← attempts] at spawns
          rw [← attempts] at waited within
          exact counted_restartOrFail enabled launches waited spawns within
      | quiet launched attempts same going =>
          rw [← launched, ← attempts] at spawns
          rw [← attempts] at waited within
          rw [← same] at child
          have none_ : waits ++ (none : Option Duration).toList = waits := List.append_nil _
          exact none_.symm ▸ .holding child going waited spawns within
  | spent child failed waited spawns =>
      rw [superviseTick_of_idle child, waited_of_idle child]
      have none_ : waits ++ (none : Option Duration).toList = waits := List.append_nil _
      exact none_.symm ▸ .spent child failed waited spawns

/-- **A run.** -/
theorem Counted.ticks (counted : Counted spec waits supervisor) {ticks : List Answers}
    (launches : ∀ answers ∈ ticks, ∀ bin args, (answers.spawn bin args).isSome = true) :
    Counted spec (waits ++ supervisor.waits spec ticks)
      ((ticks.map Event.tick).foldl (handle spec) supervisor) := by
  induction ticks generalizing supervisor waits with
  | nil =>
      rw [Supervisor.waits, List.append_nil]
      exact counted
  | cons answers rest ih =>
      have first := counted.tick enabled (launches answers List.mem_cons_self)
      have all := ih first fun other member => launches other (List.mem_cons_of_mem _ member)
      rwa [List.append_assoc] at all

end Runs

section Beginning

variable {desired : String}

/-- An instance that is not wanted stopped begins with its process. -/
theorem counted_initial (wanted : desired ≠ "stopped")
    (launches : ∀ bin args, (answers.spawn bin args).isSome = true) :
    Counted spec [] (initial spec desired answers) := by
  obtain ⟨child, running⟩ := @launched_spawnChild spec answers (new spec) launches
  obtain ⟨bin, args, launched⟩ := @spawns_spawnChild spec answers (new spec)
  have counters := @counters_spawnChild spec answers (new spec)
  have begun : Counted spec [] ((new spec).spawnChild spec answers) := by
    have none_ : ((new spec).spawnChild spec answers).counters.attempts = 0 := by rw [counters]; rfl
    refine .holding child ?_ ?_ ?_ (.inl none_)
    · rw [running]
      exact fun state => nomatch state
    · rw [none_]
      rfl
    · rw [none_, launched]
      rfl
  unfold initial
  rw [if_pos wanted]
  dsimp only
  split
  · rw [pauseInstance_eq]
    split
    · cases begun with
      | holding child going waited spawns within =>
          exact .holding child (fun state => nomatch state) waited spawns within
      | spent idle =>
          rw [idle] at child
          cases child
    · exact begun
  · exact begun

/-- What is launched after a supervisor has failed: nothing. -/
theorem spawns_of_idle (idle : supervisor.child = none) (ticks : List Answers) :
    ((ticks.map Event.tick).foldl (handle spec) supervisor).spawns = supervisor.spawns := by
  induction ticks with
  | nil => rfl
  | cons answers rest ih =>
      have same : handle spec supervisor (.tick answers) = supervisor := superviseTick_of_idle idle
      rw [List.map_cons, List.foldl_cons, same]
      exact ih

end Beginning

/-- **The restart law**: all restarts of the policy, each after its backoff, and then a failed
instance that ticks never launch again. -/
structure RestartLaw (spec : InstanceSpec) (waits : List Duration) (last : Supervisor) :
    Prop where
  waits : waits = (List.range spec.policy.maxRestarts).map fun index =>
    min (spec.policy.backoffMs * 2 ^ index) 60000
  restarts : last.spawns.length = spec.policy.maxRestarts + 1
  failed : last.shared.state = .failed
  forever : ∀ ticks : List Answers,
    ((ticks.map Event.tick).foldl (handle spec) last).spawns = last.spawns

end Supervisor

section Budget

variable {spec : InstanceSpec} {desired : String} {first : Answers} {ticks : List Answers}

open Supervisor

/-- **What a supervisor does** whose process ends after each launch: it restarts the process once
less than the policy says, each time with the backoff of the next restart, and fails. -/
theorem restarts_of_ended (enabled : spec.policy.restart = true) (wanted : desired ≠ "stopped")
    (launches : ∀ answers ∈ first :: ticks, ∀ bin args, (answers.spawn bin args).isSome = true)
    (ended : (run spec desired first (ticks.map .tick)).child = none) :
    (initial spec desired first).waits spec ticks =
        schedule spec.policy (spec.policy.maxRestarts - 1) ∧
      (run spec desired first (ticks.map .tick)).spawns.length =
        spec.policy.maxRestarts - 1 + 1 ∧
      (run spec desired first (ticks.map .tick)).shared.state = .failed := by
  have begun := @counted_initial spec first desired wanted (launches first List.mem_cons_self)
  have counted := begun.ticks enabled fun answers member =>
    launches answers (List.mem_cons_of_mem _ member)
  rw [List.nil_append] at counted
  cases counted with
  | holding child =>
      rw [run] at ended
      rw [ended] at child
      cases child
  | spent child failed waited spawns => exact ⟨waited, spawns, failed⟩

/-- **The restart budget.** A supervisor with restarts enabled, whose process ends after each
launch, keeps the restart law only when the policy has no restarts. -/
theorem restart_law_iff (enabled : spec.policy.restart = true) (wanted : desired ≠ "stopped")
    (launches : ∀ answers ∈ first :: ticks, ∀ bin args, (answers.spawn bin args).isSome = true)
    (ended : (run spec desired first (ticks.map .tick)).child = none) :
    RestartLaw spec ((initial spec desired first).waits spec ticks)
        (run spec desired first (ticks.map .tick)) ↔
      spec.policy.maxRestarts = 0 := by
  obtain ⟨waited, spawns, failed⟩ := restarts_of_ended enabled wanted launches ended
  constructor
  · intro law
    have same := spawns.symm.trans law.restarts
    omega
  · intro none_
    refine ⟨?_, ?_, failed, fun later => spawns_of_idle ended later⟩
    · rw [waited, none_]
      rfl
    · rw [spawns, none_]

end Budget

namespace Sample

open Supervisor

/-- Every launch succeeds, and every process has exited by the next tick. -/
def crashing : Answers where
  spawn _ _ := some 7
  tryWait _ := .exited
  probe _ _ := none
  post _ _ _ := false

/-- Five crashes under the default policy: four restarts, the first after four seconds. -/
theorem crashing_restarts :
    (initial {} "running" crashing).waits {} (List.replicate 5 crashing) =
        [4000, 8000, 16000, 32000] ∧
      (run {} "running" crashing ((List.replicate 5 crashing).map .tick)).child = none ∧
      ¬ RestartLaw {} ((initial {} "running" crashing).waits {} (List.replicate 5 crashing))
        (run {} "running" crashing ((List.replicate 5 crashing).map .tick)) := by
  refine ⟨by decide, by decide, fun law => ?_⟩
  exact absurd law.restarts (by decide)

theorem crashing_launches {ticks : List Answers} (each : ∀ answers ∈ ticks, answers = crashing) :
    ∀ answers ∈ crashing :: ticks, ∀ bin args, (answers.spawn bin args).isSome = true := by
  intro answers member bin args
  rcases List.mem_cons.mp member with rfl | later
  · rfl
  · rw [each answers later]
    rfl

/-- The law fails for a process that crashes under the default policy, and holds without a
budget. -/
theorem crashing_by_budget :
    ¬ RestartLaw {} ((initial {} "running" crashing).waits {} (List.replicate 5 crashing))
        (run {} "running" crashing ((List.replicate 5 crashing).map .tick)) ∧
      RestartLaw { policy := { maxRestarts := 0 } }
        ((initial { policy := { maxRestarts := 0 } } "running" crashing).waits
          { policy := { maxRestarts := 0 } } [crashing])
        (run { policy := { maxRestarts := 0 } } "running" crashing ([crashing].map .tick)) := by
  constructor
  · have ended : (run {} "running" crashing ((List.replicate 5 crashing).map .tick)).child =
        none := by decide
    have launches := crashing_launches fun _ => List.eq_of_mem_replicate (n := 5)
    intro law
    exact absurd ((restart_law_iff rfl (by decide) launches ended).mp law) (by decide)
  · have launches := crashing_launches fun _ => List.mem_singleton.mp
    exact (restart_law_iff rfl (by decide) launches rfl).mpr rfl

end Sample

end Sohara
