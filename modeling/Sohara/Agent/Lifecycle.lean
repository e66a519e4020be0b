import Sohara.Agent.Supervisor

/-! # Processes and reported states

A supervisor launches its process only while it holds none, and a stopped instance stays
without a process until it is told to start or restart. The reported state is less
reliable: the paused flag outlives the pause, and an accepted pause or resume is reported
whether or not there is a process.
-/

namespace Sohara

open Transition

namespace Supervisor

variable {spec : InstanceSpec} {answers : Answers} {supervisor : Supervisor}

section Posting

/-- Whether a post to the admin address is accepted. -/
def accepts (spec : InstanceSpec) (answers : Answers) (path : String)
    (supervisor : Supervisor) : Bool :=
  match supervisor.shared.admin with
  | none => false
  | some admin => answers.post admin spec.adminToken path

/-- What an accepted pause or resume reports. -/
def reporting (paused : Bool) (state : InstanceState) (supervisor : Supervisor) : Supervisor :=
  { supervisor with shared := { supervisor.shared with paused := paused, state := state } }

/-- Pausing posts to the admin address, and reports when that is accepted. -/
theorem pauseInstance_eq : supervisor.pauseInstance spec answers =
    if supervisor.accepts spec answers "/admin/pause" then supervisor.reporting true .paused
    else supervisor := by
  unfold pauseInstance accepts
  cases supervisor.shared.admin <;> rfl

/-- Resuming posts to the admin address, and reports when that is accepted. -/
theorem resumeInstance_eq : supervisor.resumeInstance spec answers =
    if supervisor.accepts spec answers "/admin/resume" then supervisor.reporting false .running
    else supervisor := by
  unfold resumeInstance accepts
  cases supervisor.shared.admin <;> rfl

end Posting

section Spawning

@[simp] theorem paused_spawnChild :
    (supervisor.spawnChild spec answers).shared.paused = supervisor.shared.paused := by
  unfold spawnChild
  dsimp only
  split <;> rfl

@[simp] theorem counters_spawnChild :
    (supervisor.spawnChild spec answers).counters = supervisor.counters := by
  unfold spawnChild
  dsimp only
  split <;> rfl

/-- A launch is one more call, which records the handle held. -/
theorem spawns_spawnChild : ∃ bin args,
    (supervisor.spawnChild spec answers).spawns =
      supervisor.spawns ++ [⟨bin, args, supervisor.child⟩] := by
  unfold spawnChild
  dsimp only
  split <;> exact ⟨_, _, rfl⟩

/-- A launch ends with a running process, or has failed and leaves the handle as it was. -/
theorem spawnChild_cases :
    ((supervisor.spawnChild spec answers).child.isSome = true ∧
        (supervisor.spawnChild spec answers).shared.state = .running) ∨
      ((supervisor.spawnChild spec answers).child = supervisor.child ∧
        (supervisor.spawnChild spec answers).shared.state = .failed) := by
  unfold spawnChild
  dsimp only
  split
  · exact .inl ⟨rfl, rfl⟩
  · exact .inr ⟨rfl, rfl⟩

/-- A launch that succeeds leaves a running instance with its process. -/
theorem launched_spawnChild (launches : ∀ bin args, (answers.spawn bin args).isSome = true) :
    (supervisor.spawnChild spec answers).child.isSome = true ∧
      (supervisor.spawnChild spec answers).shared.state = .running := by
  unfold spawnChild
  dsimp only
  split
  · exact ⟨rfl, rfl⟩
  · next failed =>
    rw [← Option.not_isSome_iff_eq_none] at failed
    exact absurd (launches _ _) failed

theorem restartBackoff_eq_none_iff {policy : Policy} {attempts : Nat} :
    restartBackoff policy attempts = none ↔
      policy.restart = false ∨ policy.maxRestarts ≤ attempts := by
  unfold restartBackoff
  cases policy.restart <;> simp

/-- What a restart within the budget launches from: no process is held. -/
def emptied (supervisor : Supervisor) : Supervisor :=
  (supervisor.countAttempt.setState .restarting).terminateChild

/-- The restart policy launches again without a process held, or gives up. -/
theorem restartOrFail_cases :
    ((supervisor.restartOrFail spec answers).child =
          (supervisor.emptied.spawnChild spec answers).child ∧
        (supervisor.restartOrFail spec answers).shared =
          (supervisor.emptied.spawnChild spec answers).shared ∧
        (supervisor.restartOrFail spec answers).spawns =
          (supervisor.emptied.spawnChild spec answers).spawns ∧
        (restartBackoff spec.policy (supervisor.counters.attempts + 1)).isSome = true) ∨
      ((supervisor.restartOrFail spec answers).child = none ∧
        (supervisor.restartOrFail spec answers).shared.state = .failed ∧
        (supervisor.restartOrFail spec answers).shared.paused = supervisor.shared.paused ∧
        (supervisor.restartOrFail spec answers).spawns = supervisor.spawns) := by
  unfold restartOrFail
  dsimp only
  cases allowed : restartBackoff spec.policy supervisor.countAttempt.counters.attempts with
  | some backoff => exact .inl ⟨rfl, rfl, rfl, Option.isSome_of_eq_some allowed⟩
  | none => exact .inr ⟨rfl, rfl, rfl, rfl⟩

@[simp] theorem attempts_restartOrFail :
    (supervisor.restartOrFail spec answers).counters.attempts =
      supervisor.counters.attempts + 1 := by
  unfold restartOrFail
  dsimp only
  split
  · dsimp only
    rw [counters_spawnChild]
    rfl
  · rfl

end Spawning

section OneChild

/-- Every launch was made without a process held, and a stopped or failed instance holds
none. -/
structure Single (supervisor : Supervisor) : Prop where
  calls : ∀ call ∈ supervisor.spawns, call.held = none
  idle : supervisor.shared.state = .stopped ∨ supervisor.shared.state = .failed →
    supervisor.child = none

/-- A launch without a process held. -/
theorem Single.spawnChild (calls : ∀ call ∈ supervisor.spawns, call.held = none)
    (idle : supervisor.child = none) : (supervisor.spawnChild spec answers).Single := by
  constructor
  · obtain ⟨bin, args, same⟩ := @spawns_spawnChild spec answers supervisor
    rw [same]
    intro call member
    rcases List.mem_append.mp member with earlier | here
    · exact calls call earlier
    · rw [List.mem_singleton.mp here]
      exact idle
  · intro halted
    rcases @spawnChild_cases spec answers supervisor with ⟨-, running⟩ | ⟨kept, -⟩
    · rw [running] at halted
      simp at halted
    · rw [kept]
      exact idle

theorem Single.congr {other : Supervisor} (single : supervisor.Single)
    (spawns : other.spawns = supervisor.spawns) (child : other.child = supervisor.child)
    (state : other.shared.state = .stopped ∨ other.shared.state = .failed →
      supervisor.shared.state = .stopped ∨ supervisor.shared.state = .failed) :
    other.Single := by
  refine ⟨?_, fun halted => ?_⟩
  · rw [spawns]
    exact single.calls
  · rw [child]
    exact single.idle (state halted)

theorem Single.restartOrFail (calls : ∀ call ∈ supervisor.spawns, call.held = none) :
    (supervisor.restartOrFail spec answers).Single := by
  rcases @restartOrFail_cases spec answers supervisor with
    ⟨child, shared, spawns, -⟩ | ⟨child, -, -, spawns⟩
  · have launched : (supervisor.emptied.spawnChild spec answers).Single :=
      Single.spawnChild calls rfl
    refine launched.congr spawns child fun halted => ?_
    rwa [shared] at halted
  · refine ⟨?_, fun _ => child⟩
    rw [spawns]
    exact calls

theorem Single.checkHealthRestart (single : supervisor.Single) :
    (supervisor.checkHealthRestart spec answers).Single := by
  unfold Supervisor.checkHealthRestart
  split
  · exact Single.restartOrFail single.calls
  · exact single

theorem Single.failProbe (single : supervisor.Single) : supervisor.failProbe.Single :=
  single.congr rfl rfl id

theorem Single.applyHealth (single : supervisor.Single) (health : Health) :
    (supervisor.applyHealth spec answers health).Single := by
  unfold Supervisor.applyHealth
  split
  · exact single.failProbe.checkHealthRestart
  · refine single.congr rfl rfl fun halted => ?_
    dsimp only at halted
    split at halted
    · simp at halted
    · split at halted
      · simp at halted
      · exact halted

theorem Single.superviseTick (single : supervisor.Single) :
    (supervisor.superviseTick spec answers).Single := by
  unfold Supervisor.superviseTick
  split
  · dsimp only
    split
    · exact ⟨single.calls, fun _ => rfl⟩
    · exact Single.restartOrFail single.calls
  · split
    · exact single
    · split
      · exact single
      · split
        · exact single.applyHealth _
        · exact single.failProbe.checkHealthRestart

/-- Pausing and resuming only change what is reported. -/
theorem Single.reporting (single : supervisor.Single) (accepted paused : Bool)
    {state : InstanceState} (active : state = .running ∨ state = .paused) :
    (if accepted then supervisor.reporting paused state else supervisor).Single := by
  split
  · refine single.congr rfl rfl fun halted => ?_
    rcases active with rfl | rfl <;> simp [Supervisor.reporting] at halted
  · exact single

theorem Single.pauseInstance (single : supervisor.Single) :
    (supervisor.pauseInstance spec answers).Single := by
  rw [pauseInstance_eq]
  exact single.reporting _ _ (.inr rfl)

theorem Single.resumeInstance (single : supervisor.Single) :
    (supervisor.resumeInstance spec answers).Single := by
  rw [resumeInstance_eq]
  exact single.reporting _ _ (.inl rfl)

theorem Single.handle (single : supervisor.Single) (event : Event) :
    (supervisor.handle spec event).Single := by
  cases event with
  | tick answers => exact single.superviseTick
  | command command answers =>
      cases command with
      | start =>
          unfold Supervisor.handle handleCommand
          dsimp only
          split
          · next stopped => exact Single.spawnChild single.calls (single.idle (.inl stopped))
          · next failed => exact Single.spawnChild single.calls (single.idle (.inr failed))
          · exact single
      | stop => exact ⟨single.calls, fun _ => rfl⟩
      | restart => exact Single.spawnChild single.calls rfl
      | pause => exact single.pauseInstance
      | resume => exact single.resumeInstance

theorem single_initial (desired : String) (answers : Answers) :
    (initial spec desired answers).Single := by
  have launched : ((new spec).spawnChild spec answers).Single :=
    Single.spawnChild (fun _ member => nomatch member) rfl
  unfold initial
  split
  · dsimp only
    split
    · exact launched.pauseInstance
    · exact launched
  · refine ⟨?_, fun _ => rfl⟩
    intro call member
    cases member

/-- Whether handling an event may launch an instance that has no process. -/
def Event.launches : Event → Bool
  | .command .start _ => true
  | .command .restart _ => true
  | _ => false

/-- Without a process a tick changes nothing. -/
theorem superviseTick_of_idle (idle : supervisor.child = none) :
    supervisor.superviseTick spec answers = supervisor := by
  have unseen : supervisor.childExited answers = false := by
    unfold childExited
    rw [idle]
  unfold superviseTick
  rw [unseen, idle]
  simp

/-- Without a process nothing but a start or a restart launches one. -/
theorem spawns_handle_of_idle {event : Event} (idle : supervisor.child = none)
    (silent : event.launches = false) :
    (supervisor.handle spec event).child = none ∧
      (supervisor.handle spec event).spawns = supervisor.spawns := by
  cases event with
  | tick answers =>
      change (supervisor.superviseTick spec answers).child = none ∧ _
      rw [handle, superviseTick_of_idle idle]
      exact ⟨idle, rfl⟩
  | command command answers =>
      cases command with
      | start => cases silent
      | restart => cases silent
      | stop => exact ⟨rfl, rfl⟩
      | pause =>
          unfold handle handleCommand
          dsimp only
          rw [pauseInstance_eq]
          split <;> exact ⟨idle, rfl⟩
      | resume =>
          unfold handle handleCommand
          dsimp only
          rw [resumeInstance_eq]
          split <;> exact ⟨idle, rfl⟩

theorem spawns_foldl_of_idle {events : List Event} (idle : supervisor.child = none)
    (silent : ∀ event ∈ events, event.launches = false) :
    (events.foldl (handle spec) supervisor).spawns = supervisor.spawns := by
  induction events generalizing supervisor with
  | nil => rfl
  | cons event rest ih =>
      obtain ⟨still, same⟩ := @spawns_handle_of_idle spec supervisor event idle
        (silent event List.mem_cons_self)
      have others : ∀ other ∈ rest, other.launches = false := fun other member =>
        silent other (List.mem_cons_of_mem _ member)
      rw [List.foldl_cons, ih still others, same]

/-- **At most one process, and no unsolicited one.** Whatever a supervisor handles, it has
launched its process only without one held, holds none while the instance is stopped or
failed, and after a stop launches none until it handles a start or a restart. -/
theorem one_child (spec : InstanceSpec) (desired : String) (answers : Answers)
    (events : List Event) :
    (∀ call ∈ (run spec desired answers events).spawns, call.held = none) ∧
      ((run spec desired answers events).shared.state = .stopped ∨
          (run spec desired answers events).shared.state = .failed →
        (run spec desired answers events).child = none) ∧
      ∀ earlier later stopping, events = earlier ++ .command .stop stopping :: later →
        (∀ event ∈ later, event.launches = false) →
          (run spec desired answers events).spawns =
            (run spec desired answers earlier).spawns := by
  have single : (run spec desired answers events).Single :=
    foldl_keeps (single_initial desired answers) (fun _ event holds => holds.handle event) events
  refine ⟨single.calls, single.idle, ?_⟩
  rintro earlier later stopping rfl silent
  have stopped : ((run spec desired answers earlier).handle spec
      (.command .stop stopping)).child = none := rfl
  unfold run at stopped ⊢
  rw [List.foldl_append, List.foldl_cons, spawns_foldl_of_idle stopped silent]
  rfl

end OneChild

section Reports

/-- A running or paused instance has a process, and the paused flag is set just in case the
instance is reported as paused. -/
structure ReportsTruly (supervisor : Supervisor) : Prop where
  process : supervisor.shared.state = .running ∨ supervisor.shared.state = .paused →
    supervisor.child.isSome = true
  flag : supervisor.shared.paused = true ↔ supervisor.shared.state = .paused

/-- Whether the probe of a tick is one failure too many. -/
def failsHealth (spec : InstanceSpec) (answers : Answers) (supervisor : Supervisor) : Bool :=
  match supervisor.shared.admin with
  | none => false
  | some admin =>
      (match answers.probe admin spec.adminToken with
        | some health => !health.healthy
        | none => true) &&
      decide (spec.policy.healthFailures ≤ supervisor.counters.failures + 1)

/-- Whether a tick finds the process gone or unhealthy for too long. -/
def losesProcess (spec : InstanceSpec) (answers : Answers) (supervisor : Supervisor) : Bool :=
  supervisor.childExited answers ||
    (spec.healthEnabled && supervisor.child.isSome && supervisor.failsHealth spec answers)

/-- The event leaves no stale report: nothing ends or replaces the process of a paused
instance, and no pause or resume is accepted without a process. -/
def Sound (spec : InstanceSpec) (supervisor : Supervisor) : Event → Prop
  | .command .start _ => True
  | .command .stop _ => supervisor.shared.paused = false
  | .command .restart _ => supervisor.shared.paused = false
  | .command .pause answers =>
      supervisor.child = none → supervisor.accepts spec answers "/admin/pause" = false
  | .command .resume answers =>
      supervisor.child = none → supervisor.accepts spec answers "/admin/resume" = false
  | .tick answers =>
      supervisor.losesProcess spec answers = true → supervisor.shared.paused = false

/-- The initial pause leaves no stale report. -/
def SoundStart (spec : InstanceSpec) (desired : String) (answers : Answers) : Prop :=
  desired = "paused" → Sound spec ((new spec).spawnChild spec answers) (.command .pause answers)

/-- A launch reports truly just in case the paused flag was clear. -/
theorem reportsTruly_spawnChild :
    (supervisor.spawnChild spec answers).ReportsTruly ↔ supervisor.shared.paused = false := by
  constructor
  · intro truly
    have flag := truly.flag
    rw [paused_spawnChild] at flag
    rcases @spawnChild_cases spec answers supervisor with ⟨-, state⟩ | ⟨-, state⟩
    · rw [state] at flag
      simpa using flag
    · rw [state] at flag
      simpa using flag
  · intro clear
    constructor
    · intro active
      rcases @spawnChild_cases spec answers supervisor with ⟨held, -⟩ | ⟨-, failed⟩
      · exact held
      · rw [failed] at active
        simp at active
    · rw [paused_spawnChild, clear]
      rcases @spawnChild_cases spec answers supervisor with ⟨-, state⟩ | ⟨-, state⟩
      · rw [state]
        simp
      · rw [state]
        simp

theorem reportsTruly_restartOrFail :
    (supervisor.restartOrFail spec answers).ReportsTruly ↔ supervisor.shared.paused = false := by
  rcases @restartOrFail_cases spec answers supervisor with
    ⟨child, shared, -, -⟩ | ⟨child, failed, paused, -⟩
  · have launched : (supervisor.emptied.spawnChild spec answers).ReportsTruly ↔
        supervisor.shared.paused = false := reportsTruly_spawnChild
    rw [← launched]
    constructor
    · rintro ⟨process, flag⟩
      rw [shared] at flag
      rw [shared, child] at process
      exact ⟨process, flag⟩
    · rintro ⟨process, flag⟩
      rw [← shared] at flag
      rw [← shared, ← child] at process
      exact ⟨process, flag⟩
  · constructor
    · intro truly
      have flag := truly.flag
      rw [paused, failed] at flag
      simpa using flag
    · intro clear
      constructor
      · rw [failed]
        simp
      · rw [paused, failed, clear]
        simp

theorem reportsTruly_stop :
    (supervisor.handleCommand spec answers .stop).ReportsTruly ↔
      supervisor.shared.paused = false := by
  constructor
  · intro stopped
    have flag : supervisor.shared.paused = true ↔ InstanceState.stopped = .paused := stopped.flag
    simpa using flag
  · intro clear
    constructor
    · intro active
      rcases active with running | paused
      · cases running
      · cases paused
    · change supervisor.shared.paused = true ↔ InstanceState.stopped = .paused
      rw [clear]
      simp

/-- A healthy instance with a process is reported as it says. -/
theorem reportsTruly_healthy (held : supervisor.child.isSome = true) {health : Health}
    (healthy : health.healthy = true) :
    (supervisor.applyHealth spec answers health).ReportsTruly := by
  unfold applyHealth
  simp only [healthy, Bool.not_true, Bool.false_eq_true, if_false]
  refine ⟨fun _ => held, ?_⟩
  dsimp only
  cases health.paused with
  | true => simp
  | false =>
      rw [if_neg Bool.false_ne_true]
      split
      · simp
      · next active => simp [active]

variable (truly : supervisor.ReportsTruly)
include truly

/-- A start only launches what is not paused. -/
theorem reportsTruly_start : (supervisor.handleCommand spec answers .start).ReportsTruly := by
  have clear : supervisor.shared.state ≠ .paused → supervisor.shared.paused = false := by
    intro active
    exact Bool.eq_false_iff.mpr fun paused => active (truly.flag.mp paused)
  unfold handleCommand
  dsimp only
  split
  · next stopped => exact reportsTruly_spawnChild.mpr (clear (by rw [stopped]; simp))
  · next failed => exact reportsTruly_spawnChild.mpr (clear (by rw [failed]; simp))
  · exact truly

/-- A pause or resume reports truly unless it is accepted without a process. -/
theorem reportsTruly_reporting (accepted : Bool) {paused : Bool} {state : InstanceState}
    (active : state = .running ∨ state = .paused) (flag : paused = true ↔ state = .paused) :
    (if accepted then supervisor.reporting paused state else supervisor).ReportsTruly ↔
      (supervisor.child = none → accepted = false) := by
  cases accepted with
  | false => exact ⟨fun _ _ => rfl, fun _ => truly⟩
  | true =>
      rw [if_pos rfl]
      constructor
      · intro reported idle
        have held : supervisor.child.isSome = true := reported.process active
        rw [idle] at held
        cases held
      · intro held
        refine ⟨fun _ => ?_, flag⟩
        exact Option.isSome_iff_ne_none.mpr fun idle => nomatch held idle

theorem reportsTruly_pause :
    (supervisor.pauseInstance spec answers).ReportsTruly ↔
      (supervisor.child = none → supervisor.accepts spec answers "/admin/pause" = false) := by
  rw [pauseInstance_eq]
  exact reportsTruly_reporting truly _ (.inr rfl) (by simp)

theorem reportsTruly_resume :
    (supervisor.resumeInstance spec answers).ReportsTruly ↔
      (supervisor.child = none → supervisor.accepts spec answers "/admin/resume" = false) := by
  rw [resumeInstance_eq]
  exact reportsTruly_reporting truly _ (.inl rfl) (by simp)

theorem reportsTruly_failProbe : supervisor.failProbe.ReportsTruly :=
  ⟨truly.process, truly.flag⟩

theorem reportsTruly_checkHealthRestart :
    (supervisor.failProbe.checkHealthRestart spec answers).ReportsTruly ↔
      (spec.policy.healthFailures ≤ supervisor.counters.failures + 1 →
        supervisor.shared.paused = false) := by
  unfold checkHealthRestart
  split
  · next due =>
      rw [reportsTruly_restartOrFail]
      exact ⟨fun clear _ => clear, fun clear => clear due⟩
  · next early => exact ⟨fun _ due => absurd due early, fun _ => reportsTruly_failProbe truly⟩

/-- A tick reports truly unless it ends or replaces the process of a paused instance. -/
theorem reportsTruly_tick :
    (supervisor.superviseTick spec answers).ReportsTruly ↔
      (supervisor.losesProcess spec answers = true → supervisor.shared.paused = false) := by
  unfold superviseTick losesProcess
  cases exited : supervisor.childExited answers with
  | true =>
      rw [if_pos rfl, Bool.true_or]
      dsimp only
      split
      · next stopping =>
          have clear : supervisor.shared.paused = false := by
            apply Bool.eq_false_iff.mpr
            intro paused
            have state := truly.flag.mp paused
            rw [stopping] at state
            cases state
          refine ⟨fun _ _ => clear, fun _ => ?_⟩
          constructor
          · rintro (running | paused)
            · cases running
            · cases paused
          · change supervisor.shared.paused = true ↔ InstanceState.stopped = .paused
            rw [clear]
            simp
      · rw [reportsTruly_restartOrFail]
        exact ⟨fun clear _ => clear, fun clear => clear rfl⟩
  | false =>
      rw [if_neg Bool.false_ne_true, Bool.false_or]
      cases spec.healthEnabled with
      | false => exact ⟨(fun _ impossible => nomatch impossible), fun _ => truly⟩
      | true =>
          cases child : supervisor.child with
          | none => exact ⟨(fun _ impossible => nomatch impossible), fun _ => truly⟩
          | some process =>
              have held : supervisor.child.isSome = true := Option.isSome_of_eq_some child
              unfold failsHealth
              cases supervisor.shared.admin with
              | none => exact ⟨(fun _ impossible => nomatch impossible), fun _ => truly⟩
              | some admin =>
                  dsimp only
                  cases answers.probe admin spec.adminToken with
                  | none =>
                      have probed := @reportsTruly_checkHealthRestart spec answers supervisor truly
                      simpa using probed
                  | some health =>
                      cases healthy : health.healthy with
                      | true =>
                          have reported :=
                            @reportsTruly_healthy spec answers supervisor held health healthy
                          simp [reported, healthy]
                      | false =>
                          have probed :=
                            @reportsTruly_checkHealthRestart spec answers supervisor truly
                          unfold applyHealth
                          simpa [healthy] using probed

/-- **One event.** From a state reported truly, an event leads to one just in case it is
sound. -/
theorem reportsTruly_handle (event : Event) :
    (supervisor.handle spec event).ReportsTruly ↔ Sound spec supervisor event := by
  cases event with
  | tick answers => exact reportsTruly_tick truly
  | command command answers =>
      cases command with
      | start => exact ⟨fun _ => trivial, fun _ => reportsTruly_start truly⟩
      | stop => exact @reportsTruly_stop spec answers supervisor
      | restart => exact reportsTruly_spawnChild
      | pause => exact reportsTruly_pause truly
      | resume => exact reportsTruly_resume truly

omit truly in
theorem reportsTruly_initial (spec : InstanceSpec) (desired : String) (answers : Answers) :
    (initial spec desired answers).ReportsTruly ↔ SoundStart spec desired answers := by
  have launched : ((new spec).spawnChild spec answers).ReportsTruly :=
    reportsTruly_spawnChild.mpr rfl
  unfold initial SoundStart
  split
  · next active =>
      dsimp only
      split
      · next paused =>
          rw [reportsTruly_pause launched]
          exact ⟨fun sound _ => sound, fun sound => sound paused⟩
      · next running => exact ⟨fun _ paused => absurd paused running, fun _ => launched⟩
  · next stopped =>
      rw [not_not] at stopped
      constructor
      · intro _ paused
        rw [stopped] at paused
        simp at paused
      · intro _
        constructor
        · rintro (running | paused)
          · cases running
          · cases paused
        · change false = true ↔ InstanceState.stopped = .paused
          simp

omit truly in
/-- **When the reported state matches the process.** Throughout a sequence of events the
supervisor reports truly just in case the initial pause and every event are sound where
they happen. -/
theorem reports_truly_iff (spec : InstanceSpec) (desired : String) (answers : Answers)
    (events : List Event) :
    (∀ earlier, earlier <+: events → (run spec desired answers earlier).ReportsTruly) ↔
      SoundStart spec desired answers ∧ ∀ earlier event, earlier ++ [event] <+: events →
        Sound spec (run spec desired answers earlier) event := by
  rw [← reportsTruly_initial]
  exact throughout_iff fun supervisor event truly => reportsTruly_handle truly event

end Reports

end Supervisor

namespace Sample

open Supervisor

/-- An instance with an admin address. -/
def ordersSpec : InstanceSpec :=
  { id := "orders-1", flow := "orders.yaml", admin := some "127.0.0.1:9000" }

/-- Launches, posts and probes succeed, and no process exits. -/
def allWell : Answers where
  spawn _ _ := some 1
  tryWait _ := .running
  probe _ _ := some ⟨true, false⟩
  post _ _ _ := true

/-- Launches succeed, and each process is found to have exited. -/
def allExit : Answers := { allWell with tryWait := fun _ => .exited }

/-- The instance is paused, and then stopped. -/
def pauseAndStop : List Supervisor.Event := [.command .pause allWell, .command .stop allWell]

/-- **The paused flag outlives the pause**: a stopped instance is still flagged as paused. -/
theorem pauseAndStop_not_reported :
    ((run ordersSpec "running" allWell pauseAndStop).shared.state,
        (run ordersSpec "running" allWell pauseAndStop).shared.paused) = (.stopped, true) ∧
      ¬ ∀ earlier, earlier <+: pauseAndStop →
        (run ordersSpec "running" allWell earlier).ReportsTruly := by
  refine ⟨rfl, fun truly => ?_⟩
  have flag := (truly pauseAndStop (List.prefix_refl _)).flag
  have stopped : InstanceState.stopped = .paused := flag.mp rfl
  cases stopped

/-- Without a pause the same stop is reported truly. -/
example : (run ordersSpec "running" allWell [.command .stop allWell]).ReportsTruly :=
  ⟨by decide, by decide⟩

end Sample

end Sohara
