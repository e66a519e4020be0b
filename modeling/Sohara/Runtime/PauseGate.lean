import Sohara.Async.Completion
import Sohara.Transition.Runs
import Mathlib.Logic.Function.Basic
import Mathlib.Data.List.Basic

/-! # The pause gate

A flag with a notifier that keeps no permit. A waiter loads the flag, registers with the
notifier, and waits; a call that clears the flag stores it and then wakes who is
registered. A wakeup is lost just in case the last notification comes between the load and
the registration of a waiter, with the flag clear.
-/

namespace Sohara

open Async Relation

/-- Where a waiter is in `wait_unpaused`. -/
inductive Waiter where
  | away
  /-- About to load the flag. -/
  | checking
  /-- Has loaded a raised flag, and is about to register. -/
  | seen
  /-- Registered, and not notified. -/
  | waiting
  /-- Registered, and notified. -/
  | woken
  deriving DecidableEq, Repr

/-- Where a caller is in `set_paused`. -/
inductive Setter where
  | idle
  /-- Has cleared the flag, and is about to notify. -/
  | notifying
  deriving DecidableEq, Repr

/-- The flag, the waiters, and the callers that set it. -/
structure PauseGate (ι κ : Type) where
  paused : Bool := false
  waiters : ι → Waiter := fun _ => .away
  setters : κ → Setter := fun _ => .idle

/-- The steps of waiters and callers. -/
inductive GateEvent (ι κ : Type) where
  | enter (waiter : ι)
  | load (waiter : ι)
  | register (waiter : ι)
  | wake (waiter : ι)
  | store (setter : κ) (paused : Bool)
  | notify (setter : κ)
  deriving DecidableEq, Repr

/-- A waiter after a notification. -/
def Waiter.notified : Waiter → Waiter
  | .waiting => .woken
  | waiter => waiter

namespace PauseGate

section Definitions

variable {ι κ : Type} [DecidableEq ι] [DecidableEq κ]

/-- Moves a waiter. -/
def setWaiter (waiter : ι) (place : Waiter) (gate : PauseGate ι κ) : PauseGate ι κ :=
  { gate with waiters := Function.update gate.waiters waiter place }

/-- Moves a caller. -/
def setSetter (setter : κ) (place : Setter) (gate : PauseGate ι κ) : PauseGate ι κ :=
  { gate with setters := Function.update gate.setters setter place }

/-- The gate after a step, if the step can happen. -/
def step (event : GateEvent ι κ) (gate : PauseGate ι κ) : Option (PauseGate ι κ) :=
  match event with
  | .enter waiter =>
      if gate.waiters waiter = .away then some (gate.setWaiter waiter .checking) else none
  | .load waiter =>
      if gate.waiters waiter = .checking then
        some (gate.setWaiter waiter (if gate.paused then .seen else .away))
      else none
  | .register waiter =>
      if gate.waiters waiter = .seen then some (gate.setWaiter waiter .waiting) else none
  | .wake waiter =>
      if gate.waiters waiter = .woken then some (gate.setWaiter waiter .checking) else none
  | .store setter paused =>
      if gate.setters setter = .idle then
        some ({ gate with paused := paused }.setSetter setter
          (if paused then .idle else .notifying))
      else none
  | .notify setter =>
      if gate.setters setter = .notifying then
        some ({ gate with waiters := fun waiter => (gate.waiters waiter).notified }.setSetter
          setter .idle)
      else none

/-- A step, with the gate before it. -/
structure Moment (ι κ : Type) where
  before : PauseGate ι κ
  event : GateEvent ι κ

/-- A run of a gate, with the moments of its steps. -/
inductive Run (first : PauseGate ι κ) : List (Moment ι κ) → PauseGate ι κ → Prop where
  | nil : Run first [] first
  | snoc {moments : List (Moment ι κ)} {gate next : PauseGate ι κ} {event : GateEvent ι κ}
      (run : Run first moments gate) (stepped : gate.step event = some next) :
      Run first (moments ++ [⟨gate, event⟩]) next

/-- Plays steps in turn; nothing when one of them cannot happen. -/
def play (gate : PauseGate ι κ) :
    List (GateEvent ι κ) → Option (List (Moment ι κ) × PauseGate ι κ)
  | [] => some ([], gate)
  | event :: rest => do
      let next ← gate.step event
      let (moments, last) ← play next rest
      return (⟨gate, event⟩ :: moments, last)

end Definitions

section Wakeups

variable {ι κ : Type} {gate next first last : PauseGate ι κ} {moment : Moment ι κ}
  {moments : List (Moment ι κ)} {event : GateEvent ι κ} {waiter : ι}

/-- A caller has cleared the flag and is still to notify. -/
def Notifying (gate : PauseGate ι κ) : Prop := ∃ setter, gate.setters setter = .notifying

/-- A waiter waits though the flag is clear and no call is in progress. -/
structure Blocked (gate : PauseGate ι κ) (waiter : ι) : Prop where
  unpaused : gate.paused = false
  settled : ¬gate.Notifying
  waiting : gate.waiters waiter = .waiting

/-- A waiter that has loaded a raised flag has still something to wait for. -/
def Expecting (gate : PauseGate ι κ) (waiter : ι) : Prop :=
  gate.waiters waiter = .seen ∨ gate.waiters waiter = .waiting →
    gate.paused = true ∨ gate.Notifying

/-- A notification comes between the load and the registration of no waiter, unless the
flag is raised again or another notification is to come. -/
def Moment.Heard (moment : Moment ι κ) : Prop :=
  ∀ setter, moment.event = .notify setter → ∀ waiter, moment.before.waiters waiter = .seen →
    moment.before.paused = true ∨
      ∃ other, other ≠ setter ∧ moment.before.setters other = .notifying

theorem not_blocked_of_expecting (expecting : gate.Expecting waiter) : ¬gate.Blocked waiter := by
  intro blocked
  rcases expecting (.inr blocked.waiting) with raised | notifying
  · exact absurd (raised.symm.trans blocked.unpaused) Bool.noConfusion
  · exact blocked.settled notifying

variable [DecidableEq ι] [DecidableEq κ]

omit [DecidableEq κ] in
/-- Moving a waiter leaves the others expecting. -/
theorem Expecting.setWaiter (expecting : ∀ other, gate.Expecting other) {place : Waiter}
    (moved : place = .seen ∨ place = .waiting → gate.paused = true ∨ gate.Notifying) :
    ∀ other, (gate.setWaiter waiter place).Expecting other := by
  intro other
  unfold Expecting PauseGate.setWaiter
  by_cases same : other = waiter
  · subst same
    dsimp only
    rw [Function.update_self]
    exact moved
  · dsimp only
    rw [Function.update_of_ne same]
    exact expecting other

/-- A heard notification leaves the waiters expecting. -/
theorem Expecting.notify {setter : κ} (heard : Moment.Heard ⟨gate, .notify setter⟩)
    (stepped : gate.step (.notify setter) = some next) : ∀ other, next.Expecting other := by
  simp only [step] at stepped
  split at stepped
  · cases stepped
    intro other expected
    have seen : gate.waiters other = .seen := by
      simp only [setSetter, Waiter.notified] at expected
      split at expected
      · simp at expected
      · next unlike =>
          rcases expected with seen | waiting
          · exact seen
          · exact absurd waiting unlike
    rcases heard setter rfl other seen with raised | ⟨still, different, notifying⟩
    · exact .inl raised
    · refine .inr ⟨still, ?_⟩
      simp only [setSetter]
      rw [Function.update_of_ne different]
      exact notifying
  · cases stepped

/-- Every heard step leaves the waiters expecting. -/
theorem expecting_step (expecting : ∀ other, gate.Expecting other)
    (heard : Moment.Heard ⟨gate, event⟩) (stepped : gate.step event = some next) :
    ∀ other, next.Expecting other := by
  cases event with
  | notify setter => exact Expecting.notify heard stepped
  | store setter paused =>
      simp only [step] at stepped
      split at stepped
      · cases stepped
        intro other _
        cases paused with
        | true => exact .inl rfl
        | false => exact .inr ⟨setter, Function.update_self ..⟩
      · cases stepped
  | enter waiter =>
      simp only [step] at stepped
      split at stepped
      · cases stepped
        exact Expecting.setWaiter expecting (by simp)
      · cases stepped
  | load waiter =>
      simp only [step] at stepped
      split at stepped
      · cases stepped
        cases raised : gate.paused with
        | true => exact Expecting.setWaiter expecting fun _ => .inl raised
        | false => exact Expecting.setWaiter expecting (by simp)
      · cases stepped
  | register waiter =>
      simp only [step] at stepped
      split at stepped
      · next seen =>
          cases stepped
          exact Expecting.setWaiter expecting fun _ => expecting waiter (.inl seen)
      · cases stepped
  | wake waiter =>
      simp only [step] at stepped
      split at stepped
      · cases stepped
        exact Expecting.setWaiter expecting (by simp)
      · cases stepped

/-- In a run of heard steps the waiters stay expecting. -/
theorem Run.expecting (run : Run first moments last)
    (heard : ∀ moment ∈ moments, moment.Heard) (fresh : ∀ waiter, first.waiters waiter = .away) :
    ∀ waiter, last.Expecting waiter := by
  induction run with
  | nil =>
      intro waiter expected
      rw [fresh waiter] at expected
      simp at expected
  | snoc run stepped ih =>
      rw [List.forall_mem_append, List.forall_mem_singleton] at heard
      exact expecting_step (ih heard.1) heard.2 stepped

/-- **The gate loses no wakeup** in a run in which no last notification comes between the
load and the registration of a waiter. -/
theorem never_blocked (run : Run ({} : PauseGate ι κ) moments last)
    (heard : ∀ moment ∈ moments, moment.Heard) (waiter : ι) : ¬last.Blocked waiter :=
  not_blocked_of_expecting (run.expecting heard (fun _ => rfl) waiter)

/-- A notification that is not heard leaves a waiter that is blocked once it registers. -/
theorem blocked_of_unheard {setter : κ} (unheard : ¬Moment.Heard ⟨gate, .notify setter⟩)
    (stepped : gate.step (.notify setter) = some next) :
    ∃ waiter last, next.step (.register waiter) = some last ∧ last.Blocked waiter := by
  unfold Moment.Heard at unheard
  push Not at unheard
  obtain ⟨caller, same, waiter, seen, lowered, others⟩ := unheard
  cases same
  simp only [step] at stepped
  split at stepped
  · cases stepped
    have still : ((gate.waiters waiter).notified) = .seen := by rw [seen]; rfl
    refine ⟨waiter, _, if_pos still, Bool.eq_false_iff.mpr lowered, ?_, Function.update_self ..⟩
    rintro ⟨other, notifying⟩
    simp only [setWaiter, setSetter] at notifying
    by_cases equal : other = setter
    · subst equal
      rw [Function.update_self] at notifying
      cases notifying
    · rw [Function.update_of_ne equal] at notifying
      exact others other equal notifying
  · cases stepped

/-- Without a further call that sets the flag, a blocked waiter stays blocked. -/
theorem Blocked.step (blocked : gate.Blocked waiter) (stepped : gate.step event = some next)
    (uncalled : ∀ setter paused, event ≠ .store setter paused) : next.Blocked waiter := by
  obtain ⟨unpaused, settled, waiting⟩ := blocked
  have unmoved {mover : ι} {place : Waiter} (elsewhere : gate.waiters mover ≠ .waiting) :
      (gate.setWaiter mover place).Blocked waiter := by
    refine ⟨unpaused, settled, ?_⟩
    unfold PauseGate.setWaiter
    dsimp only
    rw [Function.update_of_ne, waiting]
    rintro rfl
    exact elsewhere waiting
  cases event with
  | store setter paused => exact absurd rfl (uncalled setter paused)
  | notify setter =>
      simp only [PauseGate.step] at stepped
      split at stepped
      · next notifying => exact absurd ⟨setter, notifying⟩ settled
      · cases stepped
  | _ =>
      simp only [PauseGate.step] at stepped
      split at stepped
      · next here =>
          cases stepped
          exact unmoved (by rw [here]; decide)
      · cases stepped

/-- **A blocked waiter is blocked forever** unless the flag is set again. -/
theorem Blocked.forever (run : Run gate moments last) (blocked : gate.Blocked waiter)
    (uncalled : ∀ moment ∈ moments, ∀ setter paused, moment.event ≠ .store setter paused) :
    last.Blocked waiter := by
  induction run with
  | nil => exact blocked
  | snoc run stepped ih =>
      rw [List.forall_mem_append, List.forall_mem_singleton] at uncalled
      exact (ih uncalled.1).step stepped uncalled.2

/-- Playing steps after a run extends the run. -/
theorem Run.play {events : List (GateEvent ι κ)} {later : List (Moment ι κ)}
    (run : Run first moments gate) (played : gate.play events = some (later, last)) :
    Run first (moments ++ later) last :=
  Transition.extend_of_play (fun _ => rfl) (fun _ _ _ => rfl) Run.snoc run played

end Wakeups

section Passing

variable {ι κ : Type} {gate next : PauseGate ι κ} {waiter : ι}

/-- A waiter is away or can get away without another call: the flag is clear, and a waiter
that has seen it raised is still to be notified. -/
def Opens (gate : PauseGate ι κ) (waiter : ι) : Prop :=
  gate.waiters waiter = .away ∨ gate.paused = false ∧ gate.Expecting waiter

/-- A waiter is away, or about to load the clear flag. -/
def Leaving (gate : PauseGate ι κ) (waiter : ι) : Prop :=
  gate.waiters waiter = .away ∨
    gate.paused = false ∧ (gate.waiters waiter = .checking ∨ gate.waiters waiter = .woken)

variable [DecidableEq ι] [DecidableEq κ]

/-- A step of those who are at the gate, without a call and without an arrival. -/
def Proceeds (gate next : PauseGate ι κ) : Prop :=
  ∃ event, (∀ waiter, event ≠ .enter waiter) ∧ (∀ setter paused, event ≠ .store setter paused) ∧
    gate.step event = some next

omit [DecidableEq κ] in
theorem waiters_setWaiter (other : ι) (place : Waiter) :
    (gate.setWaiter waiter place).waiters other =
      if other = waiter then place else gate.waiters other := Function.update_apply ..

omit [DecidableEq κ] in
/-- A waiter that is moved and moved back is where it was. -/
theorem setWaiter_back {place : Waiter} (here : gate.waiters waiter = place) (other : Waiter) :
    (gate.setWaiter waiter other).setWaiter waiter place = gate := by
  unfold setWaiter
  rw [Function.update_idem, ← here, Function.update_eq_self]

omit [DecidableEq κ] in
/-- Whoever is away stays away when another one moves. -/
theorem away_setWaiter {place : Waiter} (here : gate.waiters waiter ≠ .away) {other : ι}
    (away : gate.waiters other = .away) : (gate.setWaiter waiter place).waiters other = .away := by
  rw [waiters_setWaiter, if_neg]
  · exact away
  · rintro rfl
    exact here away

/-- Whoever is away stays away until it enters. -/
theorem away_step {event : GateEvent ι κ} (away : gate.waiters waiter = .away)
    (outside : event ≠ .enter waiter) (stepped : gate.step event = some next) :
    next.waiters waiter = .away := by
  cases event with
  | store =>
      simp only [step] at stepped
      split at stepped
      · cases stepped
        exact away
      · cases stepped
  | notify =>
      simp only [step] at stepped
      split at stepped
      · cases stepped
        show (gate.waiters waiter).notified = .away
        rw [away]
        rfl
      · cases stepped
  | enter mover =>
      simp only [step] at stepped
      split at stepped
      · cases stepped
        rw [waiters_setWaiter, if_neg]
        · exact away
        · rintro rfl
          exact outside rfl
      · cases stepped
  | _ =>
      simp only [step] at stepped
      split at stepped
      · next here =>
          cases stepped
          exact away_setWaiter (by rw [here]; decide) away
      · cases stepped

theorem away_of_proceeds (proceeds : ReflTransGen Proceeds gate next)
    (away : gate.waiters waiter = .away) : next.waiters waiter = .away := by
  induction proceeds with
  | refl => exact away
  | tail _ proceeds ih =>
      obtain ⟨_, outside, -, stepped⟩ := proceeds
      exact away_step ih (outside waiter) stepped

/-- The others that open still do when one of them has registered. -/
theorem exists_register {waiters : List ι} (opens : ∀ waiter ∈ waiters, gate.Opens waiter)
    (member : waiter ∈ waiters) :
    ∃ next, ReflTransGen Proceeds gate next ∧
      (next.paused = gate.paused ∧ ∀ waiter ∈ waiters, next.Opens waiter) ∧
      next.waiters waiter ≠ .seen ∧
      ∀ other, gate.waiters other ≠ .seen → next.waiters other ≠ .seen := by
  by_cases seen : gate.waiters waiter = .seen
  · have present : gate.waiters waiter ≠ .away := by rw [seen]; decide
    obtain ⟨clear, expecting⟩ := (opens waiter member).resolve_left present
    have notifying : (gate.setWaiter waiter .waiting).Notifying :=
      (expecting (.inl seen)).resolve_left (by rw [clear]; decide)
    refine ⟨_, .single ⟨.register waiter, nofun, nofun, if_pos seen⟩,
      ⟨rfl, fun other listed => ?_⟩, ?_, ?_⟩
    · rcases opens other listed with away | -
      · exact .inl (away_setWaiter present away)
      · exact .inr ⟨clear, fun _ => .inr notifying⟩
    · rw [waiters_setWaiter, if_pos rfl]
      decide
    · intro other unseen
      rw [waiters_setWaiter]
      split
      · decide
      · exact unseen
  · exact ⟨gate, .refl, ⟨rfl, opens⟩, seen, fun _ => id⟩

/-- Waiters that open can all register. -/
theorem exists_registered (waiters : List ι) (opens : ∀ waiter ∈ waiters, gate.Opens waiter) :
    ∃ next, ReflTransGen Proceeds gate next ∧
      (next.paused = gate.paused ∧ ∀ waiter ∈ waiters, next.Opens waiter) ∧
      ∀ waiter ∈ waiters, next.waiters waiter ≠ .seen := by
  obtain ⟨last, proceeds, kept, all, -⟩ := reach_all
    (fun next : PauseGate ι κ => next.paused = gate.paused ∧ ∀ waiter ∈ waiters, next.Opens waiter)
    (fun waiter next => next.waiters waiter ≠ .seen) waiters
    (fun waiter member here ⟨paused, still⟩ => by
      obtain ⟨next, proceeds, ⟨same, opens⟩, reached⟩ := exists_register still member
      exact ⟨next, proceeds, ⟨same.trans paused, opens⟩, reached⟩)
    gate ⟨rfl, opens⟩
  exact ⟨last, proceeds, kept, all⟩

/-- Waiters that open, none of which is about to register, can be notified. -/
theorem exists_notified {waiters : List ι} (opens : ∀ waiter ∈ waiters, gate.Opens waiter)
    (unseen : ∀ waiter ∈ waiters, gate.waiters waiter ≠ .seen) :
    ∃ next, ReflTransGen Proceeds gate next ∧ next.paused = gate.paused ∧
      ∀ waiter ∈ waiters, next.Leaving waiter := by
  by_cases notifying : gate.Notifying
  · obtain ⟨setter, notifying⟩ := notifying
    refine ⟨_, .single ⟨.notify setter, nofun, nofun, if_pos notifying⟩, rfl, ?_⟩
    intro waiter member
    rcases opens waiter member with away | ⟨clear, -⟩
    · left
      show (gate.waiters waiter).notified = .away
      rw [away]
      rfl
    · unfold Leaving
      show (gate.waiters waiter).notified = .away ∨ gate.paused = false ∧
        ((gate.waiters waiter).notified = .checking ∨ (gate.waiters waiter).notified = .woken)
      cases place : gate.waiters waiter with
      | away => exact .inl rfl
      | seen => exact absurd place (unseen waiter member)
      | checking => exact .inr ⟨clear, .inl rfl⟩
      | waiting => exact .inr ⟨clear, .inr rfl⟩
      | woken => exact .inr ⟨clear, .inr rfl⟩
  · refine ⟨gate, .refl, rfl, fun waiter member => ?_⟩
    rcases opens waiter member with away | ⟨clear, expecting⟩
    · exact .inl away
    · cases place : gate.waiters waiter with
      | away => exact .inl place
      | seen => exact absurd place (unseen waiter member)
      | checking => exact .inr ⟨clear, .inl place⟩
      | woken => exact .inr ⟨clear, .inr place⟩
      | waiting =>
          rcases expecting (.inr place) with raised | notified
          · rw [clear] at raised
            cases raised
          · exact absurd notified notifying

/-- A leaving waiter can leave. -/
theorem exists_left (leaving : gate.Leaving waiter) :
    ∃ next, ReflTransGen Proceeds gate next ∧ next.paused = gate.paused ∧
      next.waiters waiter = .away ∧
      ∀ other ≠ waiter, next.waiters other = gate.waiters other := by
  have load (here : PauseGate ι κ) (clear : here.paused = false)
      (checking : here.waiters waiter = .checking) :
      Proceeds here (here.setWaiter waiter .away) := by
    refine ⟨.load waiter, nofun, nofun, (if_pos checking).trans ?_⟩
    rw [clear]
    rfl
  rcases leaving with away | ⟨clear, checking | woken⟩
  · exact ⟨gate, .refl, rfl, away, fun _ _ => rfl⟩
  · refine ⟨_, .single (load gate clear checking), rfl, ?_, fun other different => ?_⟩
    · rw [waiters_setWaiter, if_pos rfl]
    · rw [waiters_setWaiter, if_neg different]
  · have wakes : Proceeds gate (gate.setWaiter waiter .checking) :=
      ⟨.wake waiter, nofun, nofun, if_pos woken⟩
    refine ⟨_, .tail (.single wakes) (load _ clear ?_), rfl, ?_, fun other different => ?_⟩
    · rw [waiters_setWaiter, if_pos rfl]
    · rw [waiters_setWaiter, if_pos rfl]
    · rw [waiters_setWaiter, if_neg different, waiters_setWaiter, if_neg different]

/-- **Waiters that open can all get away.** -/
theorem exists_opened (waiters : List ι) (opens : ∀ waiter ∈ waiters, gate.Opens waiter) :
    ∃ next, ReflTransGen Proceeds gate next ∧ next.paused = gate.paused ∧
      ∀ waiter ∈ waiters, next.waiters waiter = .away := by
  obtain ⟨registered, first, ⟨paused, still⟩, unseen⟩ := exists_registered waiters opens
  obtain ⟨notified, second, same, leaving⟩ := exists_notified still unseen
  obtain ⟨last, third, ⟨kept, -⟩, away, -⟩ := reach_all
    (fun next : PauseGate ι κ => next.paused = notified.paused ∧
      ∀ waiter ∈ waiters, next.Leaving waiter)
    (fun waiter next => next.waiters waiter = .away) waiters
    (fun waiter member here ⟨held, leaving⟩ => by
      obtain ⟨next, proceeds, same, gone, others⟩ := exists_left (leaving waiter member)
      have place (other : ι) (away : here.waiters other = .away) : next.waiters other = .away := by
        by_cases here : other = waiter
        · rw [here]
          exact gone
        · rw [others other here]
          exact away
      refine ⟨next, proceeds, ⟨same.trans held, fun other listed => ?_⟩, gone, place⟩
      by_cases same_ : other = waiter
      · rw [same_]
        exact .inl gone
      · have kept := leaving other listed
        unfold Leaving at kept ⊢
        rwa [others other same_, same])
    notified ⟨rfl, leaving⟩
  exact ⟨last, (first.trans second).trans third, (kept.trans same).trans paused, away⟩

omit [DecidableEq κ] in
theorem opens_setWaiter {place : Waiter} : (gate.setWaiter waiter place).Opens waiter ↔
    place = .away ∨ gate.paused = false ∧
      (place = .seen ∨ place = .waiting → gate.paused = true ∨ gate.Notifying) := by
  unfold Opens Expecting
  rw [waiters_setWaiter, if_pos rfl]
  rfl

/-- Without another call, a waiter that opens after a step opened before it. -/
theorem Opens.of_step {event : GateEvent ι κ} (opens : next.Opens waiter)
    (stepped : gate.step event = some next)
    (uncalled : ∀ setter paused, event ≠ .store setter paused) : gate.Opens waiter := by
  -- a waiter that moves can open again only if it could before; the others are where they were
  have moved {mover : ι} {place : Waiter}
      (mine : (gate.setWaiter mover place).Opens mover → gate.Opens mover)
      (opens : (gate.setWaiter mover place).Opens waiter) : gate.Opens waiter := by
    by_cases same : waiter = mover
    · rw [same] at opens ⊢
      exact mine opens
    · unfold Opens Expecting at opens ⊢
      rwa [waiters_setWaiter, if_neg same] at opens
  cases event with
  | store setter paused => exact absurd rfl (uncalled setter paused)
  | notify setter =>
      simp only [step] at stepped
      split at stepped
      · next notifying =>
          cases stepped
          rcases opens with away | ⟨clear, -⟩
          · left
            cases place : gate.waiters waiter <;>
              simp [setSetter, Waiter.notified, place] at away ⊢
          · exact .inr ⟨clear, fun _ => .inr ⟨setter, notifying⟩⟩
      · cases stepped
  | enter mover =>
      simp only [step] at stepped
      split at stepped
      · next away =>
          cases stepped
          exact moved (fun _ => .inl away) opens
      · cases stepped
  | load mover =>
      simp only [step] at stepped
      split at stepped
      · next checking =>
          cases stepped
          refine moved (fun opens => ?_) opens
          rw [opens_setWaiter] at opens
          cases raised : gate.paused with
          | true =>
              rw [raised] at opens
              rcases opens with away | ⟨clear, -⟩
              · cases away
              · cases clear
          | false =>
              refine .inr ⟨raised, fun seen => ?_⟩
              rw [checking] at seen
              simp at seen
      · cases stepped
  | register mover =>
      simp only [step] at stepped
      split at stepped
      · next seen =>
          cases stepped
          refine moved (fun opens => ?_) opens
          rcases opens_setWaiter.mp opens with away | ⟨clear, expecting⟩
          · cases away
          · exact .inr ⟨clear, fun _ => expecting (.inr rfl)⟩
      · cases stepped
  | wake mover =>
      simp only [step] at stepped
      split at stepped
      · next woken =>
          cases stepped
          refine moved (fun opens => ?_) opens
          rcases opens_setWaiter.mp opens with away | ⟨clear, -⟩
          · cases away
          · refine .inr ⟨clear, fun seen => ?_⟩
            rw [woken] at seen
            simp at seen
      · cases stepped

end Passing

end PauseGate

namespace Sample

open PauseGate

/-- A gate of one waiter and one caller. -/
def narrowGate : PauseGate Unit Unit := {}

/-- **A resume between the load and the registration is missed**, and the waiter is blocked
though the flag is clear. -/
theorem narrowGate_blocked : ∃ moments last, Run narrowGate moments last ∧
    moments.map (·.event) = [.store () true, .enter (), .load (), .store () false, .notify (),
      .register ()] ∧ last.Blocked () := by
  have played : narrowGate.play [.store () true, .enter (), .load (), .store () false,
    .notify (), .register ()] = some (_, _) := rfl
  refine ⟨_, _, Run.nil.play played, rfl, rfl, ?_, rfl⟩
  rintro ⟨setter, notifying⟩
  cases notifying

/-- A resume after the registration wakes the waiter. -/
theorem narrowGate_woken : ∃ moments last, Run narrowGate moments last ∧
    last.waiters () = .woken ∧ ¬last.Blocked () := by
  have played : narrowGate.play [.store () true, .enter (), .load (), .register (),
    .store () false, .notify ()] = some (_, _) := rfl
  refine ⟨_, _, Run.nil.play played, rfl, never_blocked (Run.nil.play played) ?_ ()⟩
  intro moment member setter notified waiter seen
  simp only [List.nil_append, List.mem_cons, List.not_mem_nil, or_false] at member
  rcases member with rfl | rfl | rfl | rfl | rfl | rfl
  all_goals cases notified
  cases seen

end Sample

end Sohara
