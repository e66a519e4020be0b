import Mathlib.Data.List.Induction

/-! # Runs of a transition system

A system goes from state to state by events; an event happens in some states and not in
others. A run is the list of its moments. What holds at first and is kept by every step
holds at every moment of every run.
-/

namespace Transition

variable {E σ : Type}

/-- An event, with the states before and after it. -/
structure Moment (E σ : Type) where
  before : σ
  event : E
  after : σ

/-- A run from a start, with its moments. -/
inductive Run (step : E → σ → Option σ) (start : σ) :
    List (Moment E σ) → σ → Prop where
  | nil : Run step start [] start
  | snoc {moments : List (Moment E σ)} {state next : σ} {event : E}
      (run : Run step start moments state) (stepped : step event state = some next) :
      Run step start (moments ++ [⟨state, event, next⟩]) next

/-- Plays events in turn; nothing when one of them cannot happen. -/
def play (step : E → σ → Option σ) (state : σ) : List E → Option (List (Moment E σ) × σ)
  | [] => some ([], state)
  | event :: rest => do
      let next ← step event state
      let (moments, last) ← play step next rest
      return (⟨state, event, next⟩ :: moments, last)

variable {step : E → σ → Option σ} {start state last : σ} {moments : List (Moment E σ)}
  {moment : Moment E σ}

/-- **Playing extends.** What plays events in turn, and notes a moment for each, extends every
run that a step extends by its moment. -/
theorem extend_of_play {ρ : Type} {runs : List ρ → σ → Prop} {step : σ → E → Option σ}
    {note : σ → E → σ → ρ} {play : σ → List E → Option (List ρ × σ)}
    (nil : ∀ state, play state [] = some ([], state))
    (cons : ∀ state event rest, play state (event :: rest) =
      (step state event).bind fun next => (play next rest).bind fun played =>
        some (note state event next :: played.1, played.2))
    (snoc : ∀ {moments state event next}, runs moments state → step state event = some next →
      runs (moments ++ [note state event next]) next)
    {events : List E} {moments later : List ρ} (run : runs moments state)
    (played : play state events = some (later, last)) : runs (moments ++ later) last := by
  induction events generalizing moments state later with
  | nil =>
      cases (nil state).symm.trans played
      rwa [List.append_nil]
  | cons event rest ih =>
      rw [cons] at played
      obtain ⟨next, stepped, goesOn⟩ := Option.bind_eq_some_iff.mp played
      obtain ⟨⟨others, final⟩, playedRest, same⟩ := Option.bind_eq_some_iff.mp goesOn
      cases same
      have extended := ih (snoc run stepped) playedRest
      rwa [List.append_assoc] at extended

/-- Playing events after a run extends the run. -/
theorem Run.play {events : List E} {later : List (Moment E σ)} (run : Run step start moments state)
    (played : Transition.play step state events = some (later, last)) :
    Run step start (moments ++ later) last :=
  extend_of_play (fun _ => rfl) (fun _ _ _ => rfl) Run.snoc run played

/-- **Guarded invariants.** What holds at first, and is kept by every step whose moment is
allowed, holds before and after each moment of a run whose moments are all allowed. -/
theorem Run.guarded {invariant : σ → Prop} {allowed : Moment E σ → Prop}
    (run : Run step start moments last) (init : invariant start)
    (keeps : ∀ event state next, invariant state → step event state = some next →
      allowed ⟨state, event, next⟩ → invariant next)
    (each : ∀ moment ∈ moments, allowed moment) :
    invariant last ∧ ∀ moment ∈ moments,
      step moment.event moment.before = some moment.after ∧ invariant moment.before ∧
        invariant moment.after := by
  induction run with
  | nil => exact ⟨init, fun _ member => nomatch member⟩
  | snoc run stepped ih =>
      obtain ⟨holds, earlier⟩ := ih fun moment member =>
        each moment (List.mem_append_left _ member)
      have kept := keeps _ _ _ holds stepped (each _ (List.mem_append_right _ List.mem_cons_self))
      refine ⟨kept, ?_⟩
      intro moment member
      rcases List.mem_append.mp member with inside | here
      · exact earlier moment inside
      · obtain rfl := List.mem_singleton.mp here
        exact ⟨stepped, holds, kept⟩

/-- **Invariants.** What holds at first and is kept by every step holds at the end of a run,
and before and after each of its moments. -/
theorem Run.invariant {invariant : σ → Prop} (run : Run step start moments last)
    (init : invariant start)
    (keeps : ∀ event state next, invariant state → step event state = some next →
      invariant next) :
    invariant last ∧ ∀ moment ∈ moments,
      step moment.event moment.before = some moment.after ∧ invariant moment.before ∧
        invariant moment.after :=
  @Run.guarded _ _ step start last moments invariant (fun _ => True) run init
    (fun event state next holds stepped _ => keeps event state next holds stepped)
    fun _ _ => trivial

/-- The moments of a run are steps. -/
theorem Run.stepped (run : Run step start moments last) (member : moment ∈ moments) :
    step moment.event moment.before = some moment.after := by
  have trivially := @Run.invariant _ _ step start last moments (fun _ => True) run trivial
    fun _ _ _ _ _ => trivial
  exact (trivially.2 moment member).1

section Folds

variable {next : σ → E → σ} {good : σ → Prop} {allowed : σ → E → Prop}
  {events : List E}

/-- A system in which every event happens in every state: it stays good throughout a
sequence of events just in case each event is allowed where it happens, when being allowed
is exactly what keeps a good state good. -/
theorem throughout_iff (exact_ : ∀ state event, good state → (good (next state event) ↔
    allowed state event)) :
    (∀ earlier, earlier <+: events → good (earlier.foldl next start)) ↔
      good start ∧ ∀ earlier event, earlier ++ [event] <+: events →
        allowed (earlier.foldl next start) event := by
  constructor
  · intro throughout
    refine ⟨throughout [] List.nil_prefix, fun earlier event reached => ?_⟩
    have before := throughout earlier ((List.prefix_append _ _).trans reached)
    have after := throughout _ reached
    rw [List.foldl_append] at after
    exact (exact_ _ event before).mp after
  · rintro ⟨init, each⟩ earlier reached
    induction earlier using List.reverseRecOn with
    | nil => exact init
    | append_singleton earlier event ih =>
        have before := ih ((List.prefix_append _ _).trans reached)
        rw [List.foldl_append]
        exact (exact_ _ event before).mpr (each earlier event reached)

/-- What holds at first and is kept by every event holds throughout. -/
theorem foldl_keeps {invariant : σ → Prop} (init : invariant start)
    (keeps : ∀ state event, invariant state → invariant (next state event)) (events : List E) :
    invariant (events.foldl next start) := by
  induction events generalizing start with
  | nil => exact init
  | cons event rest ih => exact ih (keeps start event init)

end Folds

end Transition
