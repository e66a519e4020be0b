import Sohara.Triggers.Bus
import Sohara.Transition.Runs

/-! # Queue triggers

A queue source emits what is published on its topic. Its stream waits for its channel and
for the shutdown signal at once, and takes either when both are ready. Everything that its
channel has accepted is emitted or still in the channel, so a shutdown loses an accepted
payload just in case the stream takes the signal while the channel holds one.
-/

namespace Sohara

/-- The branches between which the stream of a queue source selects. -/
inductive SelectBranch where
  | item
  | shutdown
  deriving DecidableEq, Repr

/-- What a poll of a stream gives. -/
inductive Polled (P : Type) where
  | pending
  | item (payload : P)
  | done
  deriving DecidableEq, Repr

/-- The payload that a poll emits. -/
def Polled.emitted {P : Type} : Polled P → List P
  | .pending => []
  | .item payload => [payload]
  | .done => []

/-- A queue source and its bus: the place of its channel there, its shutdown signal, and
whether its stream has ended. -/
structure QueueSource (P : Type) where
  bus : InProcessBus P
  topic : String
  index : Nat
  shutdown : Bool := false
  ended : Bool := false
  deriving DecidableEq, Repr

namespace QueueSource

variable {P : Type}

/-- A source that subscribes to its topic. -/
def new (topic : String) (bus : InProcessBus P) : QueueSource P where
  bus := bus.subscribe topic
  topic := topic
  index := (bus.channels topic).length

/-- The channel of a source. -/
def channel (source : QueueSource P) : Channel P :=
  ((source.bus.channels source.topic)[source.index]?).getD {}

/-- Polls the stream, which looks at one branch first. -/
def poll (first : SelectBranch) (source : QueueSource P) : Polled P × QueueSource P :=
  match first, source.shutdown, source.bus.recv source.topic source.index with
  | .shutdown, true, _ => (.done, { source with ended := true })
  | _, _, some (payload, bus) => (.item payload, { source with bus := bus })
  | _, true, none => (.done, { source with ended := true })
  | _, false, none => (.pending, source)

/-- Signals the shutdown. -/
def stop (source : QueueSource P) : QueueSource P := { source with shutdown := true }

end QueueSource

/-- A queue source with its history: what its channel has accepted before the shutdown and
after it, and what its stream has emitted. -/
structure QueueHistory (P : Type) where
  source : QueueSource P
  early : List P := []
  late : List P := []
  emitted : List P := []
  deriving DecidableEq, Repr

/-- What can happen on the bus of a queue source. -/
inductive QueueEvent (P : Type) where
  | publish (topic : String) (payload : P)
  /-- Another subscriber comes. -/
  | subscribe (topic : String)
  /-- Another subscriber receives. -/
  | recv (topic : String) (index : Nat)
  | poll (first : SelectBranch)
  | stop
  deriving DecidableEq, Repr

namespace QueueHistory

section Definitions

variable {P : Type}

/-- The start of a run. -/
def start (topic : String) (bus : InProcessBus P) : QueueHistory P where
  source := .new topic bus

/-- The payloads that the channel of a source accepts when one is published. -/
def taken (topic : String) (payload : P) (source : QueueSource P) : List P :=
  if topic = source.topic && source.channel.accepts source.bus.capacity then [payload] else []

/-- The history after an event, if the event can happen. -/
def step (event : QueueEvent P) (history : QueueHistory P) : Option (QueueHistory P) :=
  let source := history.source
  match event with
  | .publish topic payload =>
      let published := { source with bus := source.bus.publish topic payload }
      let taken := taken topic payload source
      if source.shutdown then
        some { history with source := published, late := history.late ++ taken }
      else some { history with source := published, early := history.early ++ taken }
  | .subscribe topic =>
      some { history with source := { source with bus := source.bus.subscribe topic } }
  | .recv topic index =>
      if topic = source.topic ∧ index = source.index then none
      else do
        let (_, bus) ← source.bus.recv topic index
        return { history with source := { source with bus := bus } }
  | .poll first =>
      if source.ended then none
      else
        let (polled, source) := source.poll first
        some { history with source := source, emitted := history.emitted ++ polled.emitted }
  | .stop => some { history with source := source.stop }

/-- An event, with the history before it. -/
structure Moment (P : Type) where
  before : QueueHistory P
  event : QueueEvent P

/-- A run of a queue source, with the moments of its events. -/
inductive Run (first : QueueHistory P) : List (Moment P) → QueueHistory P → Prop where
  | nil : Run first [] first
  | snoc {moments : List (Moment P)} {history next : QueueHistory P} {event : QueueEvent P}
      (run : Run first moments history) (stepped : history.step event = some next) :
      Run first (moments ++ [⟨history, event⟩]) next

/-- When its stream has ended, what the source had accepted before the shutdown has been
emitted, in its order. -/
def Drained (history : QueueHistory P) : Prop :=
  history.source.ended = true → history.early <+: history.emitted

/-- A poll that takes the shutdown branch finds in the channel only what was accepted after
the shutdown. -/
def Moment.Sparing (moment : Moment P) : Prop :=
  moment.event = .poll .shutdown → moment.before.source.shutdown = true →
    moment.before.source.channel.queue.length ≤ moment.before.late.length

end Definitions

section Channels

variable {P : Type} {source : QueueSource P} {next : InProcessBus P}

/-- A source has its channel. -/
def Subscribed (source : QueueSource P) : Prop :=
  (source.bus.channels source.topic)[source.index]? = some source.channel

theorem subscribed_of_found (source : QueueSource P) {channel : Channel P}
    (found : (source.bus.channels source.topic)[source.index]? = some channel) :
    Subscribed source ∧ source.channel = channel := by
  have here : source.channel = channel := by
    unfold QueueSource.channel
    rw [found]
    rfl
  exact ⟨by rw [Subscribed, found, here], here⟩

/-- A publish appends what the channel accepts. -/
theorem channel_publish (subscribed : Subscribed source) (topic : String) (payload : P) :
    Subscribed { source with bus := source.bus.publish topic payload } ∧
      ({ source with bus := source.bus.publish topic payload } : QueueSource P).channel.queue =
        source.channel.queue ++ taken topic payload source := by
  have published := InProcessBus.channels_publish topic source.topic payload source.bus
  by_cases here : topic = source.topic
  · rw [if_pos here] at published
    obtain ⟨held, same⟩ := subscribed_of_found
      { source with bus := source.bus.publish topic payload }
      (by rw [published, List.getElem?_map, subscribed, Option.map_some])
    refine ⟨held, ?_⟩
    rw [same]
    unfold taken Channel.trySend
    rw [decide_eq_true here, Bool.true_and]
    split
    · rfl
    · exact (List.append_nil _).symm
  · rw [if_neg here] at published
    obtain ⟨held, same⟩ := subscribed_of_found
      { source with bus := source.bus.publish topic payload }
      (by rw [published, subscribed])
    refine ⟨held, ?_⟩
    rw [same]
    unfold taken
    rw [decide_eq_false here, Bool.false_and, if_neg Bool.false_ne_true, List.append_nil]

/-- Another subscriber leaves the channel. -/
theorem channel_subscribe (subscribed : Subscribed source) (topic : String) :
    Subscribed { source with bus := source.bus.subscribe topic } ∧
      ({ source with bus := source.bus.subscribe topic } : QueueSource P).channel =
        source.channel := by
  apply subscribed_of_found
  dsimp only
  rw [InProcessBus.channels_subscribe]
  split
  · rw [List.getElem?_append_left (List.getElem?_eq_some_iff.mp subscribed).1, subscribed]
  · exact subscribed

/-- A receive by another subscriber leaves the channel. -/
theorem channel_recv_other (subscribed : Subscribed source) {topic : String} {index : Nat}
    {payload : P} (other : ¬(topic = source.topic ∧ index = source.index))
    (received : source.bus.recv topic index = some (payload, next)) :
    Subscribed { source with bus := next } ∧
      ({ source with bus := next } : QueueSource P).channel = source.channel := by
  obtain ⟨channel, rest, -, -, after⟩ := InProcessBus.channels_recv received
  apply subscribed_of_found
  dsimp only
  rw [after]
  split
  · next here =>
      rw [List.getElem?_set_ne fun same => other ⟨here, same⟩, subscribed]
  · exact subscribed

/-- A receive by the source takes the oldest payload. -/
theorem channel_recv (subscribed : Subscribed source) {payload : P}
    (received : source.bus.recv source.topic source.index = some (payload, next)) :
    Subscribed { source with bus := next } ∧
      source.channel.queue =
        payload :: ({ source with bus := next } : QueueSource P).channel.queue := by
  obtain ⟨channel, rest, found, queue, after⟩ := InProcessBus.channels_recv received
  obtain rfl := Option.some.inj (subscribed.symm.trans found)
  obtain ⟨held, same⟩ := subscribed_of_found { source with bus := next }
    (by rw [after, if_pos rfl, List.getElem?_set_self (List.getElem?_eq_some_iff.mp found).1])
  exact ⟨held, by rw [queue, same]⟩

/-- A poll emits, ends the stream, or waits. -/
theorem poll_cases (first : SelectBranch) (source : QueueSource P) :
    (∃ payload next, source.bus.recv source.topic source.index = some (payload, next) ∧
        (first = .shutdown → source.shutdown = false) ∧
        source.poll first = (.item payload, { source with bus := next })) ∨
      (source.shutdown = true ∧
        (first = .item → source.bus.recv source.topic source.index = none) ∧
        source.poll first = (.done, { source with ended := true })) ∨
      (source.shutdown = false ∧ source.poll first = (.pending, source)) := by
  unfold QueueSource.poll
  cases received : source.bus.recv source.topic source.index with
  | none => cases signalled : source.shutdown <;> cases first <;> simp
  | some taken => cases signalled : source.shutdown <;> cases first <;> simp

end Channels

section Conservation

variable {P : Type} {history next : QueueHistory P} {event : QueueEvent P}

/-- What the channel has accepted is emitted or still there. -/
structure Conserves (history : QueueHistory P) : Prop where
  subscribed : Subscribed history.source
  kept : history.early ++ history.late = history.emitted ++ history.source.channel.queue
  unsignalled : history.source.shutdown = false → history.late = []
  signalled : history.source.ended = true → history.source.shutdown = true

theorem conserves_start (topic : String) (bus : InProcessBus P) :
    Conserves (start topic bus) := by
  have here : ((bus.subscribe topic).channels topic)[(bus.channels topic).length]? =
      some {} := by
    rw [InProcessBus.channels_subscribe, if_pos rfl, List.getElem?_concat_length]
  obtain ⟨subscribed, same⟩ := subscribed_of_found (.new topic bus) here
  exact ⟨subscribed, by rw [start, same], fun _ => rfl, nofun⟩

/-- Every event conserves payloads. -/
theorem conserves_step (conserves : history.Conserves)
    (stepped : history.step event = some next) : next.Conserves := by
  obtain ⟨subscribed, kept, unsignalled, signalled⟩ := conserves
  cases event with
  | publish topic payload =>
      obtain ⟨held, queue⟩ := channel_publish subscribed topic payload
      simp only [step] at stepped
      split at stepped
      · next raised =>
          cases stepped
          refine ⟨held, ?_, fun lowered => ?_, signalled⟩
          · rw [queue, ← List.append_assoc, kept, List.append_assoc]
          · exact absurd (raised.symm.trans lowered) Bool.noConfusion
      · next lowered =>
          cases stepped
          have none_late := unsignalled (Bool.eq_false_iff.mpr lowered)
          refine ⟨held, ?_, fun _ => none_late, signalled⟩
          rw [none_late, List.append_nil] at kept
          dsimp only
          rw [queue, none_late, List.append_nil, kept, List.append_assoc]
  | subscribe topic =>
      cases stepped
      obtain ⟨held, same⟩ := channel_subscribe subscribed topic
      exact ⟨held, by rw [same]; exact kept, unsignalled, signalled⟩
  | recv topic index =>
      simp only [step] at stepped
      split at stepped
      · cases stepped
      · next other =>
          obtain ⟨⟨payload, bus⟩, received, same⟩ := Option.bind_eq_some_iff.mp stepped
          cases same
          obtain ⟨held, same⟩ := channel_recv_other subscribed other received
          exact ⟨held, by rw [same]; exact kept, unsignalled, signalled⟩
  | poll first =>
      simp only [step] at stepped
      split at stepped
      · cases stepped
      · cases stepped
        rcases poll_cases first history.source with
          ⟨payload, bus, received, -, polled⟩ | ⟨raised, -, polled⟩ | ⟨-, polled⟩
        · obtain ⟨held, queue⟩ := channel_recv subscribed received
          rw [polled]
          refine ⟨held, ?_, unsignalled, signalled⟩
          rw [kept, queue, Polled.emitted, List.append_assoc]
          rfl
        · rw [polled]
          refine ⟨subscribed, ?_, unsignalled, fun _ => raised⟩
          rw [kept, Polled.emitted, List.append_nil]
          rfl
        · rw [polled]
          refine ⟨subscribed, ?_, unsignalled, signalled⟩
          rw [kept, Polled.emitted, List.append_nil]
  | stop =>
      cases stepped
      exact ⟨subscribed, kept, nofun, fun _ => rfl⟩

end Conservation

section Shutdown

variable {P : Type} {first history next last : QueueHistory P} {moments : List (Moment P)}
  {event : QueueEvent P} {topic : String} {bus : InProcessBus P}

theorem Run.conserves (run : Run (start topic bus) moments last) : last.Conserves := by
  induction run with
  | nil => exact conserves_start topic bus
  | snoc run stepped ih => exact conserves_step ih stepped

/-- The early payloads are emitted just in case only late ones are left. -/
theorem Conserves.prefix_iff (conserves : history.Conserves) :
    history.early <+: history.emitted ↔
      history.source.channel.queue.length ≤ history.late.length := by
  have counted := congrArg List.length conserves.kept
  rw [List.length_append, List.length_append] at counted
  constructor
  · intro inside
    have shorter := inside.length_le
    omega
  · intro fewer
    apply List.prefix_of_prefix_length_le ⟨history.late, conserves.kept⟩
      (List.prefix_append _ _)
    omega

/-- The poll that ends a stream decides whether it has drained. -/
theorem drained_poll (conserves : history.Conserves) (branch : SelectBranch)
    (stepped : history.step (.poll branch) = some next) :
    next.Drained ↔ Moment.Sparing ⟨history, .poll branch⟩ := by
  unfold Drained Moment.Sparing
  rw [← conserves.prefix_iff]
  simp only [step] at stepped
  split at stepped
  · cases stepped
  · next running =>
      cases stepped
      rcases poll_cases branch history.source with
        ⟨payload, bus, -, unready, polled⟩ | ⟨raised, empty, polled⟩ | ⟨lowered, polled⟩
      · rw [polled]
        refine iff_of_true (fun ended => absurd ended running) ?_
        intro same raised
        cases same
        exact absurd ((unready rfl).symm.trans raised) Bool.noConfusion
      · rw [polled, Polled.emitted, List.append_nil]
        refine ⟨fun drained _ _ => drained rfl, fun sparing _ => ?_⟩
        cases branch with
        | shutdown => exact sparing rfl raised
        | item =>
            rw [conserves.prefix_iff, InProcessBus.recv_eq_none (empty rfl) conserves.subscribed]
            exact Nat.zero_le _
      · rw [polled]
        refine iff_of_true (fun ended => absurd ended running) ?_
        intro _ raised
        exact absurd (lowered.symm.trans raised) Bool.noConfusion

/-- The other events change nothing of an ended stream. -/
theorem drained_quiet (conserves : history.Conserves)
    (stepped : history.step event = some next) (quiet : ∀ branch, event ≠ .poll branch) :
    next.Drained ↔ history.Drained := by
  unfold Drained
  cases event with
  | publish topic payload =>
      simp only [step] at stepped
      split at stepped
      · cases stepped
        rfl
      · next lowered =>
          cases stepped
          have running (ended : history.source.ended = true) : False :=
            lowered (conserves.signalled ended)
          exact iff_of_true (fun ended => (running ended).elim) fun ended => (running ended).elim
  | subscribe topic =>
      cases stepped
      rfl
  | recv topic index =>
      simp only [step] at stepped
      split at stepped
      · cases stepped
      · obtain ⟨taken, -, same⟩ := Option.bind_eq_some_iff.mp stepped
        cases same
        rfl
  | poll branch => exact absurd rfl (quiet branch)
  | stop =>
      cases stepped
      rfl

/-- **A shutdown drains a queue source just in case no poll takes the shutdown branch while
its channel holds what was accepted before the shutdown.** -/
theorem stream_drained_iff (run : Run (start topic bus) moments last) :
    last.Drained ↔ ∀ moment ∈ moments, moment.Sparing := by
  induction run with
  | nil => exact iff_of_true nofun nofun
  | @snoc moments history next event run stepped ih =>
      rw [List.forall_mem_append, List.forall_mem_singleton]
      by_cases polls : ∃ branch, event = .poll branch
      · obtain ⟨branch, rfl⟩ := polls
        have running : history.Drained := by
          intro ended
          simp only [step, ended, if_true] at stepped
          cases stepped
        rw [drained_poll run.conserves branch stepped]
        exact ⟨fun sparing => ⟨ih.mp running, sparing⟩, And.right⟩
      · rw [drained_quiet run.conserves stepped fun branch same => polls ⟨branch, same⟩, ih]
        exact ⟨fun sparing => ⟨sparing, fun same => absurd ⟨_, same⟩ polls⟩, And.left⟩

/-- Plays events in turn; nothing when one of them cannot happen. -/
def play (history : QueueHistory P) :
    List (QueueEvent P) → Option (List (Moment P) × QueueHistory P)
  | [] => some ([], history)
  | event :: rest => do
      let next ← history.step event
      let (moments, last) ← play next rest
      return (⟨history, event⟩ :: moments, last)

/-- Playing events after a run extends the run. -/
theorem Run.play {events : List (QueueEvent P)} {later : List (Moment P)}
    (run : Run first moments history) (played : history.play events = some (later, last)) :
    Run first (moments ++ later) last :=
  Transition.extend_of_play (fun _ => rfl) (fun _ _ _ => rfl) Run.snoc run played

end Shutdown

end QueueHistory

namespace Sample

open QueueHistory

/-- A queue source on a new bus. -/
def orders : QueueHistory String := .start "orders" (.new 16)

/-- **The stream ends while the channel holds a payload accepted before the shutdown.** -/
theorem orders_lost : ∃ moments last, Run orders moments last ∧
    moments.map (·.event) = [.publish "orders" "a", .stop, .poll .shutdown] ∧
    last.source.ended = true ∧ last.early = ["a"] ∧ last.emitted = [] ∧ ¬last.Drained := by
  have played : orders.play [.publish "orders" "a", .stop, .poll .shutdown] = some (_, _) := rfl
  refine ⟨_, _, Run.nil.play played, rfl, rfl, rfl, rfl, fun drained => ?_⟩
  exact absurd (drained rfl) (by decide)

/-- A stream that looks at its channel first drains it. -/
theorem orders_drained : ∃ moments last, Run orders moments last ∧
    last.source.ended = true ∧ last.Drained := by
  have played : orders.play [.publish "orders" "a", .stop, .poll .item, .poll .shutdown] =
    some (_, _) := rfl
  refine ⟨_, _, Run.nil.play played, rfl, (stream_drained_iff (Run.nil.play played)).mpr ?_⟩
  intro moment member polled raised
  simp only [List.nil_append, List.mem_cons, List.not_mem_nil, or_false] at member
  rcases member with rfl | rfl | rfl | rfl
  · cases polled
  · cases polled
  · cases polled
  · exact Nat.le_refl 0

end Sample

end Sohara
