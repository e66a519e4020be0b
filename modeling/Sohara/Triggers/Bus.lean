import Sohara.Core.Value

/-! # The in-process event bus

A topic bus with one bounded channel for each subscriber. A publish offers its payload to
every channel of its topic; a full channel drops it, and a channel whose receiver is gone
ignores it. Payloads are only moved, so they are of any type.
-/

namespace Sohara

/-- A bounded channel: what it holds, and whether its receiver is gone. -/
structure Channel (P : Type) where
  queue : List P := []
  closed : Bool := false
  deriving DecidableEq, Repr

/-- A bus: the capacity of its channels, and the channels of the subscribers by topic. -/
structure InProcessBus (P : Type) where
  capacity : Nat
  topics : Assoc (List (Channel P)) := []
  deriving DecidableEq, Repr

namespace Channel

variable {P : Type}

/-- Whether a channel takes an offered payload. -/
def accepts (capacity : Nat) (channel : Channel P) : Bool :=
  !channel.closed && channel.queue.length < capacity

/-- Offers a payload to a channel without waiting. -/
def trySend (capacity : Nat) (payload : P) (channel : Channel P) : Channel P :=
  if channel.accepts capacity then { channel with queue := channel.queue ++ [payload] }
  else channel

/-- Takes the oldest payload. -/
def recv (channel : Channel P) : Option (P × Channel P) :=
  match channel.queue with
  | [] => none
  | payload :: rest => some (payload, { channel with queue := rest })

end Channel

namespace InProcessBus

variable {P : Type}

/-- A bus without subscribers. -/
def new (capacity : Nat) : InProcessBus P := ⟨max capacity 1, []⟩

/-- The channels of a topic. -/
def channels (bus : InProcessBus P) (topic : String) : List (Channel P) :=
  (bus.topics.get? topic).getD []

/-- Subscribes to a topic with a channel of its own. -/
def subscribe (topic : String) (bus : InProcessBus P) : InProcessBus P :=
  { bus with topics := bus.topics.insert topic (bus.channels topic ++ [{}]) }

/-- Offers a payload to every subscriber of a topic. -/
def publish (topic : String) (payload : P) (bus : InProcessBus P) : InProcessBus P :=
  match bus.topics.get? topic with
  | none => bus
  | some senders =>
      { bus with topics := bus.topics.insert topic (senders.map (·.trySend bus.capacity payload)) }

/-- Receives from one channel of a topic. -/
def recv (topic : String) (index : Nat) (bus : InProcessBus P) : Option (P × InProcessBus P) := do
  let channel ← (bus.channels topic)[index]?
  let (payload, rest) ← channel.recv
  return (payload, { bus with
    topics := bus.topics.insert topic ((bus.channels topic).set index rest) })

theorem channels_subscribe (on topic : String) (bus : InProcessBus P) :
    (bus.subscribe on).channels topic =
      if on = topic then bus.channels topic ++ [({} : Channel P)] else bus.channels topic := by
  unfold channels subscribe
  rw [Assoc.get?_insert]
  by_cases here : on = topic
  · subst here
    rw [if_pos rfl, if_pos rfl]
    rfl
  · rw [if_neg here, if_neg here]

theorem channels_publish (on topic : String) (payload : P) (bus : InProcessBus P) :
    (bus.publish on payload).channels topic =
      if on = topic then (bus.channels topic).map (·.trySend bus.capacity payload)
      else bus.channels topic := by
  unfold channels publish
  cases senders : bus.topics.get? on with
  | none =>
      by_cases here : on = topic
      · subst here
        rw [if_pos rfl]
        simp [senders]
      · rw [if_neg here]
  | some channels =>
      dsimp only
      rw [Assoc.get?_insert]
      by_cases here : on = topic
      · subst here
        rw [if_pos rfl, if_pos rfl, senders]
        rfl
      · rw [if_neg here, if_neg here]

/-- Receiving takes from one channel. -/
theorem channels_recv {on : String} {index : Nat} {payload : P} {bus next : InProcessBus P}
    (received : bus.recv on index = some (payload, next)) :
    ∃ channel rest, (bus.channels on)[index]? = some channel ∧
      channel.queue = payload :: rest ∧
      ∀ topic, next.channels topic =
        if on = topic then (bus.channels topic).set index { channel with queue := rest }
        else bus.channels topic := by
  unfold recv at received
  obtain ⟨channel, found, popping⟩ := Option.bind_eq_some_iff.mp received
  obtain ⟨⟨taken, remaining⟩, popped, same⟩ := Option.bind_eq_some_iff.mp popping
  cases same
  unfold Channel.recv at popped
  split at popped
  · cases popped
  · next head rest queue =>
      rw [Option.some.injEq, Prod.mk.injEq] at popped
      obtain ⟨rfl, rfl⟩ := popped
      refine ⟨channel, rest, found, queue, fun topic => ?_⟩
      unfold channels
      dsimp only
      rw [Assoc.get?_insert]
      by_cases here : on = topic
      · subst here
        rw [if_pos rfl, if_pos rfl]
        rfl
      · rw [if_neg here, if_neg here]

/-- A channel from which nothing is received is empty. -/
theorem recv_eq_none {on : String} {index : Nat} {bus : InProcessBus P}
    (silent : bus.recv on index = none) {channel : Channel P}
    (found : (bus.channels on)[index]? = some channel) : channel.queue = [] := by
  unfold recv at silent
  rw [found] at silent
  unfold Channel.recv at silent
  cases queue : channel.queue with
  | nil => rfl
  | cons payload rest => simp [queue] at silent

/-- The payloads that one channel of a topic takes when payloads are published in turn. -/
def accepted (topic : String) (index : Nat) : List (String × P) → InProcessBus P → List P
  | [], _ => []
  | (on, payload) :: rest, bus =>
      let taken := on = topic && ((bus.channels topic)[index]?).any (·.accepts bus.capacity)
      (if taken then [payload] else []) ++ accepted topic index rest (bus.publish on payload)

/-- A channel takes each offered payload of its topic at most once, in order. -/
theorem accepted_sublist (topic : String) (index : Nat) (offers : List (String × P))
    (bus : InProcessBus P) : (accepted topic index offers bus).Sublist
      ((offers.filter fun offer => offer.1 = topic).map Prod.snd) := by
  induction offers generalizing bus with
  | nil => exact .slnil
  | cons offer rest ih =>
      obtain ⟨on, payload⟩ := offer
      unfold accepted
      rw [List.filter_cons]
      by_cases here : on = topic
      · simp only [here, decide_true, Bool.true_and, if_true, List.map_cons]
        split
        · exact (ih _).cons_cons payload
        · exact (ih _).cons payload
      · simp only [here, decide_false, Bool.false_and, Bool.false_eq_true, if_false,
          List.nil_append]
        exact ih _

end InProcessBus

end Sohara
