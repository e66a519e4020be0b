import Sohara.Async.Trace
import Sohara.Plane.Relay

/-! # Safety of the relay mailboxes

Within one plane lifetime, publishes and pulls of any number of subscribers run in any
order. The messages delivered to a subscriber on a topic come in the order in which they
were published and never repeat, and a subscriber that asks for nothing beyond the cursor
last returned to it misses only what the mailbox has dropped.
-/

namespace Sohara

open Journal Async

/-- A call of the relay endpoints. -/
inductive RelayCall (P : Type) where
  | publish (topic : String) (payload : P)
  | pull (subscriber : String) (subscriptions : List (String × Nat))
  deriving DecidableEq, Repr

/-- A call, with the mailboxes on which it is made. -/
structure RelayStep (P : Type) where
  before : Mailboxes P
  call : RelayCall P

section Runs

variable {P : Type}

/-- The response to a call, and its effect. -/
def RelayCall.perform : RelayCall P → Mailboxes P → PullResponse P × Mailboxes P
  | .publish topic payload, inner => (⟨[], []⟩, inner.relayPublish topic payload)
  | .pull subscriber subscriptions, inner => inner.relayPull subscriber subscriptions

/-- The mailboxes after some calls. -/
def mailboxesAfter (inner : Mailboxes P) (calls : List (RelayCall P)) : Mailboxes P :=
  calls.foldl (fun inner call => (call.perform inner).2) inner

/-- The steps of some calls, each on the mailboxes that the earlier ones leave. -/
def relayHistory (inner : Mailboxes P) : List (RelayCall P) → List (RelayStep P)
  | [] => []
  | call :: rest => ⟨inner, call⟩ :: relayHistory (call.perform inner).2 rest

/-- The response to the call of a step. -/
def RelayStep.response (step : RelayStep P) : PullResponse P := (step.call.perform step.before).1

/-- Whether a call is a pull of a subscriber. -/
def RelayCall.isPullOf (subscriber : String) : RelayCall P → Bool
  | .publish _ _ => false
  | .pull other _ => other = subscriber

/-- The messages a step delivers to a subscriber on a topic. -/
def RelayStep.delivered (subscriber topic : String) (step : RelayStep P) :
    List (RelayMessage P) :=
  if step.call.isPullOf subscriber then
    step.response.messages.filter fun message => message.topic = topic
  else []

/-- The cursors a step returns to a subscriber on a topic. -/
def RelayStep.returned (subscriber topic : String) (step : RelayStep P) : List Nat :=
  if step.call.isPullOf subscriber then
    (step.response.next.filter fun next => next.topic = topic).map (·.after)
  else []

/-- The messages delivered to a subscriber on a topic, with the mailboxes they are taken
from. -/
def deliveries (subscriber topic : String) (steps : List (RelayStep P)) :
    List (RelayMessage P × Mailboxes P) :=
  steps.flatMap fun step => (step.delivered subscriber topic).map fun message =>
    (message, step.before)

/-- The cursor last returned to a subscriber on a topic. -/
def lastReturned (subscriber topic : String) (steps : List (RelayStep P)) : Nat :=
  (steps.flatMap (RelayStep.returned subscriber topic)).getLast?.getD 0

/-- The cursors with which a call of a subscriber asks for a topic. -/
def RelayCall.asks (subscriber topic : String) : RelayCall P → List Nat
  | .publish _ _ => []
  | .pull other subscriptions =>
      if other = subscriber then Mailboxes.asked topic subscriptions else []

/-- A subscriber asks for nothing beyond the cursor last returned to it. -/
def Trusting (subscriber topic : String) (steps : List (RelayStep P)) : Prop :=
  EachStep (fun before step => ∀ after ∈ step.call.asks subscriber topic,
    after ≤ lastReturned subscriber topic before) steps

/-- The payloads published to a topic. -/
def posted (calls : List (RelayCall P)) (topic : String) : List P :=
  calls.flatMap fun
    | .publish other payload => if other = topic then [payload] else []
    | .pull _ _ => []

/-- A message that has been published and dropped by the overflow of its mailbox. -/
structure Mailboxes.Evicted (inner : Mailboxes P) (topic : String) (seq : Nat) : Prop where
  positive : 0 < seq
  overflow : seq + relayCap ≤ inner.published topic
  absent : ∀ payload, (seq, payload) ∉ inner.retained topic

variable {inner : Mailboxes P} {log : String → List P} {calls : List (RelayCall P)}
  {call : RelayCall P} {subscriber topic : String} {steps : List (RelayStep P)}
  {step : RelayStep P}

theorem mailboxesAfter_snoc : mailboxesAfter inner (calls ++ [call]) =
    (call.perform (mailboxesAfter inner calls)).2 :=
  List.foldl_concat ..

theorem relayHistory_snoc : relayHistory inner (calls ++ [call]) =
    relayHistory inner calls ++ [⟨mailboxesAfter inner calls, call⟩] := by
  induction calls generalizing inner with
  | nil => rfl
  | cons first rest ih =>
      rw [List.cons_append]
      unfold relayHistory
      rw [ih]
      rfl

theorem posted_snoc : posted (calls ++ [call]) topic = posted calls topic ++ posted [call] topic :=
  List.flatMap_append ..

theorem deliveries_snoc : deliveries subscriber topic (steps ++ [step]) =
    deliveries subscriber topic steps ++
      (step.delivered subscriber topic).map fun message => (message, step.before) := by
  unfold deliveries
  rw [List.flatMap_append, List.flatMap_singleton]

theorem lastReturned_snoc : lastReturned subscriber topic (steps ++ [step]) =
    ((step.returned subscriber topic).getLast?).getD (lastReturned subscriber topic steps) := by
  unfold lastReturned
  rw [List.flatMap_append, List.flatMap_singleton, List.getLast?_append]
  cases (step.returned subscriber topic).getLast? <;> rfl

/-- What a call does to a subscriber on a topic: the visits it asks for. -/
structure Serves (log : String → List P) (step : RelayStep P) (subscriber topic : String) :
    Prop where
  delivered : step.delivered subscriber topic =
    (visits relayCap relayBatch (log topic) (step.before.floor subscriber topic)
      (step.call.asks subscriber topic)).1.map (Mailboxes.message topic)
  floor : (step.call.perform step.before).2.floor subscriber topic =
    (visits relayCap relayBatch (log topic) (step.before.floor subscriber topic)
      (step.call.asks subscriber topic)).2
  returned : (step.returned subscriber topic).getLast? =
    if log topic = [] ∨ step.call.asks subscriber topic = [] then none
    else some ((step.call.perform step.before).2.floor subscriber topic)

theorem serves (holds : Mailboxes.Holds log inner) (call : RelayCall P)
    (subscriber topic : String) : Serves log ⟨inner, call⟩ subscriber topic := by
  cases call with
  | publish on payload => exact ⟨rfl, rfl, (if_pos (.inr rfl)).symm⟩
  | pull other subscriptions =>
      have pulls := holds.relayPull other subscriptions
      by_cases own : other = subscriber
      · subst own
        refine ⟨?_, ?_, ?_⟩
        · simp only [RelayStep.delivered, RelayCall.isPullOf, RelayCall.asks, decide_true, if_true]
          exact pulls.messages topic
        · simp only [RelayCall.asks, if_true]
          exact (pulls.floor other topic).trans (if_pos rfl)
        · simp only [RelayStep.returned, RelayCall.isPullOf, RelayCall.asks, decide_true, if_true,
            List.getLast?_map]
          exact pulls.next topic
      · refine ⟨?_, ?_, ?_⟩
        · simp only [RelayStep.delivered, RelayCall.isPullOf, RelayCall.asks, own, decide_false,
            if_false, visits]
          rfl
        · simp only [RelayCall.asks, own, if_false, visits]
          exact (pulls.floor subscriber topic).trans (if_neg (Ne.symm own))
        · simp only [RelayStep.returned, RelayCall.isPullOf, RelayCall.asks, own, decide_false,
            if_false, or_true, if_true]
          rfl

/-- A call leaves the mailboxes of the extended logs. -/
theorem holds_perform (holds : Mailboxes.Holds log inner) (call : RelayCall P) :
    Mailboxes.Holds (fun topic => log topic ++ posted [call] topic) (call.perform inner).2 := by
  cases call with
  | publish on payload =>
      have extended := holds.relayPublish on payload
      rwa [show (fun topic => log topic ++ posted [RelayCall.publish on payload] topic) =
        Function.update log on (log on ++ [payload]) from ?_]
      funext topic
      by_cases same : topic = on
      · subst same
        simp [posted]
      · rw [Function.update_of_ne same]
        simp [posted, Ne.symm same]
  | pull other subscriptions =>
      simp only [posted, List.flatMap_cons, List.flatMap_nil, List.append_nil]
      exact (holds.relayPull other subscriptions).holds

theorem Mailboxes.Holds.evicted (holds : Mailboxes.Holds log inner) {seq : Nat}
    (positive : 0 < seq) (overflow : seq + relayCap ≤ (log topic).length) :
    inner.Evicted topic seq where
  positive := positive
  overflow := by rwa [holds.published_eq]
  absent payload retained := by
    rw [holds.retained_eq] at retained
    have newer := (mem_window.mp retained).1
    omega

/-- What a subscriber has seen of a topic: the numbered payloads delivered to it. -/
def seen (subscriber topic : String) (steps : List (RelayStep P)) : List (Nat × P) :=
  (deliveries subscriber topic steps).map fun delivery => (delivery.1.seq, delivery.1.payload)

theorem seen_snoc (serves : Serves log step subscriber topic) :
    seen subscriber topic (steps ++ [step]) = seen subscriber topic steps ++
      (visits relayCap relayBatch (log topic) (step.before.floor subscriber topic)
        (step.call.asks subscriber topic)).1 := by
  unfold seen
  rw [deliveries_snoc, List.map_append, serves.delivered, List.map_map, List.map_map]
  exact congrArg _ (List.map_id _)

/-- Every message delivered on a topic names it. -/
theorem topic_of_delivered {message : RelayMessage P}
    (delivered : message ∈ step.delivered subscriber topic) : message.topic = topic := by
  unfold RelayStep.delivered at delivered
  split at delivered
  · exact of_decide_eq_true (List.mem_filter.mp delivered).2
  · cases delivered

/-- The mailboxes hold what has been published, and a subscriber has seen some of it in
order. -/
theorem tracked (calls : List (RelayCall P)) (subscriber topic : String) :
    Mailboxes.Holds (posted calls) (mailboxesAfter {} calls) ∧
      Follows (posted calls topic) ((mailboxesAfter {} calls).floor subscriber topic)
        (seen subscriber topic (relayHistory {} calls)) := by
  induction calls using List.reverseRecOn with
  | nil => exact ⟨Mailboxes.holds_empty, .nil⟩
  | append_singleton calls call ih =>
      obtain ⟨holds, follows⟩ := ih
      have served := serves holds call subscriber topic
      rw [relayHistory_snoc, mailboxesAfter_snoc]
      constructor
      · have extended := holds_perform holds call
        rwa [show posted (calls ++ [call]) = fun topic => posted calls topic ++ posted [call] topic
          from funext fun topic => posted_snoc]
      · rw [seen_snoc served, posted_snoc, served.floor]
        exact (follows.visits ..).append _

/-- A trusting subscriber has passed over nothing that was still retained, neither so far
nor at any of its deliveries. -/
structure Attentive (subscriber topic : String) (calls : List (RelayCall P)) : Prop where
  floor : (mailboxesAfter {} calls).floor subscriber topic =
    lastReturned subscriber topic (relayHistory {} calls)
  covers : Covers relayCap 0 (posted calls topic)
    ((mailboxesAfter {} calls).floor subscriber topic)
    (seen subscriber topic (relayHistory {} calls))
  missed : ∀ delivery ∈ deliveries subscriber topic (relayHistory {} calls),
    ∀ seq, 0 < seq → seq < delivery.1.seq →
      seq ∈ (seen subscriber topic (relayHistory {} calls)).map Prod.fst ∨
        delivery.2.Evicted topic seq

theorem attentive (calls : List (RelayCall P)) (subscriber topic : String)
    (trusting : Trusting subscriber topic (relayHistory {} calls)) :
    Attentive subscriber topic calls := by
  induction calls using List.reverseRecOn with
  | nil => exact ⟨rfl, .base, by simp [relayHistory, deliveries]⟩
  | append_singleton calls call ih =>
      rw [relayHistory_snoc] at trusting
      obtain ⟨earlier, now⟩ := eachStep_snoc.mp trusting
      obtain ⟨floor, covers, missed⟩ := ih earlier
      obtain ⟨holds, follows⟩ := tracked calls subscriber topic
      have served := serves holds call subscriber topic
      have within : ∀ after ∈ call.asks subscriber topic,
          after ≤ (mailboxesAfter {} calls).floor subscriber topic := by
        rw [floor]
        exact now
      have covered := covers.visits relayBatch within
      have followed := follows.visits relayCap relayBatch (call.asks subscriber topic)
      refine ⟨?_, ?_, ?_⟩
      · rw [relayHistory_snoc, mailboxesAfter_snoc, lastReturned_snoc, served.returned]
        split
        · next quiet =>
            rw [Option.getD_none, ← floor, served.floor]
            rcases quiet with empty | silent
            · rw [empty, visits_nil]
            · dsimp only at silent ⊢
              rw [silent]
              rfl
        · rfl
      · rw [relayHistory_snoc, mailboxesAfter_snoc, seen_snoc served, posted_snoc, served.floor]
        exact covered.append _
      · rw [relayHistory_snoc, seen_snoc served, deliveries_snoc]
        intro delivery member seq positive below
        rcases List.mem_append.mp member with old | new
        · rcases missed delivery old seq positive below with found | evicted
          · left
            rw [List.map_append]
            exact List.mem_append_left _ found
          · exact .inr evicted
        · obtain ⟨message, delivered, rfl⟩ := List.mem_map.mp new
          rw [served.delivered] at delivered
          obtain ⟨entry, handed, rfl⟩ := List.mem_map.mp delivered
          have bound := followed.within entry (List.mem_append_right _ handed)
          rcases covered.covered seq positive
            (Nat.le_of_lt (Nat.lt_of_lt_of_le below bound)) with found | overflow
          · exact .inl found
          · exact .inr (holds.evicted positive overflow)

/-- Every step of a history is made on the mailboxes of some logs. -/
theorem holds_of_mem_relayHistory {calls : List (RelayCall P)} {step : RelayStep P}
    (member : step ∈ relayHistory {} calls) : ∃ log, Mailboxes.Holds log step.before := by
  induction calls using List.reverseRecOn with
  | nil => cases member
  | append_singleton calls call ih =>
      rw [relayHistory_snoc] at member
      rcases List.mem_append.mp member with earlier | last
      · exact ih earlier
      · obtain rfl := List.mem_singleton.mp last
        exact ⟨_, (tracked calls "" "").1⟩

theorem topic_of_delivery {delivery : RelayMessage P × Mailboxes P}
    (member : delivery ∈ deliveries subscriber topic steps) : delivery.1.topic = topic := by
  obtain ⟨step, -, inside⟩ := List.mem_flatMap.mp member
  obtain ⟨message, delivered, rfl⟩ := List.mem_map.mp inside
  exact topic_of_delivered delivered

/-- Nothing lies between two consecutive elements of an increasing list. -/
theorem not_mem_between {entries earlier later : List (Nat × P)} {first second : Nat × P}
    (increasing : entries.Pairwise fun one other => one.1 < other.1)
    (split : entries = earlier ++ first :: second :: later) {number : Nat}
    (beyond : first.1 < number) (within : number < second.1) :
    number ∉ entries.map Prod.fst := by
  subst split
  obtain ⟨-, ordered, before⟩ := List.pairwise_append.mp increasing
  obtain ⟨-, ordered⟩ := List.pairwise_cons.mp ordered
  obtain ⟨after, -⟩ := List.pairwise_cons.mp ordered
  intro member
  obtain ⟨entry, listed, rfl⟩ := List.mem_map.mp member
  rcases List.mem_append.mp listed with early | listed
  · have := before entry early first List.mem_cons_self
    omega
  rcases List.mem_cons.mp listed with rfl | listed
  · omega
  rcases List.mem_cons.mp listed with rfl | late
  · omega
  · have := after entry late
    omega

/-- **Relay mailbox safety.** The messages delivered to a subscriber on a topic have
strictly increasing numbers and are published messages in their order; each subscription
of a pull is handed at most one batch; and between two consecutive messages delivered to
a subscriber that asks for nothing beyond the cursor last returned to it, everything had
been dropped by the overflow. -/
theorem relay_mailboxes_safe (calls : List (RelayCall P)) (subscriber topic : String) :
    ((deliveries subscriber topic (relayHistory {} calls)).map fun delivery =>
        delivery.1.seq).Pairwise (· < ·) ∧
      ((deliveries subscriber topic (relayHistory {} calls)).map Prod.fst).Sublist
        ((numbered (posted calls topic)).map (Mailboxes.message topic)) ∧
      (∀ step ∈ relayHistory {} calls, ∀ other subscriptions,
        step.call = .pull other subscriptions →
          ∃ batches, step.response.messages = batches.flatten ∧
            List.Forall₂ Mailboxes.Batch subscriptions batches) ∧
      (Trusting subscriber topic (relayHistory {} calls) →
        ∀ earlier first second later,
          deliveries subscriber topic (relayHistory {} calls) =
            earlier ++ first :: second :: later →
          ∀ seq, first.1.seq < seq → seq < second.1.seq → second.2.Evicted topic seq) := by
  obtain ⟨holds, follows⟩ := tracked calls subscriber topic
  refine ⟨?_, ?_, ?_, ?_⟩
  · have increasing := follows.increasing
    unfold seen at increasing
    rw [List.pairwise_map] at increasing ⊢
    exact increasing
  · have ordered := follows.sublist.map (Mailboxes.message topic)
    unfold seen at ordered
    rwa [List.map_map, List.map_congr_left fun delivery member => ?_] at ordered
    obtain ⟨⟨on, seq, payload⟩, inner⟩ := delivery
    obtain rfl := topic_of_delivery member
    rfl
  · intro step member other subscriptions pulling
    obtain ⟨log, held⟩ := holds_of_mem_relayHistory member
    unfold RelayStep.response
    rw [pulling]
    exact (held.relayPull other subscriptions).batches
  · intro trusting earlier first second later split seq beyond within
    have missed := (attentive calls subscriber topic trusting).missed second
      (by rw [split]; simp) seq (by omega) within
    apply missed.resolve_left
    have parted : seen subscriber topic (relayHistory {} calls) =
        earlier.map (fun delivery => (delivery.1.seq, delivery.1.payload)) ++
          (first.1.seq, first.1.payload) :: (second.1.seq, second.1.payload) ::
            later.map fun delivery => (delivery.1.seq, delivery.1.payload) := by
      unfold seen
      rw [split, List.map_append, List.map_cons, List.map_cons]
    exact not_mem_between follows.increasing parted beyond within

end Runs

end Sohara
