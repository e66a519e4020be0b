import Sohara.Buffer.Journal
import Sohara.Core.Value
import Mathlib.Data.List.Forall2

/-! # The relay mailboxes of the plane

The plane keeps one bounded mailbox for each topic and, for each subscriber, a cursor on
every topic it has pulled. `relayPublish` appends to a mailbox, `relayPull` hands a
subscriber what is newer than its cursors. Both run under the registry lock.

The mailboxes refine numbered logs with bounded retention (`Holds`), and a pull visits
the log of a topic once for each subscription that lists the topic. Payloads are only
moved, so they are of any type.
-/

namespace Sohara

open Journal

/-- One relayed message. -/
structure RelayMessage (P : Type) where
  topic : String
  seq : Nat
  payload : P
  deriving DecidableEq, Repr

/-- One subscription cursor. -/
structure PullSubscription where
  topic : String
  after : Nat
  deriving DecidableEq, Repr

/-- The answer to a pull: the messages, and the cursors to continue from. -/
structure PullResponse (P : Type) where
  messages : List (RelayMessage P)
  next : List PullSubscription
  deriving DecidableEq, Repr

/-- The bounded message buffer of a topic. -/
structure RelayQueue (P : Type) where
  seq : Nat := 0
  buffer : List (Nat × P) := []
  deriving DecidableEq, Repr

/-- The number of messages retained for each topic. -/
def relayCap : Nat := 1000

theorem relayCap_pos : 0 < relayCap := by decide

/-- The number of messages handed out for each subscription of a pull. -/
def relayBatch : Nat := 100

theorem relayBatch_pos : 0 < relayBatch := by decide

/-- The relay part of the registry: the mailboxes by topic, and the cursors by subscriber
and topic. -/
structure Mailboxes (P : Type) where
  relay : Assoc (RelayQueue P) := []
  relayCursors : Assoc (Assoc Nat) := []
  deriving DecidableEq, Repr

namespace Mailboxes

section Definitions

variable {P : Type}

/-- Appends a message to the mailbox of a topic, dropping the oldest on overflow. -/
def relayPublish (topic : String) (payload : P) (inner : Mailboxes P) : Mailboxes P :=
  let queue := (inner.relay.get? topic).getD {}
  let seq := queue.seq + 1
  let buffer := queue.buffer ++ [(seq, payload)]
  let kept := if relayCap < buffer.length then buffer.tail else buffer
  { inner with relay := inner.relay.insert topic ⟨seq, kept⟩ }

/-- The cursor of a subscriber on a topic. -/
def floor (inner : Mailboxes P) (subscriber topic : String) : Nat :=
  ((inner.relayCursors.get? subscriber).bind fun cursors => cursors.get? topic).getD 0

/-- Stores the cursor of a subscriber on a topic. -/
def setCursor (subscriber topic : String) (cursor : Nat) (inner : Mailboxes P) : Mailboxes P :=
  let cursors := (inner.relayCursors.get? subscriber).getD []
  { inner with
    relayCursors := inner.relayCursors.insert subscriber (cursors.insert topic cursor) }

/-- The state of the delivery loop over one mailbox. -/
structure Delivery (P : Type) where
  messages : List (RelayMessage P)
  delivered : Nat
  cursor : Nat

/-- Delivers a message unless it is not newer than the cursor or the batch is full. -/
def deliver (topic : String) (state : Delivery P) (entry : Nat × P) : Delivery P :=
  if entry.1 ≤ state.cursor ∨ relayBatch ≤ state.delivered then state
  else ⟨state.messages ++ [⟨topic, entry.1, entry.2⟩], state.delivered + 1, entry.1⟩

/-- Serves one subscription of a pull; a topic without a mailbox is passed over. -/
def pullTopic (subscriber : String) (state : PullResponse P × Mailboxes P)
    (subscription : String × Nat) : PullResponse P × Mailboxes P :=
  let (response, inner) := state
  let (topic, after) := subscription
  match inner.relay.get? topic with
  | none => state
  | some queue =>
      let result := queue.buffer.foldl (deliver topic)
        ⟨response.messages, 0, max after (inner.floor subscriber topic)⟩
      (⟨result.messages, response.next ++ [⟨topic, result.cursor⟩]⟩,
        inner.setCursor subscriber topic result.cursor)

/-- Hands out the messages newer than each cursor and advances the cursors. -/
def relayPull (subscriber : String) (subscriptions : List (String × Nat))
    (inner : Mailboxes P) : PullResponse P × Mailboxes P :=
  subscriptions.foldl (pullTopic subscriber) (⟨[], []⟩, inner)

/-- What a mailbox retains. -/
def retained (inner : Mailboxes P) (topic : String) : List (Nat × P) :=
  ((inner.relay.get? topic).map (·.buffer)).getD []

/-- The number of messages published to a topic. -/
def published (inner : Mailboxes P) (topic : String) : Nat :=
  ((inner.relay.get? topic).map (·.seq)).getD 0

end Definitions

section Refinement

variable {P : Type} {inner : Mailboxes P} {log : String → List P}

/-- The mailboxes of the given logs: each retains the newest messages of its log. -/
def Holds (log : String → List P) (inner : Mailboxes P) : Prop :=
  ∀ topic, inner.relay.get? topic =
    if log topic = [] then none
    else some ⟨(log topic).length, window relayCap (log topic)⟩

/-- A numbered item of a topic as a message. -/
def message (topic : String) (entry : Nat × P) : RelayMessage P := ⟨topic, entry.1, entry.2⟩

/-- The cursors with which a subscription list asks for a topic. -/
def asked (topic : String) (subscriptions : List (String × Nat)) : List Nat :=
  (subscriptions.filter fun subscription => subscription.1 = topic).map Prod.snd

theorem holds_empty : Holds (fun _ => []) ({} : Mailboxes P) := fun _ => rfl

theorem Holds.published_eq (holds : Holds log inner) (topic : String) :
    inner.published topic = (log topic).length := by
  unfold published
  rw [holds topic]
  split
  · next empty => rw [empty, List.length_nil]; rfl
  · rw [Option.map_some, Option.getD_some]

theorem Holds.retained_eq (holds : Holds log inner) (topic : String) :
    inner.retained topic = window relayCap (log topic) := by
  unfold retained
  rw [holds topic]
  split
  · next empty => rw [empty, window_nil]; rfl
  · rw [Option.map_some, Option.getD_some]

theorem Holds.queue_eq (holds : Holds log inner) (topic : String) :
    (inner.relay.get? topic).getD {} =
      ⟨(log topic).length, window relayCap (log topic)⟩ := by
  rw [holds topic]
  split
  · next empty => rw [empty, window_nil]; rfl
  · rw [Option.getD_some]

/-- Publishing appends to the log of the topic. -/
theorem Holds.relayPublish (holds : Holds log inner) (topic : String) (payload : P) :
    Holds (Function.update log topic (log topic ++ [payload]))
      (inner.relayPublish topic payload) := by
  intro other
  unfold Mailboxes.relayPublish
  rw [holds.queue_eq topic]
  dsimp only
  rw [Assoc.get?_insert]
  by_cases same : topic = other
  · subst same
    have grown := @window_append_singleton P relayCap (log topic) payload relayCap_pos
    have here : Function.update log topic (log topic ++ [payload]) topic = log topic ++ [payload] :=
      Function.update_self ..
    have length : (log topic ++ [payload]).length = (log topic).length + 1 :=
      List.length_append
    have filled : log topic ++ [payload] ≠ [] := by simp
    simp only [here, if_true, if_neg filled, grown, length]
  · rw [if_neg same, Function.update_of_ne (Ne.symm same)]
    exact holds other

/-- The delivery loop takes the first messages above its cursor. -/
theorem foldl_deliver (topic : String) {entries : List (Nat × P)}
    (increasing : entries.Pairwise fun first second => first.1 < second.1)
    (state : Delivery P) :
    entries.foldl (deliver topic) state =
      let taken := (entries.filter fun entry => state.cursor < entry.1).take
        (relayBatch - state.delivered)
      ⟨state.messages ++ taken.map (message topic), state.delivered + taken.length,
        (taken.getLast?.map Prod.fst).getD state.cursor⟩ := by
  induction entries generalizing state with
  | nil => simp
  | cons entry rest ih =>
      obtain ⟨least, increasing⟩ := List.pairwise_cons.mp increasing
      rw [List.foldl_cons, ih increasing]
      unfold deliver
      by_cases old : entry.1 ≤ state.cursor
      · rw [if_pos (.inl old), List.filter_cons_of_neg (by simpa using old)]
      rw [List.filter_cons_of_pos (by simpa using old)]
      by_cases full : relayBatch ≤ state.delivered
      · rw [if_pos (.inr full), Nat.sub_eq_zero_of_le full, List.take_zero, List.take_zero]
      rw [if_neg (not_or.mpr ⟨old, full⟩)]
      have newer : ∀ bound, bound ≤ entry.1 →
          rest.filter (fun other => bound < other.1) = rest := fun bound below =>
        List.filter_eq_self.mpr fun other member =>
          decide_eq_true (Nat.lt_of_le_of_lt below (least other member))
      dsimp only
      rw [newer entry.1 (Nat.le_refl _), newer state.cursor (by omega),
        show relayBatch - state.delivered = relayBatch - (state.delivered + 1) + 1 by omega,
        List.take_succ_cons]
      simp only [List.map_cons, List.append_assoc, List.cons_append, List.nil_append,
        List.length_cons, List.getLast?_cons, Option.map_some, Option.getD_some]
      congr 1
      · omega
      · cases List.getLast? _ <;> rfl

/-- What one subscription of a pull does to the response. -/
def answer (response : PullResponse P) (topic : String) (visited : List (Nat × P) × Nat)
    (filled : Bool) : PullResponse P :=
  ⟨response.messages ++ visited.1.map (message topic),
    if filled then response.next ++ [⟨topic, visited.2⟩] else response.next⟩

/-- The delivery loop over a mailbox is a read of its log. -/
theorem foldl_deliver_window (topic : String) (log : List P) (messages : List (RelayMessage P))
    (cursor : Nat) :
    (window relayCap log).foldl (deliver topic) ⟨messages, 0, cursor⟩ =
      ⟨messages ++ (read relayCap relayBatch log cursor).map (message topic),
        (read relayCap relayBatch log cursor).length,
        advance relayCap relayBatch log cursor⟩ := by
  rw [foldl_deliver topic pairwise_window, ← getLast_read relayCap_pos relayBatch_pos]
  dsimp only
  rw [filter_window, Nat.sub_zero, Nat.zero_add]
  rfl

theorem floor_setCursor (subscriber topic other on : String) (cursor : Nat) :
    (inner.setCursor subscriber topic cursor).floor other on =
      if other = subscriber ∧ on = topic then cursor else inner.floor other on := by
  unfold floor setCursor
  dsimp only
  rw [Assoc.get?_insert]
  by_cases same : subscriber = other
  · subst same
    rw [if_pos rfl, Option.bind_some, Assoc.get?_insert]
    by_cases here : topic = on
    · subst here
      rw [if_pos rfl, if_pos ⟨rfl, rfl⟩, Option.getD_some]
    · rw [if_neg here, if_neg fun both => here both.2.symm]
      cases inner.relayCursors.get? subscriber <;> rfl
  · rw [if_neg same, if_neg fun both => same both.1.symm]

/-- Serving a subscription is a visit of the log of its topic. -/
theorem Holds.pullTopic (holds : Holds log inner) (subscriber topic : String) (after : Nat)
    (response : PullResponse P) :
    ∃ inner', pullTopic subscriber (response, inner) (topic, after) =
        (answer response topic
          (visit relayCap relayBatch (log topic) (inner.floor subscriber topic) after)
          (log topic ≠ []), inner') ∧
      Holds log inner' ∧
      ∀ other on, inner'.floor other on =
        if other = subscriber ∧ on = topic then
          (visit relayCap relayBatch (log topic) (inner.floor subscriber topic) after).2
        else inner.floor other on := by
  by_cases empty : log topic = []
  · have absent : inner.relay.get? topic = none := (holds topic).trans (if_pos empty)
    refine ⟨inner, ?_, holds, ?_⟩
    · unfold Mailboxes.pullTopic answer
      rw [empty, visit_nil]
      simp [absent]
    · intro other on
      rw [empty, visit_nil]
      split
      · next both => rw [both.1, both.2]
      · rfl
  · have present : inner.relay.get? topic =
        some ⟨(log topic).length, window relayCap (log topic)⟩ :=
      (holds topic).trans (if_neg empty)
    rw [visit_of_ne_nil empty]
    refine ⟨inner.setCursor subscriber topic
        (advance relayCap relayBatch (log topic) (max after (inner.floor subscriber topic))),
      ?_, holds, fun other on => floor_setCursor subscriber topic other on _⟩
    unfold Mailboxes.pullTopic answer
    simp only [present, foldl_deliver_window, ne_eq, empty, not_false_eq_true, decide_true,
      if_true]

/-- A batch of one subscription of a pull. -/
def Batch (subscription : String × Nat) (batch : List (RelayMessage P)) : Prop :=
  batch.length ≤ relayBatch ∧ ∀ message ∈ batch, message.topic = subscription.1

/-- What a pull answers and leaves behind: on each topic, the visits its subscriptions
make; the cursors of other subscribers stay. -/
structure Pulls (log : String → List P) (subscriber : String)
    (subscriptions : List (String × Nat)) (before : Mailboxes P) (response : PullResponse P)
    (after : Mailboxes P) : Prop where
  holds : Holds log after
  messages : ∀ topic, response.messages.filter (fun message => message.topic = topic) =
    (visits relayCap relayBatch (log topic) (before.floor subscriber topic)
      (asked topic subscriptions)).1.map (message topic)
  floor : ∀ other topic, after.floor other topic =
    if other = subscriber then
      (visits relayCap relayBatch (log topic) (before.floor subscriber topic)
        (asked topic subscriptions)).2
    else before.floor other topic
  next : ∀ topic, (response.next.filter fun next => next.topic = topic).getLast?.map (·.after) =
    if log topic = [] ∨ asked topic subscriptions = [] then none
    else some (after.floor subscriber topic)
  batches : ∃ batches, response.messages = batches.flatten ∧
    List.Forall₂ Batch subscriptions batches

theorem asked_append_singleton (topic on : String) (after : Nat)
    (subscriptions : List (String × Nat)) : asked topic (subscriptions ++ [(on, after)]) =
      asked topic subscriptions ++ if on = topic then [after] else [] := by
  unfold asked
  rw [List.filter_append, List.map_append]
  congr 1
  split
  · next same => simp [same]
  · next different => simp [different]

theorem filter_message (on topic : String) (entries : List (Nat × P)) :
    (entries.map (message on)).filter (fun message => message.topic = topic) =
      if on = topic then entries.map (message on) else [] := by
  split
  · next same =>
      rw [List.filter_eq_self]
      intro handed member
      obtain ⟨entry, -, rfl⟩ := List.mem_map.mp member
      exact decide_eq_true same
  · next different =>
      rw [List.filter_eq_nil_iff]
      intro handed member
      obtain ⟨entry, -, rfl⟩ := List.mem_map.mp member
      exact ne_true_of_eq_false (decide_eq_false different)

theorem messages_answer (response : PullResponse P) (on topic : String)
    (visited : List (Nat × P) × Nat) (filled : Bool) :
    (answer response on visited filled).messages.filter (fun message => message.topic = topic) =
      response.messages.filter (fun message => message.topic = topic) ++
        if on = topic then visited.1.map (message on) else [] := by
  unfold answer
  rw [List.filter_append, filter_message]

theorem next_answer (response : PullResponse P) (on topic : String)
    (visited : List (Nat × P) × Nat) (filled : Bool) :
    ((answer response on visited filled).next.filter fun next => next.topic = topic).getLast?.map
        (·.after) =
      if filled = true ∧ on = topic then some visited.2
      else (response.next.filter fun next => next.topic = topic).getLast?.map (·.after) := by
  unfold answer
  cases filled with
  | false => rfl
  | true =>
      by_cases same : on = topic
      · simp [same]
      · simp [same]

/-- **A pull refines visits of the logs.** -/
theorem Holds.relayPull (holds : Holds log inner) (subscriber : String)
    (subscriptions : List (String × Nat)) :
    Pulls log subscriber subscriptions inner (relayPull subscriber subscriptions inner).1
      (relayPull subscriber subscriptions inner).2 := by
  induction subscriptions using List.reverseRecOn with
  | nil =>
      refine ⟨holds, fun topic => rfl, fun other topic => ?_,
        fun topic => (if_pos (.inr rfl)).symm, [], rfl, .nil⟩
      split
      · next same => rw [same]; rfl
      · rfl
  | append_singleton subscriptions subscription ih =>
      obtain ⟨on, after⟩ := subscription
      unfold Mailboxes.relayPull at ih ⊢
      rw [List.foldl_append, List.foldl_cons, List.foldl_nil]
      generalize subscriptions.foldl (Mailboxes.pullTopic subscriber) (⟨[], []⟩, inner) =
        state at ih ⊢
      obtain ⟨response, middle⟩ := state
      obtain ⟨kept, messages, floor, next, batches, flat, sized⟩ := ih
      dsimp only at kept messages floor next flat ⊢
      obtain ⟨inner', served, kept', floor'⟩ := kept.pullTopic subscriber on after response
      have here := floor subscriber on
      rw [if_pos rfl] at here
      rw [here] at served floor'
      rw [served]
      refine ⟨kept', fun topic => ?_, fun other topic => ?_, fun topic => ?_, ?_⟩
      · rw [messages_answer, messages, asked_append_singleton]
        by_cases same : on = topic
        · subst same
          rw [if_pos rfl, if_pos rfl, visits_append_singleton, List.map_append]
        · rw [if_neg same, if_neg same, List.append_nil, List.append_nil]
      · rw [floor', floor, asked_append_singleton]
        by_cases same : on = topic
        · subst same
          by_cases own : other = subscriber
          · rw [if_pos ⟨own, rfl⟩, if_pos own, if_pos rfl, visits_append_singleton]
          · rw [if_neg fun both => own both.1, if_neg own, if_neg own]
        · rw [if_neg fun both => same both.2.symm, if_neg same, List.append_nil]
      · rw [next_answer, floor', asked_append_singleton, next topic]
        by_cases same : on = topic
        · subst same
          by_cases empty : log on = []
          · rw [if_neg (by simp [empty]), if_pos (.inl empty), if_pos (.inl empty)]
          · rw [if_pos (by simp [empty]), if_neg (by simp [empty]), if_pos ⟨rfl, rfl⟩]
        · have apart : ¬(subscriber = subscriber ∧ topic = on) := fun both => same both.2.symm
          rw [if_neg fun both => same both.2, if_neg same, List.append_nil, if_neg apart]
      · have batch : Batch (on, after) ((visit relayCap relayBatch (log on)
            (visits relayCap relayBatch (log on) (inner.floor subscriber on)
              (asked on subscriptions)).2 after).1.map (message on)) := by
          refine ⟨?_, fun handed member => ?_⟩
          · rw [List.length_map]
            exact length_visit_le
          · obtain ⟨entry, -, rfl⟩ := List.mem_map.mp member
            rfl
        refine ⟨batches ++ [_], ?_, List.rel_append sized (.cons batch .nil)⟩
        rw [List.flatten_append, ← flat, List.flatten_singleton]
        rfl

end Refinement

end Mailboxes

end Sohara
