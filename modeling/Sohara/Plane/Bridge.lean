import Sohara.Plane.RelaySafety
import Sohara.Triggers.Bus
import Mathlib.Logic.Function.Basic

/-! # Instances bridged to the plane

A `RelayBus` fans a publish out to the local bus and posts it to the plane; its pull loop
asks the plane for the topics of the instance and publishes what it gets on the local
bus. `Cluster` is a plane with any number of bridged instances, the posts on their way,
and the pulls in flight. Its events happen in any order.
-/

namespace Sohara

open Async

/-- The bridge of an instance, with the response of its pull in flight. -/
structure RelayBus (P : Type) where
  bus : InProcessBus P
  subscriber : String
  topics : List String
  cursors : Assoc Nat := []
  response : Option (PullResponse P) := none
  deriving DecidableEq, Repr

namespace RelayBus

variable {P : Type}

/-- A new bridge; without a subscriber id it takes a random one. -/
def spawn (uuid : String) (bus : InProcessBus P) (topics : List String)
    (subscriber : Option String) : RelayBus P :=
  { bus := bus, subscriber := subscriber.getD uuid, topics := topics }

/-- The cursor of the bridge on a topic. -/
def cursor (bridge : RelayBus P) (topic : String) : Nat := (bridge.cursors.get? topic).getD 0

/-- The subscriptions of a pull request. -/
def requestPull (bridge : RelayBus P) : List (String × Nat) :=
  bridge.topics.map fun topic => (topic, bridge.cursor topic)

/-- Publishes the messages of a response on the local bus and stores its cursors. -/
def applyResponse (response : PullResponse P) (bridge : RelayBus P) : RelayBus P :=
  { bridge with
    bus := response.messages.foldl (fun bus message => bus.publish message.topic message.payload)
      bridge.bus
    cursors := response.next.foldl (fun cursors next => cursors.insert next.topic next.after)
      bridge.cursors
    response := none }

/-- The messages of the response in flight. -/
def awaited (bridge : RelayBus P) : List (RelayMessage P) :=
  (bridge.response.map (·.messages)).getD []

/-- The cursor of the bridge on a topic once the response in flight is applied. -/
def settled (bridge : RelayBus P) (topic : String) : Nat :=
  match bridge.response with
  | none => bridge.cursor topic
  | some response => (bridge.applyResponse response).cursor topic

theorem cursor_applyResponse (response : PullResponse P) (bridge : RelayBus P) (topic : String) :
    (bridge.applyResponse response).cursor topic =
      ((response.next.filter fun next => next.topic = topic).getLast?.map (·.after)).getD
        (bridge.cursor topic) := by
  obtain ⟨messages, next⟩ := response
  unfold cursor applyResponse
  dsimp only
  induction next using List.reverseRecOn with
  | nil => rfl
  | append_singleton next last ih =>
      rw [List.foldl_append, List.foldl_cons, List.foldl_nil, Assoc.get?_insert]
      by_cases here : last.topic = topic
      · simp [here]
      · simp only [here, if_false, ih, List.filter_append, List.filter_cons, decide_false,
          Bool.false_eq_true, List.filter_nil, List.append_nil]

end RelayBus

/-- Publishes the payload of a request to a bus route into the mailbox of its topic, and
answers with a status and a text. -/
def busDispatch {P : Type} (topic : Option String) (payload : P) (plane : Mailboxes P) :
    (Nat × String) × Mailboxes P :=
  match topic with
  | none => ((400, "bus route needs a topic"), plane)
  | some topic => ((202, "accepted"), plane.relayPublish topic payload)

/-- A plane, the instances bridged to it, and the posts on their way. -/
structure Cluster (ι P : Type) where
  plane : Mailboxes P
  bridges : ι → RelayBus P
  posts : List (String × P)

/-- What can happen in a cluster. -/
inductive ClusterEvent (ι P : Type) where
  /-- An instance publishes a payload. -/
  | publish (instance_ : ι) (topic : String) (payload : P)
  /-- A post reaches the plane. -/
  | post (index : Nat)
  /-- A post is lost. -/
  | drop (index : Nat)
  /-- A request to a bus route arrives at the gateway. -/
  | gateway (topic : Option String) (payload : P)
  /-- The plane answers the pull of an instance. -/
  | pull (instance_ : ι)
  /-- The plane answers the pull of an instance, and the response is lost. -/
  | miss (instance_ : ι)
  /-- An instance receives the response of its pull. -/
  | apply (instance_ : ι)
  /-- A local subscriber receives a payload. -/
  | recv (instance_ : ι) (topic : String) (index : Nat)
  /-- The plane restarts. -/
  | restart
  deriving DecidableEq, Repr

namespace Cluster

section Definitions

variable {ι P : Type} [DecidableEq ι]

/-- Replaces the bridge of an instance. -/
def setBridge (instance_ : ι) (bridge : RelayBus P) (cluster : Cluster ι P) : Cluster ι P :=
  { cluster with bridges := Function.update cluster.bridges instance_ bridge }

/-- The plane's answer to a pull of an instance, and its effect. -/
def answer (instance_ : ι) (cluster : Cluster ι P) : PullResponse P × Mailboxes P :=
  let bridge := cluster.bridges instance_
  cluster.plane.relayPull bridge.subscriber bridge.requestPull

/-- The cluster after the plane's answer to a pull of an instance. -/
def asking (instance_ : ι) (cluster : Cluster ι P) : Cluster ι P :=
  let bridge := cluster.bridges instance_
  let (response, plane) := cluster.answer instance_
  { cluster.setBridge instance_ { bridge with response := some response } with plane := plane }

/-- The cluster after an event, if the event can happen. -/
def step (event : ClusterEvent ι P) (cluster : Cluster ι P) : Option (Cluster ι P) :=
  match event with
  | .publish instance_ topic payload =>
      let bridge := cluster.bridges instance_
      let bridged := cluster.setBridge instance_
        { bridge with bus := bridge.bus.publish topic payload }
      some { bridged with posts := cluster.posts ++ [(topic, payload)] }
  | .post index => do
      let (topic, payload) ← cluster.posts[index]?
      return { cluster with
        plane := cluster.plane.relayPublish topic payload
        posts := cluster.posts.eraseIdx index }
  | .drop index => do
      let _ ← cluster.posts[index]?
      return { cluster with posts := cluster.posts.eraseIdx index }
  | .gateway topic payload =>
      some { cluster with plane := (busDispatch topic payload cluster.plane).2 }
  | .pull instance_ =>
      match (cluster.bridges instance_).response with
      | some _ => none
      | none => some (cluster.asking instance_)
  | .miss instance_ =>
      match (cluster.bridges instance_).response with
      | some _ => none
      | none => some { cluster with plane := (cluster.answer instance_).2 }
  | .apply instance_ => do
      let bridge := cluster.bridges instance_
      let response ← bridge.response
      return cluster.setBridge instance_ (bridge.applyResponse response)
  | .recv instance_ topic index => do
      let bridge := cluster.bridges instance_
      let (_, bus) ← bridge.bus.recv topic index
      return cluster.setBridge instance_ { bridge with bus := bus }
  | .restart => some { cluster with plane := {} }

/-- An event, with the cluster in which it happens. -/
structure Moment (ι P : Type) where
  cluster : Cluster ι P
  event : ClusterEvent ι P

/-- A run, with the moments of its events. -/
inductive Run (first : Cluster ι P) : List (Moment ι P) → Cluster ι P → Prop where
  | nil : Run first [] first
  | snoc {moments : List (Moment ι P)} {cluster next : Cluster ι P}
      {event : ClusterEvent ι P} (run : Run first moments cluster)
      (stepped : cluster.step event = some next) :
      Run first (moments ++ [⟨cluster, event⟩]) next

/-- Plays events in turn; nothing when one of them cannot happen. -/
def play (cluster : Cluster ι P) :
    List (ClusterEvent ι P) → Option (List (Moment ι P) × Cluster ι P)
  | [] => some ([], cluster)
  | event :: rest => do
      let next ← cluster.step event
      let (moments, last) ← play next rest
      return (⟨cluster, event⟩ :: moments, last)

/-- The calls that an event makes on the plane. -/
def Moment.calls (moment : Moment ι P) : List (RelayCall P) :=
  match moment.event with
  | .post index => ((moment.cluster.posts[index]?).map fun post => .publish post.1 post.2).toList
  | .gateway (some topic) payload => [.publish topic payload]
  | .pull instance_ | .miss instance_ =>
      let bridge := moment.cluster.bridges instance_
      [.pull bridge.subscriber bridge.requestPull]
  | _ => []

/-- The messages that an event hands to a pull of an instance. -/
def Moment.fetched (instance_ : ι) (moment : Moment ι P) : List (RelayMessage P) :=
  match moment.event with
  | .pull other =>
      if other = instance_ then (moment.cluster.answer instance_).1.messages else []
  | _ => []

/-- The messages that an instance receives at an event. -/
def Moment.received (instance_ : ι) (moment : Moment ι P) : List (RelayMessage P) :=
  match moment.event with
  | .apply other => if other = instance_ then (moment.cluster.bridges instance_).awaited else []
  | _ => []

/-- The payloads that an event publishes on the local bus of an instance. -/
def Moment.offers (instance_ : ι) (moment : Moment ι P) : List (String × P) :=
  match moment.event with
  | .publish other topic payload => if other = instance_ then [(topic, payload)] else []
  | _ => (moment.received instance_).map fun message => (message.topic, message.payload)

/-- The payloads that a local subscriber of an instance is given at an event. -/
def Moment.delivered (instance_ : ι) (topic : String) (index : Nat) (moment : Moment ι P) :
    List P :=
  (moment.cluster.bridges instance_).bus.accepted topic index (moment.offers instance_)

/-- The payloads that are published at an event, by an instance or through the gateway. -/
def Moment.publishes (moment : Moment ι P) : List P :=
  match moment.event with
  | .publish _ _ payload | .gateway (some _) payload => [payload]
  | _ => []

end Definitions

section Steps

variable {ι P : Type} [DecidableEq ι] {cluster next : Cluster ι P} {event : ClusterEvent ι P}

/-- What an event does to the bridge of an instance: a pull in flight is begun or ended,
and nothing else touches its cursors. -/
inductive BridgeStep (cluster : Cluster ι P) (instance_ : ι) :
    ClusterEvent ι P → RelayBus P → Prop where
  | pull (idle : (cluster.bridges instance_).response = none) :
      BridgeStep cluster instance_ (.pull instance_)
        { cluster.bridges instance_ with response := some (cluster.answer instance_).1 }
  | apply (response : PullResponse P)
      (awaited : (cluster.bridges instance_).response = some response) :
      BridgeStep cluster instance_ (.apply instance_)
        ((cluster.bridges instance_).applyResponse response)
  | local_ (event : ClusterEvent ι P) (bus : InProcessBus P)
      (other : event ≠ .pull instance_ ∧ event ≠ .apply instance_) :
      BridgeStep cluster instance_ event { cluster.bridges instance_ with bus := bus }

theorem bridgeStep_of_update {instance_ other : ι} {bridge : RelayBus P} {event : ClusterEvent ι P}
    (own : BridgeStep cluster other event bridge)
    (foreign : instance_ ≠ other → event ≠ .pull instance_ ∧ event ≠ .apply instance_) :
    BridgeStep cluster instance_ event
      (Function.update cluster.bridges other bridge instance_) := by
  by_cases same : instance_ = other
  · subst same
    rwa [Function.update_self]
  · rw [Function.update_of_ne same]
    exact .local_ event (cluster.bridges instance_).bus (foreign same)

/-- Every event takes every bridge one step. -/
theorem bridgeStep (stepped : cluster.step event = some next) (instance_ : ι) :
    BridgeStep cluster instance_ event (next.bridges instance_) := by
  have unmoved (quiet : event ≠ .pull instance_ ∧ event ≠ .apply instance_) :
      BridgeStep cluster instance_ event (cluster.bridges instance_) :=
    .local_ event (cluster.bridges instance_).bus quiet
  cases event with
  | publish other topic payload =>
      cases stepped
      exact bridgeStep_of_update (.local_ _ _ (by simp)) (by simp)
  | post index =>
      obtain ⟨⟨on, payload⟩, -, same⟩ := Option.bind_eq_some_iff.mp stepped
      cases same
      exact unmoved (by simp)
  | drop index =>
      obtain ⟨⟨on, payload⟩, -, same⟩ := Option.bind_eq_some_iff.mp stepped
      cases same
      exact unmoved (by simp)
  | gateway topic payload =>
      cases stepped
      exact unmoved (by simp)
  | pull other =>
      simp only [step] at stepped
      split at stepped
      · cases stepped
      · next idle =>
          cases stepped
          exact bridgeStep_of_update (.pull idle) (by simp [eq_comm])
  | miss other =>
      simp only [step] at stepped
      split at stepped
      · cases stepped
      · cases stepped
        exact unmoved (by simp)
  | apply other =>
      obtain ⟨response, awaited, same⟩ := Option.bind_eq_some_iff.mp stepped
      cases same
      exact bridgeStep_of_update (.apply response awaited) (by simp [eq_comm])
  | recv other topic index =>
      obtain ⟨taken, -, same⟩ := Option.bind_eq_some_iff.mp stepped
      cases same
      exact bridgeStep_of_update (.local_ _ _ (by simp)) (by simp)
  | restart =>
      cases stepped
      exact unmoved (by simp)

/-- Unless it restarts, the plane performs the calls of the event. -/
theorem plane_step (stepped : cluster.step event = some next) (running : event ≠ .restart) :
    next.plane = mailboxesAfter cluster.plane (Moment.calls ⟨cluster, event⟩) := by
  cases event with
  | publish other topic payload => cases stepped; rfl
  | post index =>
      obtain ⟨⟨on, payload⟩, found, same⟩ := Option.bind_eq_some_iff.mp stepped
      cases same
      simp only [Moment.calls, found]
      rfl
  | drop index =>
      obtain ⟨post, -, same⟩ := Option.bind_eq_some_iff.mp stepped
      cases same
      rfl
  | gateway topic payload =>
      cases stepped
      cases topic <;> rfl
  | pull other | miss other =>
      simp only [step] at stepped
      split at stepped
      · cases stepped
      · cases stepped
        rfl
  | apply other =>
      obtain ⟨response, -, same⟩ := Option.bind_eq_some_iff.mp stepped
      cases same
      rfl
  | recv other topic index =>
      obtain ⟨taken, -, same⟩ := Option.bind_eq_some_iff.mp stepped
      cases same
      rfl
  | restart => exact absurd rfl running

theorem idle_of_pull {instance_ : ι} (stepped : cluster.step (.pull instance_) = some next) :
    (cluster.bridges instance_).response = none := by
  simp only [step] at stepped
  split at stepped
  · cases stepped
  · assumption

variable {first last : Cluster ι P} {moments : List (Moment ι P)} {instance_ : ι}

/-- The identity of a bridge and its topics stay. -/
theorem Run.kept (run : Run first moments last) (instance_ : ι) :
    (last.bridges instance_).subscriber = (first.bridges instance_).subscriber ∧
      (last.bridges instance_).topics = (first.bridges instance_).topics := by
  induction run with
  | nil => exact ⟨rfl, rfl⟩
  | snoc run stepped ih =>
      have moved := bridgeStep stepped instance_
      generalize Cluster.bridges _ instance_ = bridge at moved
      cases moved with
      | pull idle => exact ih
      | apply response awaited => exact ih
      | local_ _ bus quiet => exact ih

/-- What an instance has fetched is what it has received and what it awaits. -/
theorem Run.fetched_eq (run : Run first moments last) (instance_ : ι) :
    (first.bridges instance_).awaited ++ moments.flatMap (Moment.fetched instance_) =
      moments.flatMap (Moment.received instance_) ++ (last.bridges instance_).awaited := by
  induction run with
  | nil => simp
  | @snoc moments cluster next event run stepped ih =>
      rw [List.flatMap_append, List.flatMap_append, ← List.append_assoc, ih, List.append_assoc,
        List.append_assoc, List.flatMap_singleton, List.flatMap_singleton]
      congr 1
      have moved := bridgeStep stepped instance_
      generalize next.bridges instance_ = bridge at moved
      cases moved with
      | pull idle =>
          simp [Moment.fetched, Moment.received, RelayBus.awaited, idle]
      | apply response awaited =>
          simp [Moment.fetched, Moment.received, RelayBus.awaited, RelayBus.applyResponse, awaited]
      | local_ _ bus quiet =>
          have unfetched : Moment.fetched instance_ ⟨cluster, event⟩ = [] := by
            unfold Moment.fetched
            split
            · next other' same => exact if_neg fun equal => quiet.1 (same.trans (by rw [equal]))
            · rfl
          have unreceived : Moment.received instance_ ⟨cluster, event⟩ = [] := by
            unfold Moment.received
            split
            · next other' same => exact if_neg fun equal => quiet.2 (same.trans (by rw [equal]))
            · rfl
          rw [unfetched, unreceived]
          simp [RelayBus.awaited]

end Steps

end Cluster

end Sohara
