import Sohara.Plane.Fetching
import Sohara.Transition.Runs
import Mathlib.Data.List.Perm.Basic

/-! # Deliveries to bridged instances

What an instance receives, and what its local subscribers are given, over whole runs of a
deployment: each published message is delivered once to a local subscriber unless it is
published on a topic that the publishing instance pulls; two instances are independent
unless they share an admin address; the instances of a topic compete for its messages
only if they share a subscriber id; and after a restart of the plane an instance gets the
messages beyond its old cursor.
-/

namespace Sohara

open Journal Async

/-- Instances as they are served: the random id each would take, its local bus, the topics
of its queue triggers, and its admin address. -/
structure Deployment (ι P : Type) where
  uuid : ι → String
  bus : ι → InProcessBus P
  topics : ι → List String
  admin : ι → Option String

namespace Deployment

variable {ι P : Type}

/-- The instances with their bridges spawned, and a new plane. -/
def start (deployment : Deployment ι P) : Cluster ι P where
  plane := {}
  bridges instance_ := .spawn (deployment.uuid instance_) (deployment.bus instance_)
    (deployment.topics instance_) (deployment.admin instance_)
  posts := []

/-- The id under which an instance pulls. -/
def subscriber (deployment : Deployment ι P) (instance_ : ι) : String :=
  (deployment.admin instance_).getD (deployment.uuid instance_)

end Deployment

namespace Cluster

variable {ι P : Type} [DecidableEq ι] {first mid last cluster next : Cluster ι P}
  {moments earlier later : List (Moment ι P)} {moment : Moment ι P} {instance_ : ι}
  {topic : String} {event : ClusterEvent ι P}

/-- Playing events is a run. -/
theorem run_of_play {events : List (ClusterEvent ι P)}
    (played : first.play events = some (moments, last)) : Run first moments last := by
  have extended : Run first ([] ++ moments) last :=
    Transition.extend_of_play (fun _ => rfl) (fun _ _ _ => rfl) Run.snoc .nil played
  rwa [List.nil_append] at extended

/-- The moments of a play are those of its events. -/
theorem events_of_play {events : List (ClusterEvent ι P)}
    (played : first.play events = some (moments, last)) : moments.map (·.event) = events := by
  induction events generalizing first moments with
  | nil =>
      cases played
      rfl
  | cons event rest ih =>
      obtain ⟨next, stepped, played⟩ := Option.bind_eq_some_iff.mp played
      obtain ⟨⟨others, final⟩, played, same⟩ := Option.bind_eq_some_iff.mp played
      cases same
      rw [List.map_cons, ih played]

section Origins

/-- A message of a topic that an instance receives is one it has fetched, or one it
awaited from the start. -/
theorem Run.received_sublist (run : Run first moments last)
    (idle : (first.bridges instance_).response = none) :
    (moments.flatMap (Moment.received instance_)).Sublist
      (moments.flatMap (Moment.fetched instance_)) := by
  have balance := run.fetched_eq instance_
  unfold RelayBus.awaited at balance
  rw [idle] at balance
  simp only [Option.map_none, Option.getD_none, List.nil_append] at balance
  rw [balance]
  exact List.sublist_append_left _ _

/-- A fetched message as an entry of its topic. -/
theorem mem_fetchedOn {seq : Nat} {payload : P} :
    (seq, payload) ∈ moment.fetchedOn instance_ topic ↔
      ⟨topic, seq, payload⟩ ∈ moment.fetched instance_ := by
  unfold Moment.fetchedOn
  rw [List.mem_map]
  constructor
  · rintro ⟨⟨on, number, value⟩, member, same⟩
    obtain ⟨handed, named⟩ := List.mem_filter.mp member
    cases same
    obtain rfl := of_decide_eq_true named
    exact handed
  · intro handed
    exact ⟨_, List.mem_filter.mpr ⟨handed, decide_eq_true rfl⟩, rfl⟩

theorem mem_flatMap_fetchedOn {seq : Nat} {payload : P} :
    (seq, payload) ∈ moments.flatMap (Moment.fetchedOn instance_ topic) ↔
      ⟨topic, seq, payload⟩ ∈ moments.flatMap (Moment.fetched instance_) := by
  rw [List.mem_flatMap, List.mem_flatMap]
  exact exists_congr fun moment => and_congr_right fun _ => mem_fetchedOn

/-- Messages are fetched by pulls. -/
theorem event_of_fetched {message : RelayMessage P}
    (fetched : message ∈ moment.fetched instance_) : moment.event = .pull instance_ := by
  unfold Moment.fetched at fetched
  split at fetched
  · next other same =>
      split at fetched
      · next equal => rw [same, equal]
      · cases fetched
  · cases fetched

/-- An event posts, and puts on its way, only what was on its way or is published. -/
theorem posted_count_step [DecidableEq P] (stepped : cluster.step event = some next)
    (topic : String) (payload : P) :
    (posted (Moment.calls ⟨cluster, event⟩) topic).count payload +
        (next.posts.map Prod.snd).count payload ≤
      (cluster.posts.map Prod.snd).count payload +
        (Moment.publishes ⟨cluster, event⟩).count payload := by
  cases event with
  | publish other on value =>
      cases stepped
      simp [Moment.calls, Moment.publishes, posted, List.count_append]
  | post index =>
      obtain ⟨⟨on, value⟩, found, same⟩ := Option.bind_eq_some_iff.mp stepped
      cases same
      obtain ⟨inside, here⟩ := List.getElem?_eq_some_iff.mp found
      have parted := ((List.getElem_cons_eraseIdx_perm inside).map Prod.snd).count_eq payload
      rw [here, List.map_cons, List.count_cons] at parted
      dsimp only at parted
      simp only [Moment.calls, found, Option.map_some, Option.toList_some, posted,
        List.flatMap_cons, List.flatMap_nil, List.append_nil, Moment.publishes, List.count_nil]
      rw [← parted]
      split
      · rw [List.count_singleton]
        omega
      · rw [List.count_nil]
        omega
  | drop index =>
      obtain ⟨taken, -, same⟩ := Option.bind_eq_some_iff.mp stepped
      cases same
      have fewer := ((List.eraseIdx_sublist cluster.posts index).map Prod.snd).count_le payload
      simpa [Moment.calls, Moment.publishes, posted] using fewer
  | gateway on value =>
      cases stepped
      cases on with
      | none => simp [Moment.calls, Moment.publishes, posted]
      | some on =>
          simp only [Moment.calls, Moment.publishes, posted, List.flatMap_cons, List.flatMap_nil,
            List.append_nil]
          split
          · omega
          · simp
  | pull other =>
      rw [pull_eq stepped]
      simp [Moment.calls, Moment.publishes, posted, asking, setBridge]
  | miss other =>
      simp only [step] at stepped
      split at stepped
      · cases stepped
      · cases stepped
        simp [Moment.calls, Moment.publishes, posted]
  | apply other =>
      obtain ⟨response, -, same⟩ := Option.bind_eq_some_iff.mp stepped
      cases same
      simp [Moment.calls, Moment.publishes, posted, setBridge]
  | recv other on index =>
      obtain ⟨taken, -, same⟩ := Option.bind_eq_some_iff.mp stepped
      cases same
      simp [Moment.calls, Moment.publishes, posted, setBridge]
  | restart =>
      cases stepped
      simp [Moment.calls, Moment.publishes, posted]

/-- What has been posted and what is on its way has been published. -/
theorem Run.posted_count [DecidableEq P] (run : Run first moments last) (posts : first.posts = [])
    (topic : String) (payload : P) :
    (posted (moments.flatMap Moment.calls) topic).count payload +
        (last.posts.map Prod.snd).count payload ≤
      (moments.flatMap Moment.publishes).count payload := by
  induction run with
  | nil => rw [posts]; simp [posted]
  | @snoc moments cluster next event run stepped ih =>
      have moved := posted_count_step stepped topic payload
      rw [List.flatMap_append, List.flatMap_append, List.flatMap_singleton,
        List.flatMap_singleton, posted_append, List.count_append, List.count_append]
      omega

/-- When all that is published is distinct, so is what is posted on a topic. -/
theorem Run.posted_nodup (run : Run first moments last) (posts : first.posts = [])
    (distinct : (moments.flatMap Moment.publishes).Nodup) (topic : String) :
    (posted (moments.flatMap Moment.calls) topic).Nodup := by
  classical
  rw [List.nodup_iff_count_le_one] at distinct ⊢
  intro payload
  have counted := run.posted_count posts topic payload
  have once := distinct payload
  omega

end Origins

section Once

/-- Sublists of every part make a sublist of the whole. -/
theorem flatMap_sublist {α β : Type} {parts wholes : α → List β} {items : List α}
    (sub : ∀ item ∈ items, (parts item).Sublist (wholes item)) :
    (items.flatMap parts).Sublist (items.flatMap wholes) := by
  induction items with
  | nil => exact .slnil
  | cons item rest ih =>
      rw [List.flatMap_cons, List.flatMap_cons]
      exact (sub item List.mem_cons_self).append
        (ih fun other member => sub other (List.mem_cons_of_mem _ member))

/-- The cluster of a moment is reached by the moments before it. -/
theorem Run.before (run : Run first moments last) (member : moment ∈ moments) :
    ∃ earlier, Run first earlier moment.cluster ∧ ∀ other ∈ earlier, other ∈ moments := by
  induction run with
  | nil => cases member
  | @snoc moments cluster next event run stepped ih =>
      rcases List.mem_append.mp member with inside | here
      · obtain ⟨earlier, before, among⟩ := ih inside
        exact ⟨earlier, before, fun other member => List.mem_append_left _ (among other member)⟩
      · obtain rfl := List.mem_singleton.mp here
        exact ⟨moments, run, fun other member => List.mem_append_left _ member⟩

/-- The identity of a bridge and its topics are the same at every moment. -/
theorem Run.kept_at (run : Run first moments last) (member : moment ∈ moments) (instance_ : ι) :
    (moment.cluster.bridges instance_).subscriber = (first.bridges instance_).subscriber ∧
      (moment.cluster.bridges instance_).topics = (first.bridges instance_).topics := by
  obtain ⟨earlier, before, -⟩ := run.before member
  exact before.kept instance_

/-- What is fetched on a topic comes in the order of its log, without repetition. -/
theorem Run.fetchedOn_sublist (run : Run first moments last) (started : first.plane = {})
    (running : ∀ moment ∈ moments, moment.Running) (instance_ : ι) (topic : String) :
    (moments.flatMap (Moment.fetchedOn instance_ topic)).Sublist
      (numbered (posted (moments.flatMap Moment.calls) topic)) := by
  obtain ⟨-, follows⟩ := run.tracked started running (first.bridges instance_).subscriber topic
  refine .trans ?_ follows.sublist
  apply flatMap_sublist
  intro moment member
  by_cases unfetched : moment.fetchedOn instance_ topic = []
  · rw [unfetched]
    exact List.nil_sublist _
  · rw [← (run.kept_at member instance_).1, seen_steps unfetched]

/-- An instance fetches only on its topics. -/
theorem Run.subscribed_of_fetched (run : Run first moments last) (started : first.plane = {})
    (running : ∀ moment ∈ moments, moment.Running) {message : RelayMessage P}
    (fetched : message ∈ moments.flatMap (Moment.fetched instance_)) :
    message.topic ∈ (first.bridges instance_).topics := by
  obtain ⟨moment, member, handed⟩ := List.mem_flatMap.mp fetched
  obtain ⟨earlier, before, among⟩ := run.before member
  obtain ⟨holds, -⟩ := before.tracked started (fun other inside =>
    running other (among other inside)) "" ""
  rw [← (before.kept instance_).2]
  have listed : message ∈ (moment.cluster.answer instance_).1.messages := by
    unfold Moment.fetched at handed
    rw [event_of_fetched handed] at handed
    simpa using handed
  by_contra unsubscribed
  have silent :
      Mailboxes.asked message.topic (moment.cluster.bridges instance_).requestPull = [] := by
    unfold Mailboxes.asked RelayBus.requestPull
    rw [List.map_eq_nil_iff, List.filter_eq_nil_iff]
    rintro subscription inside
    obtain ⟨on, subscribed, rfl⟩ := List.mem_map.mp inside
    exact fun named => unsubscribed (of_decide_eq_true named ▸ subscribed)
  have nothing := (pulls_answer instance_ holds).messages message.topic
  rw [silent] at nothing
  have inside : message ∈ (moment.cluster.answer instance_).1.messages.filter
      (fun other => other.topic = message.topic) := List.mem_filter.mpr ⟨listed, by simp⟩
  rw [nothing] at inside
  cases inside

/-- The payloads that an event publishes on one topic of a local bus. -/
def Moment.offeredOn (instance_ : ι) (topic : String) (moment : Moment ι P) : List P :=
  ((moment.offers instance_).filter fun offer => offer.1 = topic).map Prod.snd

/-- The payloads of one topic that an instance receives at an event. -/
def Moment.receivedOn (instance_ : ι) (topic : String) (moment : Moment ι P) : List P :=
  ((moment.received instance_).filter fun message => message.topic = topic).map (·.payload)

/-- What is offered on a topic is published by the instance itself, or received by it. -/
theorem offeredOn_cases (moment : Moment ι P) (instance_ : ι) (topic : String) :
    (∃ payload, moment.event = .publish instance_ topic payload ∧
        moment.offeredOn instance_ topic = [payload]) ∨
      moment.offeredOn instance_ topic = moment.receivedOn instance_ topic := by
  obtain ⟨cluster, event⟩ := moment
  have injected (messages : List (RelayMessage P)) :
      ((messages.map fun message => (message.topic, message.payload)).filter
          fun offer => offer.1 = topic).map Prod.snd =
        (messages.filter fun message => message.topic = topic).map (·.payload) := by
    rw [List.filter_map, List.map_map]
    rfl
  cases event with
  | publish other on payload =>
      unfold Moment.offeredOn Moment.receivedOn Moment.offers Moment.received
      by_cases same : other = instance_
      · subst same
        by_cases here : on = topic
        · subst here
          exact .inl ⟨payload, rfl, by simp⟩
        · exact .inr (by simp [here])
      · exact .inr (by simp [same])
  | _ => exact .inr (injected _)

variable {deployment : Deployment ι P}

/-- What an instance receives on a topic are messages of the log of the topic, each once. -/
theorem Run.receivedOn_nodup (run : Run deployment.start moments last)
    (running : ∀ moment ∈ moments, moment.Running)
    (distinct : (moments.flatMap Moment.publishes).Nodup) (instance_ : ι) (topic : String) :
    (moments.flatMap (Moment.receivedOn instance_ topic)).Nodup := by
  have received : moments.flatMap (Moment.receivedOn instance_ topic) =
      ((moments.flatMap (Moment.received instance_)).filter
        fun message => message.topic = topic).map (·.payload) := by
    unfold Moment.receivedOn
    rw [List.filter_flatMap, List.map_flatMap]
  have fetched : (moments.flatMap (Moment.fetchedOn instance_ topic)).map Prod.snd =
      ((moments.flatMap (Moment.fetched instance_)).filter
        fun message => message.topic = topic).map (·.payload) := by
    unfold Moment.fetchedOn
    rw [List.filter_flatMap, List.map_flatMap, List.map_flatMap]
    simp only [List.map_map]
    rfl
  have sub : (moments.flatMap (Moment.received instance_)).Sublist
      (moments.flatMap (Moment.fetched instance_)) := run.received_sublist rfl
  have below := (sub.filter fun message => message.topic = topic).map fun message => message.payload
  rw [← received, ← fetched] at below
  apply List.Nodup.sublist (below.trans ((run.fetchedOn_sublist rfl running _ topic).map _))
  rw [items_numbered]
  exact run.posted_nodup rfl distinct topic

/-- On a topic that it does not pull, an instance receives nothing. -/
theorem Run.receivedOn_eq_nil (run : Run deployment.start moments last)
    (running : ∀ moment ∈ moments, moment.Running) {instance_ : ι} {topic : String}
    (unsubscribed : topic ∉ deployment.topics instance_) {moment : Moment ι P}
    (member : moment ∈ moments) : moment.receivedOn instance_ topic = [] := by
  unfold Moment.receivedOn
  rw [List.map_eq_nil_iff, List.filter_eq_nil_iff]
  intro message received named
  obtain rfl := of_decide_eq_true named
  have fetched : message ∈ moments.flatMap (Moment.fetched instance_) :=
    (run.received_sublist rfl).subset (List.mem_flatMap.mpr ⟨_, member, received⟩)
  exact unsubscribed (run.subscribed_of_fetched rfl running fetched)

/-- **A published message is delivered once** to each local subscriber of each instance, in
every run without a plane restart in which no instance publishes on a topic it pulls. -/
theorem delivered_once (run : Run deployment.start moments last)
    (running : ∀ moment ∈ moments, moment.Running)
    (distinct : (moments.flatMap Moment.publishes).Nodup)
    (elsewhere : ∀ moment ∈ moments, ∀ instance_ topic payload,
      moment.event = .publish instance_ topic payload → topic ∉ deployment.topics instance_)
    (instance_ : ι) (topic : String) (index : Nat) :
    (moments.flatMap (Moment.delivered instance_ topic index)).Nodup := by
  have bounded : (moments.flatMap (Moment.delivered instance_ topic index)).Sublist
      (moments.flatMap (Moment.offeredOn instance_ topic)) :=
    flatMap_sublist fun moment _ => InProcessBus.accepted_sublist ..
  apply List.Nodup.sublist bounded
  by_cases subscribed : topic ∈ deployment.topics instance_
  · -- the instance gets its own topic from the plane only
    refine (run.receivedOn_nodup running distinct instance_ topic).sublist
      (flatMap_sublist fun moment member => ?_)
    rcases offeredOn_cases moment instance_ topic with ⟨payload, published, -⟩ | same
    · exact absurd subscribed (elsewhere moment member instance_ topic payload published)
    · rw [same]
  · -- the instance has other topics from its own publishes only
    refine distinct.sublist (flatMap_sublist fun moment member => ?_)
    rcases offeredOn_cases moment instance_ topic with ⟨payload, published, same⟩ | same
    · rw [same]
      unfold Moment.publishes
      rw [published]
    · rw [same, run.receivedOn_eq_nil running subscribed member]
      exact List.nil_sublist _

end Once

section Sharing

/-- An event of an interleaving with the pulls of two instances: the plane stays up, the two
lose no response, and nobody else pulls under their ids. -/
structure Moment.Between (one other : ι) (moment : Moment ι P) : Prop where
  running : moment.event ≠ .restart
  alone : ∀ puller, moment.event = .pull puller ∨ moment.event = .miss puller →
    puller = one ∨ puller = other ∨ ∀ reader, reader = one ∨ reader = other →
      (moment.cluster.bridges puller).subscriber ≠ (moment.cluster.bridges reader).subscriber
  answered : ∀ reader, reader = one ∨ reader = other → moment.event ≠ .miss reader

/-- One of two instances receives every message of a topic that is still retained when it
has pulled ten times. -/
def Hears (first : Cluster ι P) (one other reader : ι) (topic : String) : Prop :=
  ∀ earlier mid later last, Run first earlier mid → Run mid later last →
    (∀ moment ∈ earlier ++ later, moment.Between one other) →
    (last.bridges reader).response = none → 10 ≤ pullsOf reader later →
    ∀ seq payload, seq ≤ mid.plane.published topic →
      (seq, payload) ∈ last.plane.retained topic →
      ⟨topic, seq, payload⟩ ∈ (earlier ++ later).flatMap (Moment.received reader)

/-- The pulls of one instance leave the cursors of the other. -/
def LeavesCursors (first : Cluster ι P) (one other puller reader : ι) : Prop :=
  ∀ moments last next, Run first moments last →
    (∀ moment ∈ moments, moment.Between one other) → last.step (.pull puller) = some next →
    ∀ topic, next.plane.floor (next.bridges reader).subscriber topic =
      last.plane.floor (last.bridges reader).subscriber topic

/-- Two instances of a topic do not take messages or advance cursors from each other. -/
structure Independent (first : Cluster ι P) (one other : ι) (topic : String) : Prop where
  hears : Hears first one other one topic
  hears' : Hears first one other other topic
  leaves : LeavesCursors first one other one other
  leaves' : LeavesCursors first one other other one

variable {deployment : Deployment ι P} {one other reader : ι}

/-- Among two instances with ids of their own, neither is disturbed. -/
theorem Moment.Between.undisturbed (run : Run deployment.start moments last)
    (member : moment ∈ moments) (between : moment.Between one other)
    (pair : reader = one ∨ reader = other)
    (apart : deployment.subscriber one ≠ deployment.subscriber other) :
    moment.Undisturbed reader topic where
  running := between.running
  alone puller asks same := by
    rcases between.alone puller asks with known | known | strange
    · rw [(run.kept_at member puller).1, (run.kept_at member reader).1] at same
      rcases pair with rfl | rfl
      · exact known
      · exact absurd (known ▸ same) apart
    · rw [(run.kept_at member puller).1, (run.kept_at member reader).1] at same
      rcases pair with rfl | rfl
      · exact absurd (known ▸ same).symm apart
      · exact known
    · exact absurd same (strange reader pair)
  spared missing := absurd missing (between.answered reader pair)

theorem received_eq_fetched (run : Run first moments last)
    (idle : (first.bridges instance_).response = none)
    (idle' : (last.bridges instance_).response = none) :
    moments.flatMap (Moment.received instance_) = moments.flatMap (Moment.fetched instance_) := by
  have balance := run.fetched_eq instance_
  unfold RelayBus.awaited at balance
  rw [idle, idle'] at balance
  simpa using balance.symm

/-- Instances with ids of their own hear everything. -/
theorem hears_of_apart (pair : reader = one ∨ reader = other)
    (subscribed : topic ∈ deployment.topics reader)
    (apart : deployment.subscriber one ≠ deployment.subscriber other) :
    Hears deployment.start one other reader topic := by
  intro earlier mid later last run rest between idle pulls seq payload published retained
  have whole := run.append rest
  have undisturbed : ∀ moment ∈ earlier ++ later, moment.Undisturbed reader topic :=
    fun moment member => (between moment member).undisturbed whole member pair apart
  obtain ⟨held, -⟩ := whole.tracked rfl (fun moment member =>
    (undisturbed moment member).running) "" topic
  have positive : 0 < seq := by
    rw [held.retained_eq, mem_window] at retained
    exact (le_length_of_mem_numbered retained.2).1
  have fetched :=
    (run.fetches rest rfl undisturbed subscribed published retained pulls).mpr positive
  rw [received_eq_fetched whole rfl idle]
  exact mem_flatMap_fetchedOn.mp fetched

theorem leaves_of_apart {puller : ι}
    (apart : deployment.subscriber reader ≠ deployment.subscriber puller) :
    LeavesCursors deployment.start one other puller reader := by
  intro moments last next run between stepped topic
  obtain ⟨held, -⟩ := run.tracked rfl (fun moment member =>
    (between moment member).running) "" topic
  have kept := (Run.kept (.snoc .nil stepped) reader).1
  rw [kept, pull_eq stepped]
  have floor := (pulls_answer puller held).floor (last.bridges reader).subscriber topic
  rw [if_neg (by rw [(run.kept reader).1, (run.kept puller).1]; exact apart)] at floor
  exact floor

theorem step_pull (idle : (cluster.bridges instance_).response = none) :
    cluster.step (.pull instance_) = some (cluster.asking instance_) := by
  simp only [step, idle]

theorem step_apply {response : PullResponse P}
    (awaited : (cluster.bridges instance_).response = some response) :
    cluster.step (.apply instance_) = some (cluster.setBridge instance_
      ((cluster.bridges instance_).applyResponse response)) := by
  simp only [step, awaited]
  rfl

/-- An instance can pull any number of times, while nothing else happens. -/
theorem exists_rounds {log : String → List P} (holds : Mailboxes.Holds log first.plane)
    (idle : (first.bridges instance_).response = none) (count : Nat) :
    ∃ moments last, Run first moments last ∧
      (∀ moment ∈ moments, moment.event = .pull instance_ ∨ moment.event = .apply instance_) ∧
      pullsOf instance_ moments = count ∧ Mailboxes.Holds log last.plane ∧
      (last.bridges instance_).response = none ∧
      ∀ other, other ≠ instance_ → last.bridges other = first.bridges other := by
  induction count with
  | zero => exact ⟨[], first, .nil, by simp, rfl, holds, idle, fun _ _ => rfl⟩
  | succ count ih =>
      obtain ⟨moments, cluster, run, events, pulls, held, quiet, others⟩ := ih
      have pulled := Run.snoc run (step_pull quiet)
      have awaited : ((cluster.asking instance_).bridges instance_).response =
          some (cluster.answer instance_).1 := by
        simp [asking, setBridge]
      have applied := Run.snoc pulled (step_apply awaited)
      refine ⟨_, _, applied, ?_, ?_, (pulls_answer instance_ held).holds, ?_, ?_⟩
      · intro moment member
        rw [List.append_assoc, List.mem_append] at member
        rcases member with earlier | now
        · exact events moment earlier
        · rcases List.mem_cons.mp now with rfl | now
          · exact .inl rfl
          · obtain rfl := List.mem_singleton.mp now
            exact .inr rfl
      · unfold pullsOf at pulls ⊢
        rw [List.countP_append, List.countP_append, pulls, List.countP_singleton,
          List.countP_singleton]
        simp [Moment.isPullOf]
      · simp [setBridge, RelayBus.applyResponse]
      · intro other different
        simp only [setBridge, asking, Function.update_of_ne different]
        exact others other different

/-- A deployment that has served one request to the gateway. -/
def dispatched (deployment : Deployment ι P) (topic : String) (payload : P) : Cluster ι P :=
  { deployment.start with plane := ({} : Mailboxes P).relayPublish topic payload }

/-- After a request to the gateway, each of two instances can pull ten times. -/
theorem exists_shared_run (deployment : Deployment ι P) {one other : ι} (different : one ≠ other)
    (topic : String) (payload : P) :
    ∃ mid later last, Run deployment.start [⟨deployment.start, .gateway (some topic) payload⟩] mid ∧
      Run mid later last ∧
      (∀ moment ∈ later, ∃ reader, (reader = one ∨ reader = other) ∧
        (moment.event = .pull reader ∨ moment.event = .apply reader)) ∧
      mid.plane.published topic = 1 ∧ (1, payload) ∈ last.plane.retained topic ∧
      ∀ reader, reader = one ∨ reader = other →
        10 ≤ pullsOf reader later ∧ (last.bridges reader).response = none := by
  have stepped : deployment.start.step (.gateway (some topic) payload) =
      some (dispatched deployment topic payload) := rfl
  have holds := (Mailboxes.holds_empty (P := P)).relayPublish topic payload
  obtain ⟨moments, cluster, run, events, pulls, held, quiet, others⟩ :=
    @exists_rounds ι P _ (dispatched deployment topic payload) one _ holds rfl 10
  have idle : (cluster.bridges other).response = none := by
    rw [others other (Ne.symm different)]
    rfl
  obtain ⟨moments', last, run', events', pulls', held', quiet', others'⟩ :=
    exists_rounds held idle 10
  refine ⟨_, moments ++ moments', last, .snoc .nil stepped, run.append run', ?_, ?_, ?_, ?_⟩
  · intro moment member
    rcases List.mem_append.mp member with here | here
    · exact ⟨one, .inl rfl, events moment here⟩
    · exact ⟨other, .inr rfl, events' moment here⟩
  · show ((({} : Mailboxes P).relayPublish topic payload).published topic) = 1
    rw [holds.published_eq]
    simp
  · rw [held'.retained_eq, mem_window, mem_numbered]
    simp [relayCap]
  · intro reader pair
    unfold pullsOf at pulls pulls' ⊢
    rw [List.countP_append]
    rcases pair with rfl | rfl
    · refine ⟨by omega, ?_⟩
      rw [others' reader different]
      exact quiet
    · exact ⟨by omega, quiet'⟩

omit [DecidableEq ι] in
/-- The events of a shared run are pulls of the two instances. -/
theorem between_of_shared (deployment : Deployment ι P) (topic : String) (payload : P)
    (events : ∀ moment ∈ later, ∃ reader, (reader = one ∨ reader = other) ∧
      (moment.event = .pull reader ∨ moment.event = .apply reader)) :
    ∀ moment ∈ ⟨deployment.start, .gateway (some topic) payload⟩ :: later,
      moment.Between one other := by
  intro moment member
  rcases List.mem_cons.mp member with rfl | inside
  · exact ⟨by simp, by simp, by simp⟩
  · obtain ⟨reader, pair, pulling | applying⟩ := events moment inside
    · refine ⟨by simp [pulling], ?_, by simp [pulling]⟩
      intro puller asks
      rw [pulling] at asks
      rcases asks with same | same <;> cases same
      exact pair.imp_right .inl
    · exact ⟨by simp [applying], by simp [applying], by simp [applying]⟩

/-- Under one id, two instances do not receive the same message. -/
theorem Run.receiver_unique (run : Run deployment.start moments last)
    (running : ∀ moment ∈ moments, moment.Running) {seq : Nat} {payload payload' : P}
    (shared : deployment.subscriber one = deployment.subscriber other)
    (received : ⟨topic, seq, payload⟩ ∈ moments.flatMap (Moment.received one))
    (received' : ⟨topic, seq, payload'⟩ ∈ moments.flatMap (Moment.received other)) :
    one = other := by
  have origin {reader : ι} {payload : P}
      (got : ⟨topic, seq, payload⟩ ∈ moments.flatMap (Moment.received reader)) :
      ∃ moment ∈ moments, moment.event = .pull reader ∧
        (seq, payload) ∈ seen (deployment.subscriber reader) topic moment.steps := by
    have fetched := (run.received_sublist rfl).subset got
    obtain ⟨moment, member, handed⟩ := List.mem_flatMap.mp fetched
    have entry := mem_fetchedOn.mpr handed
    refine ⟨moment, member, event_of_fetched handed, ?_⟩
    have kept := (run.kept_at member reader).1
    rwa [show deployment.subscriber reader = _ from kept.symm,
      seen_steps (List.ne_nil_of_mem entry)]
  obtain ⟨moment, member, pulling, handed⟩ := origin received
  obtain ⟨moment', member', pulling', handed'⟩ := origin received'
  rw [← shared] at handed'
  obtain rfl := run.moment_unique rfl running member member' handed handed' rfl
  rw [pulling] at pulling'
  cases pulling'
  rfl

/-- Instances with ids of their own are independent on a topic they share. -/
theorem independent_of_apart (subscribed : topic ∈ deployment.topics one)
    (subscribed' : topic ∈ deployment.topics other)
    (apart : deployment.subscriber one ≠ deployment.subscriber other) :
    Independent deployment.start one other topic where
  hears := hears_of_apart (.inl rfl) subscribed apart
  hears' := hears_of_apart (.inr rfl) subscribed' apart
  leaves := leaves_of_apart (Ne.symm apart)
  leaves' := leaves_of_apart apart

/-- Of two instances under one id, one misses messages. -/
theorem not_independent_of_shared [Inhabited P] (different : one ≠ other)
    (shared : deployment.subscriber one = deployment.subscriber other) :
    ¬Independent deployment.start one other topic := by
  intro independent
  obtain ⟨mid, later, last, run, rest, events, published, retained, pulls⟩ :=
    exists_shared_run deployment different topic default
  have between := between_of_shared deployment topic default events
  have bound : 1 ≤ mid.plane.published topic := Nat.le_of_eq published.symm
  have received := independent.hears _ _ _ _ run rest between (pulls one (.inl rfl)).2
    (pulls one (.inl rfl)).1 1 default bound retained
  have received' := independent.hears' _ _ _ _ run rest between (pulls other (.inr rfl)).2
    (pulls other (.inr rfl)).1 1 default bound retained
  exact different ((run.append rest).receiver_unique
    (fun moment member => (between moment member).running) shared received received')

/-- **Two instances of a topic are independent just in case they do not share an admin
address**: the address is the id under which an instance pulls. -/
theorem independent_iff [Inhabited P] (deployment : Deployment ι P) {one other : ι}
    (different : one ≠ other) (topic : String) (subscribed : topic ∈ deployment.topics one)
    (subscribed' : topic ∈ deployment.topics other)
    (distinct : deployment.uuid one ≠ deployment.uuid other)
    (unlike : deployment.admin one ≠ some (deployment.uuid other))
    (unlike' : deployment.admin other ≠ some (deployment.uuid one)) :
    Independent deployment.start one other topic ↔
      ¬∃ address, deployment.admin one = some address ∧ deployment.admin other = some address := by
  have same_id : deployment.subscriber one = deployment.subscriber other ↔
      ∃ address, deployment.admin one = some address ∧ deployment.admin other = some address := by
    unfold Deployment.subscriber
    cases here : deployment.admin one with
    | none =>
        cases there : deployment.admin other with
        | none => simpa using distinct
        | some address => simpa [eq_comm] using fun same => unlike' (there.trans (by rw [same]))
    | some address =>
        cases there : deployment.admin other with
        | none => simpa using fun same => unlike (here.trans (by rw [same]))
        | some address' => simp [eq_comm]
  rw [← same_id]
  constructor
  · intro independent shared
    exact not_independent_of_shared different shared independent
  · exact independent_of_apart subscribed subscribed'

end Sharing

section Restarts

/-- What an instance has received in a run, but for the response in flight at its start. -/
def receivedSince (first : Cluster ι P) (instance_ : ι) (moments : List (Moment ι P)) :
    List (RelayMessage P) :=
  (moments.flatMap (Moment.received instance_)).drop (first.bridges instance_).awaited.length

theorem receivedSince_eq (run : Run first moments last)
    (idle : (last.bridges instance_).response = none) :
    receivedSince first instance_ moments = moments.flatMap (Moment.fetched instance_) := by
  have balance := run.fetched_eq instance_
  have settled : (last.bridges instance_).awaited = [] := by
    unfold RelayBus.awaited
    rw [idle]
    rfl
  unfold receivedSince
  rw [settled, List.append_nil] at balance
  rw [← balance, List.drop_left]

/-- **After a restart of the plane**, an instance receives a message within ten pulls just
in case its new number lies beyond the old cursor of the instance. -/
theorem delivered_after_restart_iff {before : Cluster ι P}
    (restarted : before.step .restart = some first) (run : Run first earlier mid)
    (rest : Run mid later last)
    (undisturbed : ∀ moment ∈ earlier ++ later, moment.Undisturbed instance_ topic)
    (subscribed : topic ∈ (before.bridges instance_).topics) {seq : Nat} {payload : P}
    (published : seq ≤ mid.plane.published topic)
    (retained : (seq, payload) ∈ last.plane.retained topic)
    (pulls : 10 ≤ pullsOf instance_ later) (idle : (last.bridges instance_).response = none) :
    ⟨topic, seq, payload⟩ ∈ receivedSince first instance_ (earlier ++ later) ↔
      (before.bridges instance_).settled topic < seq := by
  cases restarted
  rw [receivedSince_eq (run.append rest) idle, ← mem_flatMap_fetchedOn]
  have reached : reach { before with plane := {} } instance_ topic =
      (before.bridges instance_).settled topic := Nat.zero_max _
  rw [← reached]
  exact run.fetches rest rfl undisturbed subscribed published retained pulls

end Restarts

end Cluster

namespace Sample

open Cluster

/-- Instances with the given admin addresses that have one queue trigger on one topic. -/
def consumers {ι : Type} (uuid : ι → String) (admin : ι → Option String) :
    Deployment ι String where
  uuid := uuid
  bus _ := (InProcessBus.new 16).subscribe "orders"
  topics _ := ["orders"]
  admin := admin

/-- One instance that publishes on a topic and pulls it. -/
def echo : Deployment Unit String := consumers (fun _ => "9f30") fun _ => some "127.0.0.1:9000"

/-- **A relayed publish comes back** to the subscribers of the instance that made it. -/
theorem echo_delivered_twice : ∃ moments last, Run echo.start moments last ∧
    moments.map (·.event) =
      [.publish () "orders" "a", .post 0, .pull (), .apply ()] ∧
    moments.flatMap (Moment.delivered () "orders" 0) = ["a", "a"] :=
  ⟨_, _, run_of_play (rfl : echo.start.play
    [.publish () "orders" "a", .post 0, .pull (), .apply ()] = some (_, _)), rfl, rfl⟩

/-- A producer without triggers, and a consumer. -/
def producer : Deployment Bool String :=
  { consumers (fun second => if second then "4b1c" else "9f30") fun _ => none with
    topics := fun second => if second then ["orders"] else [] }

/-- What the producer publishes is delivered to the consumer once. -/
theorem producer_delivered_once : ∃ moments last, Run producer.start moments last ∧
    (moments.flatMap (Moment.delivered true "orders" 0)).Nodup := by
  refine ⟨_, _, run_of_play (rfl : producer.start.play
    [.publish false "orders" "a", .post 0, .pull true, .apply true] = some (_, _)),
    delivered_once (run_of_play (rfl : producer.start.play
      [.publish false "orders" "a", .post 0, .pull true, .apply true] = some (_, _)))
      ?_ (List.nodup_singleton "a") ?_ true "orders" 0⟩
  · unfold Moment.Running
    simp
  · simp [producer, consumers]

/-- The instance after its plane has relayed two messages to it. -/
def aged : Cluster Unit String :=
  ((echo.start.play [.gateway (some "orders") "a", .gateway (some "orders") "b", .pull (),
    .apply ()]).map Prod.snd).getD echo.start

/-- The same instance as the plane restarts. -/
def renewed : Cluster Unit String := { aged with plane := {} }

/-- Three messages are published on the new plane. -/
def refills : List (ClusterEvent Unit String) :=
  ["c", "d", "e"].map (.gateway (some "orders"))

/-- Ten pulls, each with its response. -/
def tenPulls : List (ClusterEvent Unit String) :=
  (List.replicate 10 [.pull (), .apply ()]).flatten

/-- No other instance can disturb the only one. -/
theorem undisturbed_of_play {first last : Cluster Unit String}
    {moments : List (Moment Unit String)} {events : List (ClusterEvent Unit String)}
    (played : first.play events = some (moments, last)) (running : .restart ∉ events)
    (heard : .miss () ∉ events) :
    ∀ moment ∈ moments, moment.Undisturbed () "orders" := by
  intro moment member
  have played_event : moment.event ∈ events := by
    rw [← events_of_play played]
    exact List.mem_map_of_mem member
  refine ⟨?_, fun _ _ _ => rfl, ?_⟩
  · intro restarts
    exact running (restarts ▸ played_event)
  · intro misses
    exact absurd (misses ▸ played_event) heard

/-- The run in which the new plane is filled, and the instance pulls ten times. -/
theorem renewed_run : ∃ earlier mid later last, Run renewed earlier mid ∧ Run mid later last ∧
    (∀ moment ∈ earlier ++ later, moment.Undisturbed () "orders") ∧
    mid.plane.published "orders" = 3 ∧
    last.plane.retained "orders" = [(1, "c"), (2, "d"), (3, "e")] ∧
    10 ≤ pullsOf () later ∧ (last.bridges ()).response = none ∧
    receivedSince renewed () (earlier ++ later) = [⟨"orders", 3, "e"⟩] := by
  obtain ⟨⟨earlier, mid⟩, filled⟩ : ∃ reached, renewed.play refills = some reached := ⟨_, rfl⟩
  have published : mid.plane.published "orders" = 3 := by
    cases filled
    rfl
  obtain ⟨⟨later, last⟩, pulled⟩ : ∃ reached, mid.play tenPulls = some reached := by
    cases filled
    exact ⟨_, rfl⟩
  refine ⟨earlier, mid, later, last, run_of_play filled, run_of_play pulled, ?_, published, ?_⟩
  · intro moment member
    rcases List.mem_append.mp member with inside | inside
    · exact undisturbed_of_play filled (by simp [refills]) (by simp [refills]) moment inside
    · exact undisturbed_of_play pulled (by simp [tenPulls]) (by simp [tenPulls]) moment inside
  · cases filled
    cases pulled
    exact ⟨rfl, by decide, rfl, rfl⟩

theorem aged_reached : ∃ moments, Run echo.start moments aged := by
  have past : echo.start.play [.gateway (some "orders") "a", .gateway (some "orders") "b",
      .pull (), .apply ()] = some (_, aged) := rfl
  exact ⟨_, run_of_play past⟩

/-- A message published after a restart of the plane, beyond the old cursor, is delivered. -/
theorem renewed_delivered : ∃ earlier mid later last,
    (∃ moments, Run echo.start moments aged) ∧ aged.step .restart = some renewed ∧
    Run renewed earlier mid ∧ Run mid later last ∧ (3, "e") ∈ last.plane.retained "orders" ∧
    10 ≤ pullsOf () later ∧ (last.bridges ()).response = none ∧
    ⟨"orders", 3, "e"⟩ ∈ receivedSince renewed () (earlier ++ later) := by
  obtain ⟨earlier, mid, later, last, run, rest, undisturbed, published, retained, pulls, idle, -⟩ :=
    renewed_run
  have restarted : aged.step .restart = some renewed := rfl
  have kept : (3, "e") ∈ last.plane.retained "orders" := by
    rw [retained]
    simp
  refine ⟨earlier, mid, later, last, aged_reached, restarted, run, rest, kept, pulls, idle, ?_⟩
  refine (delivered_after_restart_iff restarted run rest undisturbed (List.mem_singleton.mpr rfl)
    (Nat.le_of_eq published.symm) kept pulls idle).mpr ?_
  decide

/-- **A message published after a restart of the plane is suppressed**: it is retained, and
the instance pulls ten times, but its cursor is from the plane before. -/
theorem renewed_suppressed : ∃ earlier mid later last,
    (∃ moments, Run echo.start moments aged) ∧ aged.step .restart = some renewed ∧
    Run renewed earlier mid ∧ Run mid later last ∧
    (∀ moment ∈ earlier ++ later, moment.Undisturbed () "orders") ∧
    "orders" ∈ (aged.bridges ()).topics ∧ (1, "c") ∈ last.plane.retained "orders" ∧
    10 ≤ pullsOf () later ∧ (last.bridges ()).response = none ∧
    ⟨"orders", 1, "c"⟩ ∉ receivedSince renewed () (earlier ++ later) := by
  obtain ⟨earlier, mid, later, last, run, rest, undisturbed, -, retained, pulls, idle, received⟩ :=
    renewed_run
  refine ⟨earlier, mid, later, last, aged_reached, rfl, run, rest, undisturbed,
    List.mem_singleton.mpr rfl, ?_, pulls, idle, ?_⟩
  · rw [retained]
    simp
  · rw [received]
    simp

/-- Two hosts, of which each binds its admin API to a wildcard address. -/
def wildcards : Deployment Bool String :=
  consumers (fun second => if second then "4b1c" else "9f30") fun _ => some "0.0.0.0:9000"

/-- Two hosts with admin addresses of their own. -/
def neighbours : Deployment Bool String :=
  consumers (fun second => if second then "4b1c" else "9f30") fun second =>
    some (if second then "10.0.0.12:9000" else "10.0.0.11:9000")

/-- **Hosts with one wildcard address take messages from each other.** -/
theorem wildcards_dependent : ¬Independent wildcards.start false true "orders" :=
  not_independent_of_shared (by decide) rfl

/-- Hosts with addresses of their own do not. -/
theorem neighbours_independent : Independent neighbours.start false true "orders" :=
  (independent_iff neighbours (by decide) "orders" (by decide) (by decide) (by decide)
    (by decide) (by decide)).mpr (by simp [neighbours, consumers])

end Sample

end Sohara
