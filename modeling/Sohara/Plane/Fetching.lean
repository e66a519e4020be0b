import Sohara.Plane.Bridge
import Mathlib.Data.List.Count

/-! # What bridged instances fetch

The plane of a cluster goes through the calls that the events make on it, so what an
instance fetches is what the mailboxes deliver under its id. Under one id no message is
handed out twice. An instance that is alone with its id, and loses no response that
carries anything, passes over nothing that is still retained, and ten pulls reach every
message.
-/

namespace Sohara

open Journal Async

section Histories

variable {P : Type} {inner : Mailboxes P} {calls more : List (RelayCall P)}

theorem mailboxesAfter_append : mailboxesAfter inner (calls ++ more) =
    mailboxesAfter (mailboxesAfter inner calls) more :=
  List.foldl_append ..

theorem relayHistory_append : relayHistory inner (calls ++ more) =
    relayHistory inner calls ++ relayHistory (mailboxesAfter inner calls) more := by
  induction calls generalizing inner with
  | nil => rfl
  | cons call rest ih =>
      exact congrArg (List.cons _) ih

theorem posted_append (topic : String) :
    posted (calls ++ more) topic = posted calls topic ++ posted more topic :=
  List.flatMap_append ..

/-- Calls leave the mailboxes of the extended logs. -/
theorem holds_mailboxesAfter {log : String → List P} (holds : Mailboxes.Holds log inner)
    (calls : List (RelayCall P)) :
    Mailboxes.Holds (fun topic => log topic ++ posted calls topic)
      (mailboxesAfter inner calls) := by
  induction calls using List.reverseRecOn with
  | nil =>
      simp only [posted, List.flatMap_nil, List.append_nil]
      exact holds
  | append_singleton calls call ih =>
      rw [mailboxesAfter_snoc]
      have extended := holds_perform ih call
      simpa only [posted_snoc, List.append_assoc] using extended

end Histories

namespace Cluster

variable {ι P : Type} [DecidableEq ι]

/-- The steps that an event makes on the plane. -/
def Moment.steps (moment : Moment ι P) : List (RelayStep P) :=
  relayHistory moment.cluster.plane moment.calls

/-- The numbered payloads that an event hands to a pull of an instance on a topic. -/
def Moment.fetchedOn (instance_ : ι) (topic : String) (moment : Moment ι P) : List (Nat × P) :=
  ((moment.fetched instance_).filter fun message => message.topic = topic).map fun message =>
    (message.seq, message.payload)

/-- The event of a moment is not a restart. -/
def Moment.Running (moment : Moment ι P) : Prop := moment.event ≠ .restart

variable {first last cluster : Cluster ι P} {moments : List (Moment ι P)} {moment : Moment ι P}
  {instance_ : ι} {topic : String}

/-- The plane goes through the calls of the events. -/
theorem Run.history (run : Run first moments last)
    (running : ∀ moment ∈ moments, moment.Running) :
    relayHistory first.plane (moments.flatMap Moment.calls) = moments.flatMap Moment.steps ∧
      last.plane = mailboxesAfter first.plane (moments.flatMap Moment.calls) := by
  induction run with
  | nil => exact ⟨rfl, rfl⟩
  | @snoc moments cluster next event run stepped ih =>
      obtain ⟨history, plane⟩ := ih fun moment member =>
        running moment (List.mem_append_left _ member)
      have moved := plane_step stepped
        (running ⟨cluster, event⟩ (List.mem_append_right _ List.mem_cons_self))
      rw [List.flatMap_append, List.flatMap_append, List.flatMap_singleton,
        List.flatMap_singleton, relayHistory_append, history, ← plane, mailboxesAfter_append,
        ← plane]
      exact ⟨rfl, moved⟩

/-- What an instance fetches on a topic is delivered under its id. -/
theorem seen_steps (fetched : moment.fetchedOn instance_ topic ≠ []) :
    seen (moment.cluster.bridges instance_).subscriber topic moment.steps =
      moment.fetchedOn instance_ topic := by
  obtain ⟨cluster, event⟩ := moment
  cases event with
  | pull other =>
      by_cases same : other = instance_
      · subst same
        simp [Moment.fetchedOn, Moment.fetched, Moment.steps, Moment.calls, relayHistory, seen,
          deliveries, RelayStep.delivered, RelayCall.isPullOf, RelayStep.response,
          RelayCall.perform, answer]
      · exact absurd (by simp [Moment.fetchedOn, Moment.fetched, same]) fetched
  | _ => exact absurd rfl fetched

/-- The mailboxes hold what has been posted, and what has been handed out under an id
comes in its order. -/
theorem Run.tracked (run : Run first moments last) (started : first.plane = {})
    (running : ∀ moment ∈ moments, moment.Running) (subscriber topic : String) :
    Mailboxes.Holds (posted (moments.flatMap Moment.calls)) last.plane ∧
      Follows (posted (moments.flatMap Moment.calls) topic)
        (last.plane.floor subscriber topic)
        (moments.flatMap fun moment => seen subscriber topic moment.steps) := by
  obtain ⟨history, plane⟩ := run.history running
  rw [started] at history plane
  have along := Sohara.tracked (moments.flatMap Moment.calls) subscriber topic
  have collected : seen subscriber topic (moments.flatMap Moment.steps) =
      moments.flatMap fun moment => seen subscriber topic moment.steps := by
    unfold seen deliveries
    rw [List.flatMap_assoc, List.map_flatMap]
  rwa [history, collected, ← plane] at along

/-- Under one id, a number of a topic is handed out at one moment only. -/
theorem Run.moment_unique (run : Run first moments last) (started : first.plane = {})
    (running : ∀ moment ∈ moments, moment.Running) {subscriber : String}
    {one other : Moment ι P} {entry entry' : Nat × P} (here : one ∈ moments)
    (there : other ∈ moments) (handed : entry ∈ seen subscriber topic one.steps)
    (handed' : entry' ∈ seen subscriber topic other.steps) (same : entry.1 = entry'.1) :
    one = other := by
  obtain ⟨-, follows⟩ := run.tracked started running subscriber topic
  have distinct := follows.increasing.imp fun less => Nat.ne_of_lt less
  have apart := (List.pairwise_flatMap.mp distinct).2
  have symmetric : Std.Symm fun one other : Moment ι P =>
      ∀ entry ∈ seen subscriber topic one.steps, ∀ entry' ∈ seen subscriber topic other.steps,
        entry.1 ≠ entry'.1 :=
    ⟨fun one other apart entry member entry' member' same =>
      apart entry' member' entry member same.symm⟩
  by_contra different
  exact apart.forall here there different entry handed entry' handed' same

/-- How far an instance has come on a topic, counting the response in flight. -/
def reach (cluster : Cluster ι P) (instance_ : ι) (topic : String) : Nat :=
  max (cluster.plane.floor (cluster.bridges instance_).subscriber topic)
    ((cluster.bridges instance_).settled topic)

/-- No other instance pulls under the id of this one, and no response to it is lost while
the mailbox retains something that it has not been handed. -/
structure Moment.Undisturbed (instance_ : ι) (topic : String) (moment : Moment ι P) : Prop where
  running : moment.event ≠ .restart
  alone : ∀ other, moment.event = .pull other ∨ moment.event = .miss other →
    (moment.cluster.bridges other).subscriber = (moment.cluster.bridges instance_).subscriber →
      other = instance_
  spared : moment.event = .miss instance_ → ∀ entry ∈ moment.cluster.plane.retained topic,
    entry.1 ≤ moment.cluster.reach instance_ topic

/-- What an event does to how far an instance has come on the log of a topic: the instance
visits the log, at least once if it pulls the topic. -/
def Advances (log : List P) (moment : Moment ι P) (next : Cluster ι P) (instance_ : ι)
    (topic : String) : Prop :=
  ∃ afters, (∀ after ∈ afters, after ≤ moment.cluster.reach instance_ topic) ∧
    (moment.event = .pull instance_ → log ≠ [] →
      topic ∈ (moment.cluster.bridges instance_).topics → afters ≠ []) ∧
    moment.fetchedOn instance_ topic =
      (visits relayCap relayBatch log (moment.cluster.reach instance_ topic) afters).1 ∧
    next.reach instance_ topic =
      (visits relayCap relayBatch log (moment.cluster.reach instance_ topic) afters).2

section Advancing

variable {next : Cluster ι P} {event : ClusterEvent ι P} {log : String → List P}

/-- Only a pull changes the cursor an instance settles at. -/
theorem settled_step (stepped : cluster.step event = some next) (topic : String)
    (quiet : event ≠ .pull instance_) :
    (next.bridges instance_).settled topic = (cluster.bridges instance_).settled topic := by
  have moved := bridgeStep stepped instance_
  generalize next.bridges instance_ = bridge at moved
  cases moved with
  | pull idle => exact absurd rfl quiet
  | apply response awaited => simp [RelayBus.settled, RelayBus.applyResponse, awaited]
  | local_ _ bus other => rfl

/-- An instance that neither pulls nor has its pull answered stays where it is, unless
another one pulls under its id. -/
theorem advances_of_quiet {log : List P} {moment : Moment ι P}
    (unfetched : moment.fetchedOn instance_ topic = [])
    (stays : next.reach instance_ topic = moment.cluster.reach instance_ topic)
    (quiet : moment.event ≠ .pull instance_) : Advances log moment next instance_ topic :=
  ⟨[], by simp, fun pulling => absurd pulling quiet, unfetched, stays⟩

/-- The cursors with which an instance asks for a topic. -/
theorem eq_cursor_of_asked {bridge : RelayBus P} {after : Nat}
    (asking : after ∈ Mailboxes.asked topic bridge.requestPull) : after = bridge.cursor topic := by
  obtain ⟨subscription, listed, rfl⟩ := List.mem_map.mp asking
  obtain ⟨listed, named⟩ := List.mem_filter.mp listed
  obtain ⟨on, -, rfl⟩ := List.mem_map.mp listed
  exact congrArg bridge.cursor (of_decide_eq_true named)

theorem asked_ne_nil {bridge : RelayBus P} (subscribed : topic ∈ bridge.topics) :
    Mailboxes.asked topic bridge.requestPull ≠ [] := by
  have asking : bridge.cursor topic ∈ Mailboxes.asked topic bridge.requestPull :=
    List.mem_map.mpr ⟨(topic, bridge.cursor topic),
      List.mem_filter.mpr ⟨List.mem_map.mpr ⟨topic, subscribed, rfl⟩, decide_eq_true rfl⟩, rfl⟩
  exact List.ne_nil_of_mem asking

omit [DecidableEq ι] in
theorem reach_of_idle (idle : (cluster.bridges instance_).response = none) :
    cluster.reach instance_ topic =
      max ((cluster.bridges instance_).cursor topic)
        (cluster.plane.floor (cluster.bridges instance_).subscriber topic) := by
  unfold reach RelayBus.settled
  rw [idle, Nat.max_comm]

omit [DecidableEq ι] in
/-- The visits of a pull start where the instance has come to. -/
theorem visits_of_idle {log : List P} (idle : (cluster.bridges instance_).response = none)
    (filled : log ≠ [])
    (asking : Mailboxes.asked topic (cluster.bridges instance_).requestPull ≠ []) :
    visits relayCap relayBatch log
        (cluster.plane.floor (cluster.bridges instance_).subscriber topic)
        (Mailboxes.asked topic (cluster.bridges instance_).requestPull) =
      visits relayCap relayBatch log (cluster.reach instance_ topic)
        (Mailboxes.asked topic (cluster.bridges instance_).requestPull) := by
  rw [reach_of_idle idle]
  exact visits_max filled asking fun other => eq_cursor_of_asked

omit [DecidableEq ι] in
theorem asked_le_reach (idle : (cluster.bridges instance_).response = none) :
    ∀ after ∈ Mailboxes.asked topic (cluster.bridges instance_).requestPull,
      after ≤ cluster.reach instance_ topic := by
  intro after asking
  rw [reach_of_idle idle, eq_cursor_of_asked asking]
  exact Nat.le_max_left _ _

theorem pull_eq (stepped : cluster.step (.pull instance_) = some next) :
    next = cluster.asking instance_ := by
  have idle := idle_of_pull stepped
  simp only [step, idle] at stepped
  cases stepped
  rfl

omit [DecidableEq ι] in
variable (instance_) in
theorem pulls_answer (holds : Mailboxes.Holds log cluster.plane) :
    Mailboxes.Pulls log (cluster.bridges instance_).subscriber
      (cluster.bridges instance_).requestPull cluster.plane (cluster.answer instance_).1
      (cluster.answer instance_).2 :=
  holds.relayPull _ _

/-- A pull visits the log from where the instance has come to. -/
theorem advances_of_pull (holds : Mailboxes.Holds log cluster.plane)
    (stepped : cluster.step (.pull instance_) = some next) :
    Advances (log topic) ⟨cluster, .pull instance_⟩ next instance_ topic := by
  have idle := idle_of_pull stepped
  have pulls := pulls_answer instance_ holds
  have fetched : Moment.fetchedOn instance_ topic ⟨cluster, .pull instance_⟩ =
      (visits relayCap relayBatch (log topic)
        (cluster.plane.floor (cluster.bridges instance_).subscriber topic)
        (Mailboxes.asked topic (cluster.bridges instance_).requestPull)).1 := by
    unfold Moment.fetchedOn Moment.fetched
    simp only [if_true]
    rw [pulls.messages topic, List.map_map]
    exact List.map_id _
  have floor := (pulls.floor (cluster.bridges instance_).subscriber topic).trans (if_pos rfl)
  have reached : next.reach instance_ topic =
      max ((cluster.answer instance_).2.floor (cluster.bridges instance_).subscriber topic)
        (if log topic = [] ∨ Mailboxes.asked topic (cluster.bridges instance_).requestPull = [] then
          (cluster.bridges instance_).cursor topic
        else (cluster.answer instance_).2.floor (cluster.bridges instance_).subscriber topic) := by
    unfold reach
    rw [pull_eq stepped]
    unfold asking setBridge
    simp only [Function.update_self, RelayBus.settled, RelayBus.cursor_applyResponse,
      pulls.next topic]
    split <;> rfl
  by_cases quiet : log topic = [] ∨
    Mailboxes.asked topic (cluster.bridges instance_).requestPull = []
  · have still : visits relayCap relayBatch (log topic)
        (cluster.plane.floor (cluster.bridges instance_).subscriber topic)
        (Mailboxes.asked topic (cluster.bridges instance_).requestPull) =
        ([], cluster.plane.floor (cluster.bridges instance_).subscriber topic) := by
      rcases quiet with empty | silent
      · rw [empty, visits_nil]
      · rw [silent]
        rfl
    refine ⟨[], by simp, fun _ filled subscribed => ?_, ?_, ?_⟩
    · exact absurd quiet (not_or.mpr ⟨filled, asked_ne_nil subscribed⟩)
    · rw [fetched, still]
      rfl
    · rw [reached, floor, if_pos quiet, still]
      show _ = cluster.reach instance_ topic
      rw [reach_of_idle idle, Nat.max_comm]
  · obtain ⟨filled, asking⟩ := not_or.mp quiet
    have moved := visits_of_idle idle filled asking
    refine ⟨_, asked_le_reach idle, fun _ _ _ => asking, ?_, ?_⟩
    · rw [fetched, moved]
    · rw [reached, if_neg quiet, Nat.max_self, floor, moved]

/-- A response without anything for the instance is lost without harm. -/
theorem reach_of_miss (holds : Mailboxes.Holds log cluster.plane)
    (stepped : cluster.step (.miss instance_) = some next)
    (spared : ∀ entry ∈ cluster.plane.retained topic,
      entry.1 ≤ cluster.reach instance_ topic) :
    next.reach instance_ topic = cluster.reach instance_ topic := by
  simp only [step] at stepped
  split at stepped
  · cases stepped
  next idle =>
    cases stepped
    have floor := ((pulls_answer instance_ holds).floor
      (cluster.bridges instance_).subscriber topic).trans (if_pos rfl)
    rw [holds.retained_eq] at spared
    have reached := @reach_of_idle ι P cluster instance_ topic idle
    have after : reach { cluster with plane := (cluster.answer instance_).2 } instance_ topic =
        max ((cluster.bridges instance_).cursor topic)
          ((cluster.answer instance_).2.floor (cluster.bridges instance_).subscriber topic) :=
      reach_of_idle idle
    by_cases quiet : log topic = [] ∨
      Mailboxes.asked topic (cluster.bridges instance_).requestPull = []
    · have still : (cluster.answer instance_).2.floor (cluster.bridges instance_).subscriber topic =
          cluster.plane.floor (cluster.bridges instance_).subscriber topic := by
        rw [floor]
        rcases quiet with empty | silent
        · rw [empty, visits_nil]
        · rw [silent]
          rfl
      rw [after, still, reached]
    · obtain ⟨filled, asking⟩ := not_or.mp quiet
      rw [after, floor, visits_of_idle idle filled asking,
        visits_of_drained relayCap_pos relayBatch_pos (asked_le_reach idle) spared]
      dsimp only
      rw [reached]
      omega

/-- Every undisturbed event moves an instance by visits of the log. -/
theorem advances (holds : Mailboxes.Holds log cluster.plane)
    (stepped : cluster.step event = some next)
    (undisturbed : Moment.Undisturbed instance_ topic ⟨cluster, event⟩) :
    Advances (log topic) ⟨cluster, event⟩ next instance_ topic := by
  by_cases pulling : event = .pull instance_
  · subst pulling
    exact advances_of_pull holds stepped
  have settled := settled_step stepped topic pulling
  have kept := (Run.kept (.snoc .nil stepped) instance_).1
  have unfetched : Moment.fetchedOn instance_ topic ⟨cluster, event⟩ = [] := by
    unfold Moment.fetchedOn Moment.fetched
    split
    · next other same =>
        rw [if_neg fun equal => pulling (same.trans (by rw [equal]))]
        rfl
    · rfl
  refine advances_of_quiet unfetched ?_ pulling
  by_cases missing : event = .miss instance_
  · subst missing
    exact reach_of_miss holds stepped (undisturbed.spared rfl)
  unfold reach
  rw [settled, kept]
  congr 1
  have other_floor (other : ι) (asks : event = .pull other ∨ event = .miss other) :
      (cluster.answer other).2.floor (cluster.bridges instance_).subscriber topic =
        cluster.plane.floor (cluster.bridges instance_).subscriber topic := by
    refine ((pulls_answer other holds).floor _ topic).trans (if_neg fun same => ?_)
    obtain rfl := undisturbed.alone other asks same.symm
    exact asks.elim pulling missing
  rw [plane_step stepped undisturbed.running]
  cases event with
  | pull other => exact other_floor other (.inl rfl)
  | miss other => exact other_floor other (.inr rfl)
  | post index =>
      obtain ⟨⟨on, payload⟩, found, -⟩ := Option.bind_eq_some_iff.mp stepped
      simp only [Moment.calls, found]
      rfl
  | gateway on payload => cases on <;> rfl
  | restart => exact absurd rfl undisturbed.running
  | _ => rfl

end Advancing

section Reaching

variable {mid : Cluster ι P} {earlier later : List (Moment ι P)}

theorem Run.append (run : Run first earlier mid) (rest : Run mid later last) :
    Run first (earlier ++ later) last := by
  induction rest with
  | nil => rwa [List.append_nil]
  | snoc rest stepped ih =>
      rw [← List.append_assoc]
      exact .snoc ih stepped

/-- Whether a moment is a pull of an instance. -/
def Moment.isPullOf (instance_ : ι) (moment : Moment ι P) : Bool :=
  match moment.event with
  | .pull other => other = instance_
  | _ => false

/-- The number of pulls of an instance. -/
def pullsOf (instance_ : ι) (moments : List (Moment ι P)) : Nat :=
  moments.countP (Moment.isPullOf instance_)

/-- An undisturbed instance passes over nothing that is retained beyond where it starts. -/
theorem Run.covers (run : Run first moments last) (started : first.plane = {})
    (undisturbed : ∀ moment ∈ moments, moment.Undisturbed instance_ topic) :
    Covers relayCap (first.reach instance_ topic) (posted (moments.flatMap Moment.calls) topic)
        (last.reach instance_ topic) (moments.flatMap (Moment.fetchedOn instance_ topic)) ∧
      ∀ entry ∈ moments.flatMap (Moment.fetchedOn instance_ topic),
        first.reach instance_ topic < entry.1 := by
  induction run with
  | nil => exact ⟨.base, by simp⟩
  | @snoc moments cluster next event run stepped ih =>
      have earlier : ∀ moment ∈ moments, moment.Undisturbed instance_ topic :=
        fun moment member => undisturbed moment (List.mem_append_left _ member)
      obtain ⟨covers, beyond⟩ := ih earlier
      obtain ⟨holds, -⟩ := run.tracked started (fun moment member =>
        (earlier moment member).running) "" topic
      obtain ⟨afters, trusting, -, fetched, reached⟩ := advances holds stepped
        (undisturbed _ (List.mem_append_right _ List.mem_cons_self))
      rw [List.flatMap_append, List.flatMap_append, List.flatMap_singleton,
        List.flatMap_singleton, posted_append, fetched, reached]
      refine ⟨(covers.visits relayBatch trusting).append _, ?_⟩
      rintro ⟨number, item⟩ member
      rcases List.mem_append.mp member with old | new
      · exact beyond _ old
      · exact Nat.lt_of_le_of_lt covers.above (lt_of_mem_visits new)

/-- Each pull brings an instance a batch closer to a published message. -/
theorem Run.progress {log : String → List P} (run : Run mid later last)
    (holds : Mailboxes.Holds log mid.plane)
    (undisturbed : ∀ moment ∈ later, moment.Undisturbed instance_ topic)
    (subscribed : topic ∈ (mid.bridges instance_).topics) {seq : Nat} (positive : 0 < seq)
    (published : seq ≤ (log topic).length) :
    ∃ log, Mailboxes.Holds log last.plane ∧ seq ≤ (log topic).length ∧
      (seq ≤ last.reach instance_ topic ∨ pullsOf instance_ later = 0 ∨
        seq + relayBatch * pullsOf instance_ later ≤ last.reach instance_ topic + relayCap) := by
  induction run with
  | nil => exact ⟨log, holds, published, .inr (.inl rfl)⟩
  | @snoc moments cluster next event run stepped ih =>
      obtain ⟨log, holds, published, near⟩ := ih fun moment member =>
        undisturbed moment (List.mem_append_left _ member)
      have now := undisturbed ⟨cluster, event⟩ (List.mem_append_right _ List.mem_cons_self)
      refine ⟨_, plane_step stepped now.running ▸ holds_mailboxesAfter holds _,
        Nat.le_trans published (by simp), ?_⟩
      obtain ⟨afters, -, visiting, -, reached⟩ := advances holds stepped now
      have forward : cluster.reach instance_ topic ≤ next.reach instance_ topic := by
        rw [reached]
        exact le_visits
      have counted : pullsOf instance_ (moments ++ [⟨cluster, event⟩]) =
          pullsOf instance_ moments +
            if Moment.isPullOf instance_ ⟨cluster, event⟩ then 1 else 0 := by
        unfold pullsOf
        rw [List.countP_append, List.countP_singleton]
      by_cases pulling : event = .pull instance_
      · subst pulling
        have filled : log topic ≠ [] := by
          intro empty
          rw [empty] at published
          exact absurd published (Nat.not_le_of_lt positive)
        obtain ⟨first, rest, rfl⟩ := List.exists_cons_of_ne_nil
          (visiting rfl filled ((run.kept instance_).2 ▸ subscribed))
        have close : seq ≤ next.reach instance_ topic ∨
            start relayCap (log topic) (cluster.reach instance_ topic) + relayBatch ≤
              next.reach instance_ topic := by
          rw [reached]
          rcases visit_advances relayCap relayBatch published positive
            with found | closer
          · exact .inl (Nat.le_trans found le_visits)
          · exact .inr (Nat.le_trans closer le_visits)
        rw [counted, show Moment.isPullOf instance_ ⟨cluster, .pull instance_⟩ = true by
          simp [Moment.isPullOf], if_pos rfl, Nat.mul_add]
        unfold start at close
        rcases close with found | closer
        · exact .inl found
        · rcases near with found | none_ | closer'
          · exact .inl (Nat.le_trans found forward)
          · rw [none_]
            right
            right
            omega
          · right
            right
            omega
      · have other : Moment.isPullOf instance_ ⟨cluster, event⟩ = false := by
          unfold Moment.isPullOf
          split
          · next other same =>
              exact decide_eq_false fun equal => pulling (same.trans (by rw [equal]))
          · rfl
        rw [counted, other]
        rcases near with found | none_ | closer
        · exact .inl (Nat.le_trans found forward)
        · exact .inr (.inl none_)
        · exact .inr (.inr (Nat.le_trans closer (Nat.add_le_add_right forward _)))

/-- What an instance fetches is a numbered payload of the log of its topic. -/
theorem Run.fetched_numbered (run : Run first moments last) (started : first.plane = {})
    (running : ∀ moment ∈ moments, moment.Running) {entry : Nat × P}
    (fetched : entry ∈ moments.flatMap (Moment.fetchedOn instance_ topic)) :
    entry ∈ numbered (posted (moments.flatMap Moment.calls) topic) := by
  obtain ⟨moment, member, handed⟩ := List.mem_flatMap.mp fetched
  obtain ⟨-, follows⟩ := run.tracked started running
    (moment.cluster.bridges instance_).subscriber topic
  refine follows.taken entry (List.mem_flatMap.mpr ⟨moment, member, ?_⟩)
  rwa [seen_steps (List.ne_nil_of_mem handed)]

/-- **Ten pulls reach every message that is still retained**: an undisturbed instance
fetches exactly those beyond where it starts. -/
theorem Run.fetches (run : Run first earlier mid) (rest : Run mid later last)
    (started : first.plane = {})
    (undisturbed : ∀ moment ∈ earlier ++ later, moment.Undisturbed instance_ topic)
    (subscribed : topic ∈ (first.bridges instance_).topics) {seq : Nat} {payload : P}
    (published : seq ≤ mid.plane.published topic)
    (kept : (seq, payload) ∈ last.plane.retained topic) (pulls : 10 ≤ pullsOf instance_ later) :
    (seq, payload) ∈ (earlier ++ later).flatMap (Moment.fetchedOn instance_ topic) ↔
      first.reach instance_ topic < seq := by
  have whole := run.append rest
  have running : ∀ moment ∈ earlier ++ later, moment.Running := fun moment member =>
    (undisturbed moment member).running
  obtain ⟨covers, beyond⟩ := whole.covers started undisturbed
  obtain ⟨held, -⟩ := whole.tracked started running "" topic
  rw [held.retained_eq, mem_window] at kept
  obtain ⟨newer, listed⟩ := kept
  refine ⟨fun fetched => beyond _ fetched, fun above => ?_⟩
  obtain ⟨holds, -⟩ := run.tracked started (fun moment member =>
    running moment (List.mem_append_left _ member)) "" topic
  rw [holds.published_eq] at published
  obtain ⟨log, -, -, near⟩ := rest.progress holds (fun moment member =>
    undisturbed moment (List.mem_append_right _ member)) ((run.kept instance_).2 ▸ subscribed)
    (le_length_of_mem_numbered listed).1 published
  have reached : seq ≤ last.reach instance_ topic := by
    have batches : relayBatch * 10 = relayCap := rfl
    have enough := Nat.mul_le_mul_left relayBatch pulls
    omega
  rcases covers.covered seq above reached with found | overflow
  · obtain ⟨⟨number, other⟩, fetched, rfl⟩ := List.mem_map.mp found
    have same := (mem_numbered.mp (whole.fetched_numbered started running fetched)).2
    rw [(mem_numbered.mp listed).2] at same
    cases same
    exact fetched
  · omega

end Reaching

end Cluster

end Sohara
