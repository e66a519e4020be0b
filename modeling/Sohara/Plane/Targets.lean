import Sohara.Ordering.Arrangements
import Sohara.Core.Equality
import Sohara.Plane.Declarations

/-! # The targets of a route

A request of a route goes to an instance of its flow group that its node has reported as
running, at the trigger address of the report. Whatever the arrangement, every such
instance is there once. Without a sticky key the targets take turns: as long as they stay
the same, the turns are shared evenly, whatever else the registry serves in between. A
sticky key arranges them by a hash, so that an instance that leaves disturbs no other.
-/

namespace Sohara

open Transition

namespace Assoc

variable {V : Type} {entries : Assoc V} {key : V → String}

theorem nodup_erase (distinct : (entries.map Prod.fst).Nodup) (removed : String) :
    ((erase removed entries).map Prod.fst).Nodup := by
  unfold erase
  exact distinct.sublist (List.filter_sublist.map Prod.fst)

theorem nodup_collect (elements : List V) : ((collect key elements).map Prod.fst).Nodup := by
  rw [collect_eq_ofList]
  exact @nodup_foldl_insert V _ [] List.nodup_nil

/-- The values of a map with their own keys are listed once. -/
theorem pairwise_values (hash : HashOrder) (distinct : (entries.map Prod.fst).Nodup)
    (keyed : entries.Keyed key) :
    (entries.values hash).Pairwise fun one other => key one ≠ key other := by
  have listed : (hash.order (entries.map Prod.fst)).Nodup :=
    (hash.perm _).nodup_iff.mpr distinct
  refine List.Pairwise.filterMap _ (fun name other different one present two found => ?_) listed
  rw [keyed name one present, keyed other two found]
  exact different

end Assoc

/-- The turns of the route arrange its targets: no sticky key is hashed. -/
def RouteDecl.Rotates (route : RouteDecl) (hashKey : Option String) : Prop :=
  route.strategy = .roundRobin ∨ hashKey = none

instance (route : RouteDecl) (hashKey : Option String) : Decidable (route.Rotates hashKey) :=
  inferInstanceAs (Decidable (_ ∨ _))

/-- The last heartbeat of a node among the events. -/
def lastBeat (node : String) (events : List RegistryEvent) : Option Heartbeat :=
  events.foldl (fun last event =>
    match event with
    | .heartbeat _ _ beat => if beat.nodeId = node then some beat else last
    | _ => last) none

namespace Inner

section Definitions

/-- The instances are declared once, each under its own id. -/
structure Formed (inner : Inner) : Prop where
  distinct : (inner.instances.map Prod.fst).Nodup
  keyed : inner.Keyed

/-- An instance of the flow group of a route that its own node has reported as running, with
the trigger address of the report. -/
def Eligible (inner : Inner) (route : RouteDecl) (id address : String) : Prop :=
  ∃ decl report, inner.instances.get? id = some decl ∧ decl.flowId = some route.flowId ∧
    inner.actualOf decl.node id = some report ∧ report.state = .running ∧
    report.trigger = some address

/-- The target of a declared instance: it is reported as running, with an address. -/
def targetOf (inner : Inner) (decl : InstanceDecl) : Option (String × String) := do
  let report ← inner.actualOf decl.node decl.id
  if report.state ≠ .running then none
  else
    let trigger ← report.trigger
    return (decl.id, trigger)

/-- The number of turns that a route has taken. -/
def turn (inner : Inner) (id : String) : Nat :=
  (inner.roundRobin.get? id).getD 0

/-- The targets of a request in their order, each with its instance. -/
def orderedTargets (hash : HashOrder) (hashKeyOrder : String → String → Nat) (route : RouteDecl)
    (hashKey : Option String) (inner : Inner) : List (String × String) :=
  let targets := inner.runningTargets hash route
  match route.strategy, hashKey with
  | .hash, some key =>
      targets.mergeSort fun left right => hashKeyOrder key left.1 ≤ hashKeyOrder key right.1
  | _, _ => targets.rotateLeft (inner.turn route.id % targets.length)

/-- The target that an event places first when it takes a turn of a route. -/
def placedFirst (id : String) (inner : Inner) : RegistryEvent → Option (String × String)
  | .call (.selectTargets hash hashKeyOrder route hashKey) =>
      if route.id = id ∧ route.Rotates hashKey then
        (inner.orderedTargets hash hashKeyOrder route hashKey).head?
      else none
  | _ => none

/-- The targets that the turns of a route place first, event after event. -/
def placements (id : String) (inner : Inner) : List RegistryEvent → List (String × String)
  | [] => []
  | event :: rest => (inner.placedFirst id event).toList ++ (inner.serve event).placements id rest

/-- A registry that has started from its file and served events. -/
def Reachable (inner : Inner) : Prop :=
  ∃ flows instances routes events, inner = served flows instances routes events

/-- Every turn of a route finds the same targets in the same order. -/
def Steady (id : String) (targets : List (String × String)) (inner : Inner)
    (events : List RegistryEvent) : Prop :=
  ∀ before hash hashKeyOrder route hashKey after,
    events = before ++ .call (.selectTargets hash hashKeyOrder route hashKey) :: after →
    route.id = id → route.Rotates hashKey →
    (before.foldl serve inner).runningTargets hash route = targets

end Definitions

variable {inner : Inner} {route : RouteDecl} {hash : HashOrder}
  {hashKeyOrder : String → String → Nat} {hashKey : Option String} {id address : String}

section Forming

theorem formed_load (flows : List FlowDecl) (instances : List InstanceDecl)
    (routes : List RouteDecl) : (load flows instances routes).Formed :=
  ⟨Assoc.nodup_collect instances, keyed_load flows instances routes⟩

theorem nodup_perform (distinct : (inner.instances.map Prod.fst).Nodup) (call : RegistryCall) :
    ((inner.perform call).instances.map Prod.fst).Nodup := by
  cases call with
  | declareInstance decl => exact Assoc.nodup_insert distinct
  | removeInstance removed => exact Assoc.nodup_erase distinct removed
  | setDesired name desired =>
      unfold perform setDesired
      dsimp only
      split
      · exact distinct
      · exact Assoc.nodup_insert distinct
  | selectTargets hash hashKeyOrder route hashKey =>
      have same := (agrees_selectTargets hash hashKeyOrder route hashKey inner).instances
      unfold perform
      dsimp only
      rw [same]
      exact distinct
  | _ => exact distinct

theorem Formed.serve (formed : inner.Formed) (event : RegistryEvent) :
    (inner.serve event).Formed := by
  refine ⟨?_, formed.keyed.serve event⟩
  cases event with
  | call call => exact nodup_perform formed.distinct call
  | heartbeat hash time beat =>
      unfold Inner.serve
      dsimp only
      rw [instances_heartbeat]
      exact formed.distinct
  | ack ack => exact formed.distinct

/-- What the registry serves keeps its instances declared once. -/
theorem formed_served (flows : List FlowDecl) (instances : List InstanceDecl)
    (routes : List RouteDecl) (events : List RegistryEvent) :
    (served flows instances routes events).Formed :=
  foldl_keeps (formed_load flows instances routes) (fun _ event formed => formed.serve event)
    events

theorem Reachable.formed (reachable : inner.Reachable) : inner.Formed := by
  obtain ⟨flows, instances, routes, events, rfl⟩ := reachable
  exact formed_served flows instances routes events

end Forming

section Selecting

theorem not_rotates_hash {key : String} (hashes : route.strategy = .hash) :
    ¬ route.Rotates (some key) := by
  rintro (rotates | keyless)
  · rw [hashes] at rotates
    cases rotates
  · cases keyless

theorem rotates_of_unhashed
    (unhashed : ∀ key, route.strategy = .hash → hashKey = some key → False) :
    route.Rotates hashKey := by
  unfold RouteDecl.Rotates
  cases strategy : route.strategy with
  | roundRobin => exact .inl rfl
  | hash => exact .inr (Option.eq_none_iff_forall_ne_some.mpr fun key => unhashed key strategy)

/-- A selection takes a turn of its route, unless it hashes a sticky key or finds no target. -/
theorem selectTargets_snd :
    (inner.selectTargets hash hashKeyOrder route hashKey).2 =
      if route.Rotates hashKey ∧ inner.runningTargets hash route ≠ [] then
        { inner with roundRobin := inner.roundRobin.insert route.id (inner.turn route.id + 1) }
      else inner := by
  unfold selectTargets
  split
  case h_1 none_running =>
    rw [if_neg (fun both => both.2 none_running)]
  case h_2 some_running =>
    unfold orderTargets
    split
    case h_1 key hashes =>
      rw [if_neg fun both => not_rotates_hash hashes both.1]
    case h_2 unhashed =>
      rw [if_pos ⟨rotates_of_unhashed unhashed, some_running⟩]
      rfl

end Selecting

section Reports

variable {other : Inner}

/-- Two registries have the same reports and the same turns. -/
structure Concurs (inner other : Inner) : Prop where
  actual : other.actual = inner.actual
  roundRobin : other.roundRobin = inner.roundRobin

theorem Concurs.trans {first second third : Inner} (one : Concurs first second)
    (two : Concurs second third) : Concurs first third :=
  ⟨two.actual.trans one.actual, two.roundRobin.trans one.roundRobin⟩

theorem concurs_recordEvents (time kind : String) (messages : List String) (inner : Inner) :
    Concurs inner (messages.foldl
      (fun inner message => inner.recordEventLocked time kind message) inner) := by
  induction messages generalizing inner with
  | nil => exact ⟨rfl, rfl⟩
  | cons message rest ih =>
      have one : Concurs inner (inner.recordEventLocked time kind message) := ⟨rfl, rfl⟩
      exact one.trans (ih _)

theorem concurs_queueAll (node : String) (reports : List InstanceReport)
    (declared : List InstanceDecl) (inner : Inner) :
    Concurs inner (declared.foldl (queueFor node reports) inner) := by
  induction declared generalizing inner with
  | nil => exact ⟨rfl, rfl⟩
  | cons decl rest ih =>
      have one : Concurs inner (inner.queueFor node reports decl) := by
        rcases @queueFor_cases inner node reports decl with ⟨same, -⟩ | ⟨op, -, -, same⟩ <;>
          rw [same] <;> exact ⟨rfl, rfl⟩
      exact one.trans (ih _)

/-- A heartbeat replaces the reports of its node and takes no turn. -/
theorem concurs_heartbeat (hash : HashOrder) (time : String) (beat : Heartbeat) :
    Concurs { inner with actual := inner.actual.insert beat.nodeId beat.instances }
      (inner.heartbeat hash time beat).2 := by
  have recorded := concurs_recordEvents time "state"
    (inner.stateTransitions beat.nodeId beat.instances)
    { inner with
      actual := inner.actual.insert beat.nodeId beat.instances
      lastSeen := inner.lastSeen.insert beat.nodeId beat.time }
  have queued := concurs_queueAll beat.nodeId beat.instances
    (inner.declaredFor hash beat.nodeId) (inner.recorded time beat)
  rw [heartbeat_snd]
  exact Concurs.trans ⟨recorded.actual, recorded.roundRobin⟩ queued

theorem actual_perform (call : RegistryCall) (inner : Inner) :
    (inner.perform call).actual = inner.actual := by
  cases call with
  | setDesired name desired =>
      unfold perform setDesired
      dsimp only
      split <;> rfl
  | selectTargets hash hashKeyOrder route hashKey =>
      unfold perform
      dsimp only
      rw [selectTargets_snd]
      split <;> rfl
  | _ => rfl

/-- What is kept of a node is its last heartbeat. -/
theorem get?_actual_served (flows : List FlowDecl) (instances : List InstanceDecl)
    (routes : List RouteDecl) (events : List RegistryEvent) (node : String) :
    (served flows instances routes events).actual.get? node =
      (lastBeat node events).map (·.instances) := by
  induction events using List.reverseRecOn with
  | nil => rfl
  | append_singleton earlier event ih =>
      rw [served_concat]
      unfold lastBeat at ih ⊢
      rw [List.foldl_append]
      cases event with
      | call call =>
          unfold serve
          dsimp only
          rw [actual_perform]
          exact ih
      | heartbeat hash time beat =>
          unfold serve
          dsimp only [List.foldl_cons, List.foldl_nil]
          rw [(concurs_heartbeat hash time beat).actual]
          dsimp only
          rw [Assoc.get?_insert]
          split
          · rfl
          · exact ih
      | ack ack => exact ih

end Reports

section Eligibility

theorem targetOf_eq_some_iff {decl : InstanceDecl} {target : String × String} :
    inner.targetOf decl = some target ↔
      ∃ report, inner.actualOf decl.node decl.id = some report ∧ report.state = .running ∧
        ∃ trigger, report.trigger = some trigger ∧ (decl.id, trigger) = target := by
  unfold targetOf
  constructor
  · intro chosen
    obtain ⟨report, reported, chosen⟩ := Option.bind_eq_some_iff.mp chosen
    split at chosen
    case isTrue => cases chosen
    case isFalse running =>
      obtain ⟨trigger, known, made⟩ := Option.bind_eq_some_iff.mp chosen
      exact ⟨report, reported, not_not.mp running, trigger, known, Option.some.inj made⟩
  · rintro ⟨report, reported, running, trigger, known, made⟩
    refine Option.bind_eq_some_iff.mpr ⟨report, reported, ?_⟩
    rw [if_neg (not_not.mpr running), known, ← made]
    rfl

/-- The eligible instances of a route, with their addresses. -/
theorem mem_runningTargets (keyed : inner.Keyed) :
    (id, address) ∈ inner.runningTargets hash route ↔ inner.Eligible route id address := by
  have targets : inner.runningTargets hash route =
      ((inner.instances.values hash).filter fun decl =>
        decl.flowId = some route.flowId).filterMap inner.targetOf := rfl
  rw [targets, List.mem_filterMap]
  constructor
  · rintro ⟨decl, member, chosen⟩
    obtain ⟨listed, group⟩ := List.mem_filter.mp member
    obtain ⟨name, present⟩ := Assoc.mem_values.mp listed
    obtain ⟨report, reported, running, trigger, known, made⟩ := targetOf_eq_some_iff.mp chosen
    cases made
    rw [← keyed name decl present] at present
    exact ⟨decl, report, present, of_decide_eq_true group, reported, running, known⟩
  · rintro ⟨decl, report, present, group, reported, running, known⟩
    have own := keyed id decl present
    subst own
    refine ⟨decl, List.mem_filter.mpr ⟨Assoc.mem_values.mpr ⟨decl.id, present⟩, ?_⟩, ?_⟩
    · exact decide_eq_true group
    · exact targetOf_eq_some_iff.mpr ⟨report, reported, running, address, known, rfl⟩

/-- No instance is there twice. -/
theorem nodup_runningTargets (formed : inner.Formed) (hash : HashOrder) (route : RouteDecl) :
    ((inner.runningTargets hash route).map Prod.fst).Nodup := by
  have apart := Assoc.pairwise_values hash formed.distinct formed.keyed
  refine List.pairwise_map.mpr (List.Pairwise.filterMap inner.targetOf ?_ (apart.filter _))
  intro one other different target chosen second found
  obtain ⟨_, _, _, _, _, named⟩ := targetOf_eq_some_iff.mp chosen
  obtain ⟨_, _, _, _, _, called⟩ := targetOf_eq_some_iff.mp found
  rw [← named, ← called]
  exact different

/-- The order of the targets is an arrangement of what is eligible. -/
theorem orderedTargets_perm :
    (inner.orderedTargets hash hashKeyOrder route hashKey).Perm
      (inner.runningTargets hash route) := by
  unfold orderedTargets
  dsimp only
  split
  · exact List.mergeSort_perm _ _
  · exact Arrangements.rotateLeft_perm _ _

theorem mem_orderedTargets (hash : HashOrder) (hashKeyOrder : String → String → Nat)
    (route : RouteDecl) (hashKey : Option String) (keyed : inner.Keyed) :
    (id, address) ∈ inner.orderedTargets hash hashKeyOrder route hashKey ↔
      inner.Eligible route id address :=
  orderedTargets_perm.mem_iff.trans (mem_runningTargets keyed)

theorem nodup_orderedTargets (hash : HashOrder) (hashKeyOrder : String → String → Nat)
    (route : RouteDecl) (hashKey : Option String) (formed : inner.Formed) :
    ((inner.orderedTargets hash hashKeyOrder route hashKey).map Prod.fst).Nodup :=
  (orderedTargets_perm.map Prod.fst).nodup_iff.mpr (nodup_runningTargets formed hash route)

/-- A selection answers with the addresses of the ordered targets. -/
theorem selectTargets_fst :
    (inner.selectTargets hash hashKeyOrder route hashKey).1 =
      (inner.orderedTargets hash hashKeyOrder route hashKey).map Prod.snd := by
  unfold selectTargets
  split
  case h_1 none_running =>
    have empty := @orderedTargets_perm inner route hash hashKeyOrder hashKey
    rw [none_running] at empty
    rw [empty.eq_nil]
    rfl
  case h_2 =>
    unfold orderTargets orderedTargets turn
    cases route.strategy <;> cases hashKey <;> rfl

end Eligibility

section Turns

variable {targets : List (String × String)} {event : RegistryEvent} {rest : List RegistryEvent}

theorem Steady.nil : inner.Steady id targets [] := by
  intro before hash hashKeyOrder route hashKey after cut
  cases before <;> cases cut

theorem Steady.cons
    (found : ∀ hash hashKeyOrder route hashKey,
      event = .call (.selectTargets hash hashKeyOrder route hashKey) → route.id = id →
      route.Rotates hashKey → inner.runningTargets hash route = targets)
    (steady : (inner.serve event).Steady id targets rest) :
    inner.Steady id targets (event :: rest) := by
  intro before hash hashKeyOrder route hashKey after cut own rotates
  cases before with
  | nil =>
      cases cut
      exact found hash hashKeyOrder route hashKey rfl own rotates
  | cons first before =>
      cases cut
      exact steady before hash hashKeyOrder route hashKey after rfl own rotates

theorem Steady.tail (steady : inner.Steady id targets (event :: rest)) :
    (inner.serve event).Steady id targets rest := by
  intro before hash hashKeyOrder route hashKey after cut
  exact steady (event :: before) hash hashKeyOrder route hashKey after (congrArg _ cut)

theorem turn_congr {other : Inner} (same : other.roundRobin = inner.roundRobin) :
    other.turn id = inner.turn id := by
  unfold turn
  rw [same]

/-- A turn places the target first that the number of turns names. -/
theorem head?_orderedTargets (rotates : route.Rotates hashKey) :
    (inner.orderedTargets hash hashKeyOrder route hashKey).head? =
      (inner.runningTargets hash route)[
        inner.turn route.id % (inner.runningTargets hash route).length]? := by
  unfold orderedTargets
  dsimp only
  split
  case h_1 key hashes => exact absurd rotates (not_rotates_hash hashes)
  case h_2 => exact Arrangements.head?_rotateLeft_mod _ _

/-- An event takes a turn of a route, which places the target of the turn first, or it leaves
the turns of the route alone. -/
theorem placedFirst_cases (steady : inner.Steady id targets (event :: rest)) :
    (∃ hash route, targets = inner.runningTargets hash route) ∧
        inner.placedFirst id event = targets[inner.turn id % targets.length]? ∧
        (inner.serve event).turn id = inner.turn id + 1 ∨
      inner.placedFirst id event = none ∧ (inner.serve event).turn id = inner.turn id := by
  cases event with
  | ack ack => exact .inr ⟨rfl, rfl⟩
  | heartbeat hash time beat =>
      exact .inr ⟨rfl, turn_congr (concurs_heartbeat hash time beat).roundRobin⟩
  | call call =>
      cases call with
      | setDesired name desired =>
          refine .inr ⟨rfl, turn_congr ?_⟩
          unfold serve perform setDesired
          dsimp only
          split <;> rfl
      | selectTargets hash hashKeyOrder route hashKey =>
          have turned : (inner.serve (.call (.selectTargets hash hashKeyOrder route hashKey))) =
              (inner.selectTargets hash hashKeyOrder route hashKey).2 := rfl
          rw [turned, selectTargets_snd]
          unfold placedFirst
          dsimp only
          by_cases taken : route.id = id ∧ route.Rotates hashKey
          · obtain ⟨own, rotates⟩ := taken
            have found := steady [] hash hashKeyOrder route hashKey rest rfl own rotates
            have found : inner.runningTargets hash route = targets := found
            subst own
            rw [if_pos ⟨rfl, rotates⟩, head?_orderedTargets rotates, found]
            by_cases empty : targets = []
            · refine .inr ⟨by rw [empty]; rfl, ?_⟩
              rw [if_neg fun both => both.2 empty]
            · refine .inl ⟨⟨hash, route, found.symm⟩, rfl, ?_⟩
              rw [if_pos ⟨rotates, empty⟩]
              unfold turn
              dsimp only
              rw [Assoc.get?_insert, if_pos rfl]
              rfl
          · refine .inr ⟨if_neg taken, ?_⟩
            split
            case isFalse => rfl
            case isTrue both =>
              unfold turn
              dsimp only
              rw [Assoc.get?_insert, if_neg fun own => taken ⟨own, both.1⟩]
      | _ => exact .inr ⟨rfl, rfl⟩

/-- **The turns of a route.** As long as they find the same targets, they go round them. -/
theorem placements_eq_cycle (formed : inner.Formed) {events : List RegistryEvent}
    (steady : inner.Steady id targets events) :
    inner.placements id events = [] ∨ (targets.map Prod.fst).Nodup ∧
      ∃ visits, inner.placements id events =
        Arrangements.cycle targets (inner.turn id) visits := by
  induction events generalizing inner with
  | nil => exact .inl rfl
  | cons event rest ih =>
      unfold placements
      have later := ih (formed.serve event) steady.tail
      rcases placedFirst_cases steady with ⟨⟨hash, route, found⟩, placed, next⟩ | ⟨idle, next⟩
      · have distinct := nodup_runningTargets formed hash route
        rw [← found] at distinct
        refine .inr ⟨distinct, ?_⟩
        rw [next] at later
        rw [placed]
        rcases later with none_later | ⟨-, visits, round⟩
        · exact ⟨1, by rw [none_later]; rfl⟩
        · exact ⟨visits + 1, by rw [round]; rfl⟩
      · rw [next] at later
        rw [idle]
        exact later

end Turns

/-- **Fair selection.** In every registry that has started from its file and served events, a
selection answers with one address for each eligible instance of the route and with nothing
else, where a report is one of the last heartbeat of its node. Whatever is served then: as
long as the turns of a route find the same targets in the same order, no target is placed
first more than once oftener than another. -/
theorem selection_fair (flows : List FlowDecl) (instances : List InstanceDecl)
    (routes : List RouteDecl) (events : List RegistryEvent) :
    (∀ hash hashKeyOrder route hashKey,
      ((served flows instances routes events).selectTargets hash hashKeyOrder route hashKey).1 =
          ((served flows instances routes events).orderedTargets hash hashKeyOrder route
            hashKey).map Prod.snd ∧
        (((served flows instances routes events).orderedTargets hash hashKeyOrder route
          hashKey).map Prod.fst).Nodup ∧
        ∀ id address,
          (id, address) ∈ (served flows instances routes events).orderedTargets hash
              hashKeyOrder route hashKey ↔
            (served flows instances routes events).Eligible route id address) ∧
      (∀ node, (served flows instances routes events).actual.get? node =
        (lastBeat node events).map (·.instances)) ∧
      ∀ id targets window,
        Steady id targets (served flows instances routes events) window →
        ∀ first ∈ targets, ∀ second ∈ targets,
          ((served flows instances routes events).placements id window).count first ≤
            ((served flows instances routes events).placements id window).count second + 1 := by
  have formed := formed_served flows instances routes events
  refine ⟨fun hash hashKeyOrder route hashKey => ⟨selectTargets_fst,
    nodup_orderedTargets hash hashKeyOrder route hashKey formed,
    fun id address => mem_orderedTargets hash hashKeyOrder route hashKey formed.keyed⟩,
    get?_actual_served flows instances routes events, ?_⟩
  intro id targets window steady first firstMember second secondMember
  rcases placements_eq_cycle formed steady with idle | ⟨distinct, visits, round⟩
  · rw [idle]
    exact Nat.zero_le _
  · rw [round]
    exact Arrangements.count_cycle_le (List.Nodup.of_map _ distinct) firstMember secondMember _ _

section Leaving

variable {others : Inner} {left key : String}

/-- What is eligible without an instance, in any order. -/
theorem runningTargets_without (formed : inner.Formed) (othersFormed : others.Formed)
    (without : ∀ id address,
      others.Eligible route id address ↔ inner.Eligible route id address ∧ id ≠ left)
    (hash hash' : HashOrder) :
    (others.runningTargets hash' route).Perm
      ((inner.runningTargets hash route).filter fun target => target.1 ≠ left) := by
  refine (List.perm_ext_iff_of_nodup ?_ ?_).mpr fun ⟨id, address⟩ => ?_
  · exact List.Nodup.of_map _ (nodup_runningTargets othersFormed hash' route)
  · exact (List.Nodup.of_map _ (nodup_runningTargets formed hash route)).filter _
  · rw [mem_runningTargets othersFormed.keyed, without, List.mem_filter,
      mem_runningTargets formed.keyed, decide_eq_true_iff]

theorem orderedTargets_hash (sticky : route.strategy = .hash) :
    inner.orderedTargets hash hashKeyOrder route (some key) =
      (inner.runningTargets hash route).mergeSort fun one other =>
        hashKeyOrder key one.1 ≤ hashKeyOrder key other.1 := by
  unfold orderedTargets
  rw [sticky]

/-- No two eligible instances of a route have the same hash with a sticky key. -/
def Apart (inner : Inner) (hashKeyOrder : String → String → Nat) (route : RouteDecl)
    (key : String) : Prop :=
  ∀ one oneAddress other otherAddress, inner.Eligible route one oneAddress →
    inner.Eligible route other otherAddress →
    hashKeyOrder key one = hashKeyOrder key other → one = other

theorem Apart.runningTargets (apart : inner.Apart hashKeyOrder route key)
    (formed : inner.Formed) :
    ∀ one ∈ inner.runningTargets hash route, ∀ other ∈ inner.runningTargets hash route,
      hashKeyOrder key one.1 = hashKeyOrder key other.1 → one = other := by
  intro one oneMember other otherMember same
  have distinct := nodup_runningTargets formed hash route
  refine List.inj_on_of_nodup_map distinct oneMember otherMember ?_
  exact apart one.1 one.2 other.1 other.2 ((mem_runningTargets formed.keyed).mp oneMember)
    ((mem_runningTargets formed.keyed).mp otherMember) same

/-- A sticky key arranges the targets alike in every iteration order of the instances. -/
theorem orderedTargets_iteration (formed : inner.Formed) (sticky : route.strategy = .hash)
    (apart : inner.Apart hashKeyOrder route key) (hash hash' : HashOrder) :
    inner.orderedTargets hash' hashKeyOrder route (some key) =
      inner.orderedTargets hash hashKeyOrder route (some key) := by
  have same : (inner.runningTargets hash' route).Perm
      ((inner.runningTargets hash route).filter fun _ => true) := by
    rw [List.filter_true]
    refine (List.perm_ext_iff_of_nodup ?_ ?_).mpr fun ⟨id, address⟩ => ?_
    · exact List.Nodup.of_map _ (nodup_runningTargets formed hash' route)
    · exact List.Nodup.of_map _ (nodup_runningTargets formed hash route)
    · rw [mem_runningTargets formed.keyed, mem_runningTargets formed.keyed]
  rw [orderedTargets_hash sticky, orderedTargets_hash sticky]
  have sorted := Arrangements.mergeSort_eq_filter
    (fun target : String × String => hashKeyOrder key target.1) same (apart.runningTargets formed)
  rw [sorted, List.filter_true]

/-- A sticky key arranges what is left as before. -/
theorem orderedTargets_without (formed : inner.Formed) (othersFormed : others.Formed)
    (sticky : route.strategy = .hash)
    (without : ∀ id address,
      others.Eligible route id address ↔ inner.Eligible route id address ∧ id ≠ left)
    (apart : inner.Apart hashKeyOrder route key) (hash hash' : HashOrder) :
    others.orderedTargets hash' hashKeyOrder route (some key) =
      (inner.orderedTargets hash hashKeyOrder route (some key)).filter
        fun target => target.1 ≠ left := by
  rw [orderedTargets_hash sticky, orderedTargets_hash sticky]
  exact Arrangements.mergeSort_eq_filter
    (fun target : String × String => hashKeyOrder key target.1)
    (runningTargets_without formed othersFormed without hash hash') (apart.runningTargets formed)

/-- **A leaving instance disturbs no other.** Let a sticky key have different hashes with the
eligible instances of a route, and let one of them leave. The order of the targets is the
order before with that instance deleted, in whatever order the registries iterate their
instances. So a first choice that stays is still the first choice, and a first choice that
leaves is succeeded by the second. -/
theorem sticky_without (reachable : inner.Reachable) (othersReachable : others.Reachable)
    (sticky : route.strategy = .hash) (member : inner.Eligible route left address)
    (without : ∀ id address,
      others.Eligible route id address ↔ inner.Eligible route id address ∧ id ≠ left)
    (apart : inner.Apart hashKeyOrder route key) :
    ∃ before after, left ∉ (before ++ after).map Prod.fst ∧
      (∀ hash,
        inner.orderedTargets hash hashKeyOrder route (some key) =
            before ++ (left, address) :: after ∧
          (inner.selectTargets hash hashKeyOrder route (some key)).1 =
            before.map Prod.snd ++ address :: after.map Prod.snd) ∧
      (∀ hash,
        others.orderedTargets hash hashKeyOrder route (some key) = before ++ after ∧
          (others.selectTargets hash hashKeyOrder route (some key)).1 =
            before.map Prod.snd ++ after.map Prod.snd) ∧
      ∀ hash hash',
        (∀ first, (inner.orderedTargets hash hashKeyOrder route (some key)).head? = some first →
          first.1 ≠ left →
          (others.orderedTargets hash' hashKeyOrder route (some key)).head? = some first) ∧
        ((inner.orderedTargets hash hashKeyOrder route (some key)).head? = some (left, address) →
          (others.orderedTargets hash' hashKeyOrder route (some key)).head? =
            (inner.orderedTargets hash hashKeyOrder route (some key))[1]?) := by
  have formed := reachable.formed
  have some_order : HashOrder := ⟨id, fun elements => List.Perm.refl elements⟩
  have present := (mem_orderedTargets some_order hashKeyOrder route (some key) formed.keyed).mpr
    member
  obtain ⟨before, after, cut⟩ := List.append_of_mem present
  have once : left ∉ (before ++ after).map Prod.fst := by
    have distinct := nodup_orderedTargets some_order hashKeyOrder route (some key) formed
    rw [cut, List.map_append, List.map_cons] at distinct
    rw [List.map_append]
    exact (List.nodup_middle.mp distinct).notMem
  have whole : ∀ hash, inner.orderedTargets hash hashKeyOrder route (some key) =
      before ++ (left, address) :: after := fun hash =>
    (orderedTargets_iteration formed sticky apart some_order hash).trans cut
  have rest : ∀ hash, others.orderedTargets hash hashKeyOrder route (some key) =
      before ++ after := by
    intro hash
    rw [orderedTargets_without formed othersReachable.formed sticky without apart some_order hash,
      cut]
    exact Arrangements.filter_around once
  refine ⟨before, after, once, fun hash => ⟨whole hash, ?_⟩, fun hash => ⟨rest hash, ?_⟩,
    fun hash hash' => ?_⟩
  · rw [selectTargets_fst, whole, List.map_append, List.map_cons]
  · rw [selectTargets_fst, rest, List.map_append]
  · rw [whole, rest]
    exact ⟨fun first => Arrangements.head?_around, Arrangements.head?_successor once⟩

end Leaving

end Inner

namespace Sample

open Sohara.Inner

/-- A worker of the mail flow on a node of its own. -/
def mailWorker (id node : String) : RegistryEvent :=
  .call (.declareInstance { id, node, flowId := some "mail", spec := { id } })

/-- A node reports that its worker is running, with the address of its trigger. -/
def mailRunning (id node address : String) : RegistryEvent :=
  .heartbeat insertionOrder "10:00:05"
    ⟨node, "10:00:04", [⟨id, .running, false, true, 0, none, some address⟩]⟩

/-- Three workers are declared and reported. -/
def mailWorkers : List RegistryEvent :=
  [mailWorker "mail-1" "n1", mailWorker "mail-2" "n2", mailWorker "mail-3" "n3",
    mailRunning "mail-1" "n1" "n1:9000", mailRunning "mail-2" "n2" "n2:9000",
    mailRunning "mail-3" "n3" "n3:9000"]

/-- A route to the workers that sticks to the value of a header. -/
def mailRoute : RouteDecl :=
  { id := "mail", path := "/mail", flowId := "mail", strategy := .hash, stickyKey := some "x-user" }

/-- The hashes of the workers with the key `user-1`. -/
def userHash (_ id : String) : Nat :=
  if id = "mail-1" then 454355598578733323
  else if id = "mail-2" then 15087684295138478730
  else 3693885495366312195

/-- A request of the route without the header. -/
def mailRequest : RegistryEvent :=
  .call (.selectTargets insertionOrder userHash mailRoute none)

/-- A request of another route to the same workers. -/
def newsRequest : RegistryEvent :=
  .call (.selectTargets insertionOrder userHash { mailRoute with id := "news" } none)

/-- Requests of one route share its turns evenly beside those of another. -/
theorem mailRequests_fair :
    ((served [] [] [] mailWorkers).placements "mail"
        [mailRequest, newsRequest, mailRequest]).count ("mail-1", "n1:9000") ≤
      ((served [] [] [] mailWorkers).placements "mail"
        [mailRequest, newsRequest, mailRequest]).count ("mail-3", "n3:9000") + 1 := by
  refine (selection_fair [] [] [] mailWorkers).2.2 "mail"
    [("mail-1", "n1:9000"), ("mail-2", "n2:9000"), ("mail-3", "n3:9000")] _ ?_ _ (by decide) _
    (by decide)
  refine Steady.cons ?_ (Steady.cons ?_ (Steady.cons ?_ Steady.nil))
  · intro hash hashKeyOrder route hashKey requested own rotates
    cases requested
    rfl
  · intro hash hashKeyOrder route hashKey requested own rotates
    cases requested
    exact absurd own (by decide)
  · intro hash hashKeyOrder route hashKey requested own rotates
    cases requested
    rfl

/-- The first choice leaves, and the second succeeds it. -/
theorem firstWorker_leaves :
    (orderedTargets insertionOrder userHash mailRoute (some "user-1")
      (served [] [] [] (mailWorkers ++ [.call (.removeInstance "mail-1")]))).head? =
      some ("mail-3", "n3:9000") := by
  have reachable : (served [] [] [] mailWorkers).Reachable := ⟨_, _, _, _, rfl⟩
  have othersReachable : (served [] [] []
      (mailWorkers ++ [.call (.removeInstance "mail-1")])).Reachable := ⟨_, _, _, _, rfl⟩
  have all : ∀ id address, (served [] [] [] mailWorkers).Eligible mailRoute id address ↔
      (id, address) ∈ [("mail-1", "n1:9000"), ("mail-2", "n2:9000"), ("mail-3", "n3:9000")] :=
    fun id address =>
      (@mem_runningTargets _ mailRoute insertionOrder id address reachable.formed.keyed).symm
  have left : ∀ id address, (served [] [] []
      (mailWorkers ++ [.call (.removeInstance "mail-1")])).Eligible mailRoute id address ↔
      (id, address) ∈ [("mail-2", "n2:9000"), ("mail-3", "n3:9000")] :=
    fun id address =>
      (@mem_runningTargets _ mailRoute insertionOrder id address othersReachable.formed.keyed).symm
  have order : orderedTargets insertionOrder userHash mailRoute (some "user-1")
      (served [] [] [] mailWorkers) =
      [("mail-1", "n1:9000"), ("mail-3", "n3:9000"), ("mail-2", "n2:9000")] := by
    rw [orderedTargets_hash rfl]
    have targets : (served [] [] [] mailWorkers).runningTargets insertionOrder mailRoute =
      [("mail-1", "n1:9000"), ("mail-2", "n2:9000"), ("mail-3", "n3:9000")] := rfl
    rw [targets]
    simp [List.mergeSort, userHash]
  have without : ∀ id address, (id, address) ∈ [("mail-2", "n2:9000"), ("mail-3", "n3:9000")] ↔
      (id, address) ∈ [("mail-1", "n1:9000"), ("mail-2", "n2:9000"), ("mail-3", "n3:9000")] ∧
        id ≠ "mail-1" := by
    intro id address
    simp only [List.mem_cons, Prod.mk.injEq, List.not_mem_nil, or_false]
    constructor
    · rintro (⟨rfl, rfl⟩ | ⟨rfl, rfl⟩) <;> decide
    · rintro ⟨⟨rfl, rfl⟩ | second | third, stays⟩
      · exact absurd rfl stays
      · exact .inl second
      · exact .inr third
  have apart : (served [] [] [] mailWorkers).Apart userHash mailRoute "user-1" := by
    intro one oneAddress other otherAddress oneEligible otherEligible same
    rw [all] at oneEligible otherEligible
    simp only [List.mem_cons, Prod.mk.injEq, List.not_mem_nil, or_false]
      at oneEligible otherEligible
    rcases oneEligible with ⟨rfl, -⟩ | ⟨rfl, -⟩ | ⟨rfl, -⟩ <;>
        rcases otherEligible with ⟨rfl, -⟩ | ⟨rfl, -⟩ | ⟨rfl, -⟩ <;>
          first | rfl | exact absurd same (by decide)
  obtain ⟨_, _, -, -, -, choices⟩ := sticky_without reachable othersReachable rfl
    ((all "mail-1" "n1:9000").mpr (by decide))
    (fun id address => by rw [all, left]; exact without id address) apart
  have succeeded := (choices insertionOrder insertionOrder).2 (by rw [order]; rfl)
  rw [succeeded, order]
  rfl

end Sample

end Sohara
