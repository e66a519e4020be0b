import Sohara.Plane.Declarations
import Sohara.Transition.Calls

/-! # Durability of the declarations

The calls that change declarations do it in two sections of the lock: one changes the
memory, a later one writes all declarations to the file. Between the two, other calls can
do either. The file has the effect of a call that has returned, unless a later change of
the same declaration replaced it, and it has what the memory has when no call is in
progress.
-/

namespace Sohara

open Transition

/-- The part of the registry that is written to the file. -/
structure Persisted where
  flows : List FlowDecl := []
  instances : List InstanceDecl := []
  routes : List RouteDecl := []
  deriving DecidableEq, Repr

/-- How the declarations are written as text: what was written is read back. -/
structure Codec (Text : Type) where
  write : Persisted → Text
  read : Text → Option Persisted
  read_write : ∀ persisted, read (write persisted) = some persisted

/-- The orders in which the maps of the registry are iterated. -/
structure MapOrders where
  flows : HashOrder
  instances : HashOrder
  routes : HashOrder

/-- A place of the registry that a call can change. -/
inductive Slot where
  | flow (id : String)
  | instance_ (id : String)
  | route (id : String)
  deriving DecidableEq, Repr

/-- What can be declared at a place. -/
inductive Declaration where
  | flow (flow : FlowDecl)
  | instance_ (decl : InstanceDecl)
  | route (route : RouteDecl)
  deriving DecidableEq, Repr

/-- Changes the desired state, if an instance is declared. -/
def Declaration.setDesired (desired : Desired) : Declaration → Declaration
  | .instance_ decl => .instance_ { decl with desired := desired }
  | other => other

/-- The calls that change declarations. -/
inductive Edit where
  | declareInstance (decl : InstanceDecl)
  | removeInstance (id : String)
  | setDesired (id : String) (desired : Desired)
  | putFlow (flow : FlowDecl)
  | declareRoute (route : RouteDecl)
  | removeRoute (id : String)
  deriving DecidableEq, Repr

namespace Edit

/-- The section that changes the memory. -/
def call : Edit → RegistryCall
  | declareInstance decl => .declareInstance decl
  | removeInstance id => .removeInstance id
  | setDesired id desired => .setDesired id desired
  | putFlow flow => .putFlow flow
  | declareRoute route => .declareRoute route
  | removeRoute id => .removeRoute id

/-- The kind and the message of the event that is recorded, if one is. -/
def event : Edit → Option (String × String)
  | declareInstance decl => some ("declare", "instance '" ++ decl.id ++ "' declared")
  | removeInstance id => some ("undeclare", "instance '" ++ id ++ "' removed")
  | setDesired id desired =>
      some ("desired", "instance '" ++ id ++ "' desired -> " ++ desired.text)
  | _ => none

/-- The key that the call is about. -/
def slot : Edit → Slot
  | declareInstance decl => .instance_ decl.id
  | removeInstance id => .instance_ id
  | setDesired id _ => .instance_ id
  | putFlow flow => .flow flow.id
  | declareRoute route => .route route.id
  | removeRoute id => .route id

/-- What the call makes of the declaration under its key. -/
def effect (before : Option Declaration) : Edit → Option Declaration
  | declareInstance decl => some (.instance_ { decl with spec := { decl.spec with id := decl.id } })
  | removeInstance _ => none
  | setDesired _ desired => before.map (.setDesired desired)
  | putFlow flow => some (.flow flow)
  | declareRoute route => some (.route route)
  | removeRoute _ => none

end Edit

/-- Whether a registry call changes declarations. -/
def RegistryCall.edits : RegistryCall → Bool
  | .declareInstance _ => true
  | .removeInstance _ => true
  | .setDesired _ _ => true
  | .putFlow _ => true
  | .declareRoute _ => true
  | .removeRoute _ => true
  | _ => false

/-- Whether an event changes declarations. -/
def RegistryEvent.edits : RegistryEvent → Bool
  | .call served => served.edits
  | _ => false

namespace Inner

section Definitions

/-- The declaration at a place. -/
def declaration (slot : Slot) (inner : Inner) : Option Declaration :=
  match slot with
  | .flow id => (inner.flows.get? id).map .flow
  | .instance_ id => (inner.instances.get? id).map .instance_
  | .route id => (inner.routes.get? id).map .route

/-- What is written to the file. -/
def persisted (orders : MapOrders) (inner : Inner) : Persisted where
  flows := inner.flows.values orders.flows
  instances := inner.instances.values orders.instances
  routes := inner.routes.values orders.routes

/-- The registry of a plane that starts with a file; one that is missing or unreadable
counts as empty. -/
def loadFile {Text : Type} (codec : Codec Text) (file : Option Text) : Inner :=
  let persisted := (file.bind codec.read).getD {}
  .load persisted.flows persisted.instances persisted.routes

/-- Every declaration is stored under its own id. -/
structure Filed (inner : Inner) : Prop where
  flows : inner.flows.Keyed FlowDecl.id
  instances : inner.instances.Keyed InstanceDecl.id
  routes : inner.routes.Keyed RouteDecl.id

end Definitions

variable {inner : Inner} {slot : Slot} {Text : Type}

theorem Agrees.declaration {other : Inner} (agrees : Agrees inner other) :
    other.declaration slot = inner.declaration slot := by
  unfold Inner.declaration
  rw [agrees.flows, agrees.instances, agrees.routes]

theorem Agrees.filed {other : Inner} (agrees : Agrees inner other) (filed : inner.Filed) :
    other.Filed := by
  constructor
  · rw [agrees.flows]
    exact filed.flows
  · rw [agrees.instances]
    exact filed.instances
  · rw [agrees.routes]
    exact filed.routes

/-- Everything else leaves the declarations. -/
theorem agrees_serve {event : RegistryEvent} (quiet : event.edits = false) :
    Agrees inner (inner.serve event) := by
  cases event with
  | heartbeat hash time beat => exact agrees_heartbeat hash time beat
  | ack ack => exact ⟨rfl, rfl, rfl⟩
  | call call =>
      cases call with
      | selectTargets hash hashKeyOrder route hashKey =>
          exact agrees_selectTargets hash hashKeyOrder route hashKey inner
      | recordEvent time kind message => exact ⟨rfl, rfl, rfl⟩
      | relayPublish topic payload => exact ⟨rfl, rfl, rfl⟩
      | relayPull subscriber subscriptions => exact ⟨rfl, rfl, rfl⟩
      | _ => cases quiet

section Lookups

variable {V : Type} {entries : Assoc V} {wrap : V → Declaration} {place : String → Slot}
  (apart : Function.Injective place) {key id : String}
include apart

theorem lookup_insert (value : V) : ((entries.insert key value).get? id).map wrap =
    if place id = place key then some (wrap value) else (entries.get? id).map wrap := by
  rw [Assoc.get?_insert]
  by_cases same : key = id
  · rw [if_pos same, if_pos (congrArg place same.symm), Option.map_some]
  · rw [if_neg same, if_neg fun equal => same (apart equal).symm]

theorem lookup_erase : ((entries.erase key).get? id).map wrap =
    if place id = place key then none else (entries.get? id).map wrap := by
  rw [Assoc.get?_erase]
  by_cases same : key = id
  · rw [if_pos same, if_pos (congrArg place same.symm), Option.map_none]
  · rw [if_neg same, if_neg fun equal => same (apart equal).symm]

end Lookups

/-- **What a change does**: its effect under its key, and nothing elsewhere. -/
theorem declaration_perform (edit : Edit) :
    (inner.perform edit.call).declaration slot =
      if slot = edit.slot then edit.effect (inner.declaration slot)
      else inner.declaration slot := by
  cases edit with
  | declareInstance decl =>
      cases slot with
      | instance_ id => exact lookup_insert (fun _ _ => Slot.instance_.inj) _
      | flow id => exact (if_neg fun equal => nomatch equal).symm
      | route id => exact (if_neg fun equal => nomatch equal).symm
  | removeInstance removed =>
      cases slot with
      | instance_ id => exact lookup_erase fun _ _ => Slot.instance_.inj
      | flow id => exact (if_neg fun equal => nomatch equal).symm
      | route id => exact (if_neg fun equal => nomatch equal).symm
  | putFlow flow =>
      cases slot with
      | flow id => exact lookup_insert (fun _ _ => Slot.flow.inj) _
      | instance_ id => exact (if_neg fun equal => nomatch equal).symm
      | route id => exact (if_neg fun equal => nomatch equal).symm
  | declareRoute route =>
      cases slot with
      | route id => exact lookup_insert (fun _ _ => Slot.route.inj) _
      | flow id => exact (if_neg fun equal => nomatch equal).symm
      | instance_ id => exact (if_neg fun equal => nomatch equal).symm
  | removeRoute removed =>
      cases slot with
      | route id => exact lookup_erase fun _ _ => Slot.route.inj
      | flow id => exact (if_neg fun equal => nomatch equal).symm
      | instance_ id => exact (if_neg fun equal => nomatch equal).symm
  | setDesired changed desired =>
      cases present : inner.instances.get? changed with
      | none =>
          have still : inner.perform (Edit.setDesired changed desired).call = inner := by
            unfold Inner.perform Edit.call setDesired
            dsimp only
            rw [present]
          rw [still]
          by_cases here : slot = .instance_ changed
          · have absent : inner.declaration slot = none := by
              rw [here]
              exact congrArg (Option.map Declaration.instance_) present
            rw [absent]
            exact (ite_self none).symm
          · exact (if_neg here).symm
      | some decl =>
          have moved : inner.perform (Edit.setDesired changed desired).call = { inner with
              instances := inner.instances.insert changed { decl with desired := desired } } := by
            unfold Inner.perform Edit.call setDesired
            dsimp only
            rw [present]
          rw [moved]
          by_cases here : slot = .instance_ changed
          · have found : inner.declaration slot = some (.instance_ decl) := by
              rw [here]
              exact congrArg (Option.map Declaration.instance_) present
            rw [found, here]
            refine (lookup_insert (fun _ _ => Slot.instance_.inj) _).trans ?_
            rw [if_pos rfl]
            exact (if_pos rfl).symm
          · refine Eq.trans ?_ (if_neg here).symm
            cases slot with
            | instance_ id =>
                exact (lookup_insert (fun _ _ => Slot.instance_.inj) _).trans (if_neg here)
            | flow id => rfl
            | route id => rfl

theorem Filed.perform (filed : inner.Filed) (edit : Edit) : (inner.perform edit.call).Filed := by
  obtain ⟨flows, instances, routes⟩ := filed
  cases edit with
  | declareInstance decl => exact ⟨flows, instances.insert rfl, routes⟩
  | removeInstance removed => exact ⟨flows, instances.erase removed, routes⟩
  | putFlow flow => exact ⟨flows.insert rfl, instances, routes⟩
  | declareRoute route => exact ⟨flows, instances, routes.insert rfl⟩
  | removeRoute removed => exact ⟨flows, instances, routes.erase removed⟩
  | setDesired changed desired =>
      unfold Inner.perform Edit.call setDesired
      dsimp only
      split
      · exact ⟨flows, instances, routes⟩
      · next decl present =>
        have own := instances changed decl present
        exact ⟨flows, instances.insert own, routes⟩

theorem filed_loadFile (codec : Codec Text) (file : Option Text) : (loadFile codec file).Filed :=
  ⟨Assoc.keyed_collect _, Assoc.keyed_collect _, Assoc.keyed_collect _⟩

/-- **Round trip.** Loading what was written gives the declarations of the memory. -/
theorem declaration_loadFile (codec : Codec Text) (orders : MapOrders) (filed : inner.Filed) :
    (loadFile codec (some (codec.write (inner.persisted orders)))).declaration slot =
      inner.declaration slot := by
  unfold loadFile
  rw [Option.bind_some, codec.read_write]
  unfold declaration
  cases slot with
  | flow id =>
      exact congrArg (Option.map Declaration.flow)
        (Assoc.get?_collect_values orders.flows filed.flows id)
  | instance_ id =>
      exact congrArg (Option.map Declaration.instance_)
        (Assoc.get?_collect_values orders.instances filed.instances id)
  | route id =>
      exact congrArg (Option.map Declaration.route)
        (Assoc.get?_collect_values orders.routes filed.routes id)

end Inner

/-- How far a call is. -/
inductive Stage where
  | begun
  /-- The memory is changed. -/
  | mutated
  /-- The event is recorded. -/
  | recorded
  /-- The file is written, and the call has returned. -/
  | returned
  deriving DecidableEq, Repr

/-- A call that changes declarations. -/
structure EditCall where
  edit : Edit
  stage : Stage := .begun
  /-- What the call has made of the declaration under its key. -/
  effect : Option Declaration := none
  deriving DecidableEq, Repr

namespace EditCall

/-- Whether the call is to write the file next. -/
def writes (call : EditCall) : Bool :=
  call.stage = .recorded || (call.stage = .mutated && call.edit.event.isNone)

/-- Whether the call has changed the memory but not yet written the file. -/
def underway (call : EditCall) : Bool := call.stage = .mutated || call.stage = .recorded

end EditCall

/-- A registry, its file, and the calls made so far. -/
structure Stored (Text : Type) where
  registry : Inner
  file : Option Text
  calls : List EditCall := []
  /-- The changes made so far, the newest first: the key, and the number of the call. -/
  changes : List (Slot × Nat) := []

/-- What can happen to a registry and its file. -/
inductive StoredEvent where
  | begin (edit : Edit)
  /-- A call changes the memory. -/
  | mutate (number : Nat)
  /-- A call records its event. -/
  | record (number : Nat) (time : String)
  /-- A call writes the file and returns. -/
  | persist (number : Nat) (orders : MapOrders)
  /-- Something else is served. -/
  | serve (event : RegistryEvent)

namespace Stored

section Definitions

variable {Text : Type}

/-- A plane that starts with a file. -/
def start (codec : Codec Text) (file : Option Text) : Stored Text where
  registry := .loadFile codec file
  file := file

/-- The newest change under a key. -/
def latest (slot : Slot) (stored : Stored Text) : Option Nat :=
  (stored.changes.find? fun change => change.1 = slot).map Prod.snd

/-- The registry and its file after an event, if the event can happen. -/
def step (codec : Codec Text) (event : StoredEvent) (stored : Stored Text) :
    Option (Stored Text) :=
  match event with
  | .begin edit => some { stored with calls := stored.calls ++ [{ edit := edit }] }
  | .mutate number => do
      let call ← stored.calls[number]?
      if call.stage = .begun then
        let slot := call.edit.slot
        let effect := call.edit.effect (stored.registry.declaration slot)
        return { stored with
          registry := stored.registry.perform call.edit.call
          calls := stored.calls.set number { call with stage := .mutated, effect := effect }
          changes := (slot, number) :: stored.changes }
      else none
  | .record number time => do
      let call ← stored.calls[number]?
      let (kind, message) ← call.edit.event
      if call.stage = .mutated then
        return { stored with
          registry := stored.registry.recordEventLocked time kind message
          calls := stored.calls.set number { call with stage := .recorded } }
      else none
  | .persist number orders => do
      let call ← stored.calls[number]?
      if call.writes then
        return { stored with
          file := some (codec.write (stored.registry.persisted orders))
          calls := stored.calls.set number { call with stage := .returned } }
      else none
  | .serve event =>
      if event.edits then none else some { stored with registry := stored.registry.serve event }

end Definitions

variable {Text : Type} {codec : Codec Text} {stored next last : Stored Text}
  {event : StoredEvent} {slot : Slot} {number : Nat}
  {moments : List (Moment StoredEvent (Stored Text))}

/-- A change is the newest one under its key. -/
theorem latest_cons {place : Slot} (changes : next.changes = (place, number) :: stored.changes) :
    next.latest slot = if place = slot then some number else stored.latest slot := by
  unfold latest
  rw [changes, List.find?_cons]
  by_cases same : place = slot
  · rw [if_pos same, decide_eq_true same]
    rfl
  · rw [if_neg same, decide_eq_false same]

/-- **What the file and the memory have in common.** The newest change under a key is what
the memory has there; the file has the same, unless the call of that change has yet to
write it. -/
structure Durable (codec : Codec Text) (stored : Stored Text) : Prop where
  filed : stored.registry.Filed
  held : ∀ slot number, stored.latest slot = some number → ∃ call,
    stored.calls[number]? = some call ∧ call.edit.slot = slot ∧ call.stage ≠ .begun ∧
      stored.registry.declaration slot = call.effect
  written : ∀ slot, (Inner.loadFile codec stored.file).declaration slot =
      stored.registry.declaration slot ∨
    ∃ number call, stored.latest slot = some number ∧ stored.calls[number]? = some call ∧
      call.underway = true

/-- A call that goes on still holds what it has made of its key. -/
theorem held_advance {call : EditCall} {other : Nat} {held : Option Declaration}
    (present : stored.calls[number]? = some call) {stage : Stage} (started : stage ≠ .begun)
    (holds : ∃ call, stored.calls[other]? = some call ∧ call.edit.slot = slot ∧
      call.stage ≠ .begun ∧ held = call.effect) :
    ∃ later, (stored.calls.set number { call with stage := stage })[other]? = some later ∧
      later.edit.slot = slot ∧ later.stage ≠ .begun ∧ held = later.effect := by
  obtain ⟨before, found, same, going, holds⟩ := holds
  rw [getElem?_set_of_some present]
  by_cases here : number = other
  · subst here
    rw [present] at found
    cases found
    rw [if_pos rfl]
    exact ⟨_, rfl, same, started, holds⟩
  · rw [if_neg here]
    exact ⟨before, found, same, going, holds⟩

theorem durable_start (codec : Codec Text) (file : Option Text) :
    Durable codec (start codec file) :=
  ⟨Inner.filed_loadFile codec file, (fun _ _ newest => nomatch newest), fun _ => .inl rfl⟩

/-- A call that changes the memory is then the newest one under its key, and has yet to write. -/
theorem Durable.mutate {call : EditCall} (durable : Durable codec stored)
    (present : stored.calls[number]? = some call) (begun : call.stage = .begun) :
    Durable codec { stored with
      registry := stored.registry.perform call.edit.call
      calls := stored.calls.set number { call with
        stage := .mutated
        effect := call.edit.effect (stored.registry.declaration call.edit.slot) }
      changes := (call.edit.slot, number) :: stored.changes } := by
  have changed := @Inner.declaration_perform stored.registry
  refine ⟨durable.filed.perform call.edit, fun slot other newest => ?_, fun slot => ?_⟩
  · rw [latest_cons rfl] at newest
    dsimp only
    rw [getElem?_set_of_some present, changed]
    by_cases here : call.edit.slot = slot
    · rw [if_pos here] at newest
      cases newest
      rw [if_pos rfl, if_pos here.symm]
      refine ⟨_, rfl, here, by simp, ?_⟩
      rw [here]
    · rw [if_neg here] at newest
      rw [if_neg (Ne.symm here)]
      obtain ⟨before, found, rest⟩ := durable.held slot other newest
      have different : number ≠ other := by
        rintro rfl
        rw [present] at found
        cases found
        exact here rest.1
      rw [if_neg different]
      exact ⟨before, found, rest⟩
  · rw [latest_cons rfl]
    dsimp only
    rw [changed]
    by_cases here : call.edit.slot = slot
    · rw [if_pos here]
      refine .inr ⟨number, ?_⟩
      rw [getElem?_set_of_some present, if_pos rfl]
      exact ⟨_, rfl, rfl, rfl⟩
    · rw [if_neg here, if_neg (Ne.symm here)]
      rcases durable.written slot with same | ⟨other, before, newest, found, underway⟩
      · exact .inl same
      · refine .inr ⟨other, before, newest, ?_, underway⟩
        have different : number ≠ other := by
          rintro rfl
          rw [present] at found
          cases found
          unfold EditCall.underway at underway
          rw [begun] at underway
          cases underway
        rw [getElem?_set_of_some present, if_neg different]
        exact found

/-- **One step** keeps the file durable. -/
theorem Durable.step (durable : Durable codec stored)
    (stepped : stored.step codec event = some next) : Durable codec next := by
  have ⟨filed, held, written⟩ := durable
  cases event with
  | begin edit =>
      cases stepped
      have longer : ∀ {number : Nat} {call : EditCall}, stored.calls[number]? = some call →
          (stored.calls ++ [({ edit := edit } : EditCall)])[number]? = some call :=
        fun present => List.getElem?_append_left (List.getElem?_eq_some_iff.mp present).1 ▸ present
      refine ⟨filed, fun slot number newest => ?_, fun slot => ?_⟩
      · obtain ⟨call, present, rest⟩ := held slot number newest
        exact ⟨call, longer present, rest⟩
      · rcases written slot with same | ⟨number, call, newest, present, underway⟩
        · exact .inl same
        · exact .inr ⟨number, call, newest, longer present, underway⟩
  | mutate number =>
      obtain ⟨call, present, stepped⟩ := Option.bind_eq_some_iff.mp stepped
      by_cases begun : call.stage = .begun
      · rw [if_pos begun] at stepped
        cases stepped
        exact durable.mutate present begun
      · rw [if_neg begun] at stepped
        cases stepped
  | record number time =>
      obtain ⟨call, present, stepped⟩ := Option.bind_eq_some_iff.mp stepped
      obtain ⟨⟨kind, message⟩, -, stepped⟩ := Option.bind_eq_some_iff.mp stepped
      dsimp only at stepped
      by_cases mutated : call.stage = .mutated
      · rw [if_pos mutated] at stepped
        cases stepped
        have agrees : Inner.Agrees stored.registry
            (stored.registry.recordEventLocked time kind message) := ⟨rfl, rfl, rfl⟩
        refine ⟨agrees.filed filed, fun slot other newest => ?_, fun slot => ?_⟩
        · exact held_advance present (by simp) (held slot other newest)
        · rcases written slot with same | ⟨other, before, newest, found, underway⟩
          · exact .inl same
          · dsimp only
            refine .inr ⟨other, ?_⟩
            rw [getElem?_set_of_some present]
            by_cases here : number = other
            · rw [if_pos here]
              exact ⟨_, newest, rfl, rfl⟩
            · rw [if_neg here]
              exact ⟨before, newest, found, underway⟩
      · rw [if_neg mutated] at stepped
        cases stepped
  | persist number orders =>
      obtain ⟨call, present, stepped⟩ := Option.bind_eq_some_iff.mp stepped
      by_cases writes : call.writes = true
      · rw [if_pos writes] at stepped
        cases stepped
        refine ⟨filed, fun slot other newest => ?_, fun slot => ?_⟩
        · exact held_advance present (by simp) (held slot other newest)
        · exact .inl (Inner.declaration_loadFile codec orders filed)
      · rw [if_neg writes] at stepped
        cases stepped
  | serve served =>
      unfold Stored.step at stepped
      dsimp only at stepped
      cases quiet : served.edits with
      | true =>
          rw [quiet] at stepped
          cases stepped
      | false =>
          rw [quiet] at stepped
          cases stepped
          have agrees := @Inner.agrees_serve stored.registry served quiet
          refine ⟨agrees.filed filed, fun slot other newest => ?_, fun slot => ?_⟩
          · dsimp only
            rw [agrees.declaration]
            exact held slot other newest
          · dsimp only
            rw [agrees.declaration]
            exact written slot

/-- **Durability.** However many calls change declarations at once: when a call has
returned, the file has its effect, unless a later change of the same key replaced it, and
whenever no call is under way, loading the file gives the declarations of the memory. -/
theorem changes_durable (codec : Codec Text) (file : Option Text)
    (run : Run (step codec) (start codec file) moments last) :
    (∀ number call, last.calls[number]? = some call → call.stage = .returned →
        last.latest call.edit.slot = some number →
          (Inner.loadFile codec last.file).declaration call.edit.slot = call.effect) ∧
      ((∀ call ∈ last.calls, call.underway = false) → ∀ slot,
        (Inner.loadFile codec last.file).declaration slot =
          last.registry.declaration slot) := by
  obtain ⟨⟨-, held, written⟩, -⟩ := run.invariant (durable_start codec file)
    fun _ _ _ durable stepped => durable.step stepped
  constructor
  · intro number call present returned newest
    obtain ⟨found, here, -, -, holds⟩ := held _ _ newest
    rw [present] at here
    cases here
    rcases written call.edit.slot with same | ⟨other, before, newer, there, underway⟩
    · exact same.trans holds
    · rw [newest] at newer
      cases newer
      rw [present] at there
      cases there
      unfold EditCall.underway at underway
      rw [returned] at underway
      cases underway
  · intro quiescent slot
    rcases written slot with same | ⟨other, before, -, there, underway⟩
    · exact same
    · rw [quiescent before (List.mem_of_getElem? there)] at underway
      cases underway

end Stored

namespace Sample

open Stored

/-- Declarations that are kept as they are. -/
def plainCodec : Codec Persisted := ⟨fun persisted => persisted, some, fun _ => rfl⟩

/-- Maps that are iterated in the order of insertion. -/
def insertionOrders : MapOrders := ⟨insertionOrder, insertionOrder, insertionOrder⟩

/-- Two calls at once: the second to change the memory is the first to write the file. -/
def twoCalls : List StoredEvent :=
  [.begin (.declareInstance mailDecl), .begin (.putFlow ⟨"f1", "mail", "steps: []"⟩),
    .mutate 0, .mutate 1, .persist 1 insertionOrders, .record 0 "10:00:00",
    .persist 0 insertionOrders]

/-- Both calls have returned, and the file has both declarations. -/
theorem twoCalls_durable : ∃ moments last,
    Run (step plainCodec) (start plainCodec none) moments last ∧
      last.file = some ⟨[⟨"f1", "mail", "steps: []"⟩], [mailDecl], []⟩ ∧
      ∀ slot, (Inner.loadFile plainCodec last.file).declaration slot =
        last.registry.declaration slot := by
  have played : play (step plainCodec) (start plainCodec none) twoCalls = some (_, _) := rfl
  have run := Run.nil.play played
  exact ⟨_, _, run, rfl, (changes_durable plainCodec none run).2 (by decide)⟩

end Sample

end Sohara
