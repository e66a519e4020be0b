import Sohara.Agent.Supervisor

/-! # The managers of an agent

An agent keeps a manager for each instance it supervises. Commands of the plane are handed
to the manager they name, and the list of desired instances that comes with them decides
which managers there are: missing ones are started, and those that are no longer listed
are shut down. A manager that is there already is left alone, whatever spec it runs.
-/

namespace Sohara

/-- Supervises one instance: its task, and the commands that wait for it. -/
structure InstanceManager where
  /-- Which of the managers started so far it is. -/
  number : Nat
  id : String
  spec : InstanceSpec
  /-- The initial desired state, until the task has begun. -/
  beginning : Option String
  supervisor : Supervisor
  mailbox : List InstanceCommand := []
  deriving DecidableEq, Repr

namespace InstanceManager

/-- Starts the supervisor task of a spec. -/
def spawnWithDesired (number : Nat) (spec : InstanceSpec) (desired : String) :
    InstanceManager where
  number := number
  id := spec.id
  spec := spec
  beginning := some desired
  supervisor := .new spec

/-- Sends a lifecycle command. -/
def send (command : InstanceCommand) (manager : InstanceManager) : InstanceManager :=
  { manager with mailbox := manager.mailbox ++ [command] }

end InstanceManager

/-- The managers of an agent, and how many it has started so far. -/
structure Managers where
  entries : Assoc InstanceManager := []
  started : Nat := 0
  deriving DecidableEq, Repr

/-- The lifecycle command that an operation names. -/
def parseOp (op : String) : Option InstanceCommand :=
  match op with
  | "start" => some .start
  | "stop" => some .stop
  | "restart" => some .restart
  | "pause" => some .pause
  | "resume" => some .resume
  | _ => none

namespace Managers

section Definitions

variable (managers : Managers)

/-- The manager of an instance. -/
def get? (id : String) : Option InstanceManager := managers.entries.get? id

/-- Hands a command to the manager it names, and reports how that went. -/
def execute (command : Command) : CommandAck × Managers :=
  match parseOp command.op with
  | none => (⟨command.seq, false, some ("unknown op '" ++ command.op ++ "'")⟩, managers)
  | some op =>
      match managers.get? command.instance_ with
      | some manager =>
          (⟨command.seq, true, none⟩, { managers with
            entries := managers.entries.insert command.instance_ (manager.send op) })
      | none =>
          (⟨command.seq, false, some ("unknown instance '" ++ command.instance_ ++ "'")⟩, managers)

/-- Starts a manager for a desired instance that has none. -/
def spawnMissing (item : DesiredInstance) : Managers :=
  if (managers.get? item.spec.id).isSome then managers
  else
    let manager := InstanceManager.spawnWithDesired managers.started item.spec item.desired
    ⟨managers.entries.insert item.spec.id manager, managers.started + 1⟩

/-- Removes the manager of an instance. -/
def remove (id : String) : Managers := { managers with entries := managers.entries.erase id }

/-- The managed instances that are not desired, in the iteration order of the map. -/
def stale (hash : HashOrder) (desired : List DesiredInstance) : List String :=
  (hash.order (managers.entries.map Prod.fst)).filter fun id =>
    !(desired.map (·.spec.id)).contains id

/-- Reconciles the managers with the desired list: starts the missing ones, and removes
those that are not listed, which are shut down. -/
def reconcile (hash : HashOrder) (desired : List DesiredInstance) : Managers :=
  let spawned := desired.foldl spawnMissing managers
  (spawned.stale hash desired).foldl remove spawned

end Definitions

variable {managers : Managers} {hash : HashOrder} {desired : List DesiredInstance} {id : String}

section Reconciling

theorem get?_spawnMissing (item : DesiredInstance) :
    (managers.spawnMissing item).get? id =
      match managers.get? id with
      | some manager => some manager
      | none =>
          if item.spec.id = id then
            some (.spawnWithDesired managers.started item.spec item.desired)
          else none := by
  unfold spawnMissing
  by_cases managed : (managers.get? item.spec.id).isSome
  · rw [if_pos managed]
    cases present : managers.get? id with
    | some manager => rfl
    | none =>
        have different : item.spec.id ≠ id := by
          intro same
          rw [same, present] at managed
          cases managed
        exact (if_neg different).symm
  · rw [if_neg managed]
    unfold get?
    dsimp only
    rw [Assoc.get?_insert]
    by_cases same : item.spec.id = id
    · have absent : managers.entries.get? id = none := by
        rw [← same]
        exact Option.not_isSome_iff_eq_none.mp managed
      rw [if_pos same, if_pos same, absent]
    · rw [if_neg same, if_neg same]
      cases managers.entries.get? id <;> rfl

/-- A manager that is there stays as it is. -/
theorem get?_spawned_of_some {manager : InstanceManager}
    (present : managers.get? id = some manager) :
    (desired.foldl spawnMissing managers).get? id = some manager := by
  induction desired generalizing managers with
  | nil => exact present
  | cons item rest ih =>
      apply ih
      rw [get?_spawnMissing, present]

/-- A missing manager is started for the first item that names it. -/
theorem get?_spawned_of_none (absent : managers.get? id = none) :
    (∀ item ∈ desired, item.spec.id ≠ id) ∧ (desired.foldl spawnMissing managers).get? id = none ∨
      ∃ item ∈ desired, item.spec.id = id ∧ ∃ number,
        (desired.foldl spawnMissing managers).get? id =
          some (.spawnWithDesired number item.spec item.desired) := by
  induction desired generalizing managers with
  | nil => exact .inl ⟨(fun _ member => nomatch member), absent⟩
  | cons item rest ih =>
      by_cases same : item.spec.id = id
      · have started : (managers.spawnMissing item).get? id =
            some (.spawnWithDesired managers.started item.spec item.desired) := by
          rw [get?_spawnMissing, absent]
          exact if_pos same
        have kept := @get?_spawned_of_some _ rest _ _ started
        exact .inr ⟨item, List.mem_cons_self, same, managers.started, kept⟩
      · have still : (managers.spawnMissing item).get? id = none := by
          rw [get?_spawnMissing, absent]
          exact if_neg same
        rcases ih still with ⟨others, none_⟩ | ⟨other, member, named, number, started⟩
        · refine .inl ⟨fun other member => ?_, none_⟩
          rcases List.mem_cons.mp member with rfl | inside
          · exact same
          · exact others other inside
        · exact .inr ⟨other, List.mem_cons_of_mem _ member, named, number, started⟩

theorem get?_removed (ids : List String) (managers : Managers) :
    (ids.foldl remove managers).get? id = if id ∈ ids then none else managers.get? id := by
  induction ids generalizing managers with
  | nil => exact (if_neg (List.not_mem_nil)).symm
  | cons first rest ih =>
      rw [List.foldl_cons, ih]
      unfold remove get?
      dsimp only
      rw [Assoc.get?_erase]
      by_cases inside : id ∈ rest
      · rw [if_pos inside, if_pos (List.mem_cons_of_mem _ inside)]
      · rw [if_neg inside]
        by_cases same : first = id
        · rw [if_pos same, if_pos (List.mem_cons.mpr (.inl same.symm))]
        · rw [if_neg same, if_neg]
          intro member
          rcases List.mem_cons.mp member with equal | later
          · exact same equal.symm
          · exact inside later

theorem mem_stale : id ∈ managers.stale hash desired ↔
    id ∈ managers.entries.map Prod.fst ∧ ∀ item ∈ desired, item.spec.id ≠ id := by
  unfold stale
  rw [List.mem_filter, (hash.perm _).mem_iff]
  refine and_congr_right fun _ => ?_
  rw [Bool.not_eq_true', ← Bool.not_eq_true, List.contains_iff_mem, List.mem_map]
  exact ⟨fun unlisted item member same => unlisted ⟨item, member, same⟩,
    fun others ⟨item, member, same⟩ => others item member same⟩

/-- **What reconciling leaves.** The listed instances have the manager they had, or one
started for an item that names them; the others have none. -/
theorem get?_reconcile :
    (managers.reconcile hash desired).get? id =
      if ∃ item ∈ desired, item.spec.id = id then (desired.foldl spawnMissing managers).get? id
      else none := by
  unfold reconcile
  rw [get?_removed]
  by_cases listed : ∃ item ∈ desired, item.spec.id = id
  · rw [if_pos listed, if_neg]
    intro member
    obtain ⟨item, inside, same⟩ := listed
    exact (mem_stale.mp member).2 item inside same
  · rw [if_neg listed]
    by_cases member : id ∈ (desired.foldl spawnMissing managers).stale hash desired
    · rw [if_pos member]
    · rw [if_neg member]
      by_contra present
      have key : id ∈ (desired.foldl spawnMissing managers).entries.map Prod.fst := by
        by_contra absent
        exact present (Assoc.get?_eq_none absent)
      exact member (mem_stale.mpr ⟨key, fun item inside same => listed ⟨item, inside, same⟩⟩)

end Reconciling

/-- The managers are those of the list: exactly its ids are managed, each by a manager with
the listed spec, and a manager that already ran that spec is still the same. -/
structure Declared (desired : List DesiredInstance) (before after : Managers) : Prop where
  ids : ∀ id, (after.get? id).isSome = true ↔ ∃ item ∈ desired, item.spec.id = id
  specs : ∀ item ∈ desired, ∃ manager,
    after.get? item.spec.id = some manager ∧ manager.spec = item.spec
  kept : ∀ item ∈ desired, ∀ manager, before.get? item.spec.id = some manager →
    manager.spec = item.spec → after.get? item.spec.id = some manager

/-- **When reconciling reaches the declared set.** The managers are those of a list with
distinct ids just in case no listed instance had a manager with another spec. -/
theorem declared_iff (managers : Managers) (hash : HashOrder) (desired : List DesiredInstance)
    (distinct : (desired.map (·.spec.id)).Nodup) :
    Declared desired managers (managers.reconcile hash desired) ↔
      ∀ item ∈ desired, ∀ manager, managers.get? item.spec.id = some manager →
        manager.spec = item.spec := by
  have listed : ∀ item ∈ desired, (managers.reconcile hash desired).get? item.spec.id =
      (desired.foldl spawnMissing managers).get? item.spec.id := by
    intro item member
    rw [get?_reconcile, if_pos ⟨item, member, rfl⟩]
  have unique : ∀ item ∈ desired, ∀ other ∈ desired, other.spec.id = item.spec.id →
      other = item := by
    intro item member other inside same
    exact List.inj_on_of_nodup_map distinct inside member same
  constructor
  · intro declared item member manager present
    obtain ⟨after, found, spec⟩ := declared.specs item member
    rw [listed item member, get?_spawned_of_some present] at found
    cases found
    exact spec
  · intro unchanged
    have kept : ∀ item ∈ desired, ∀ manager, managers.get? item.spec.id = some manager →
        (managers.reconcile hash desired).get? item.spec.id = some manager := by
      intro item member manager present
      rw [listed item member]
      exact get?_spawned_of_some present
    have specs : ∀ item ∈ desired, ∃ manager,
        (managers.reconcile hash desired).get? item.spec.id = some manager ∧
          manager.spec = item.spec := by
      intro item member
      cases present : managers.get? item.spec.id with
      | some manager =>
          exact ⟨manager, kept item member manager present,
            unchanged item member manager present⟩
      | none =>
          rcases @get?_spawned_of_none _ desired _ present with
            ⟨others, -⟩ | ⟨other, inside, same, number, started⟩
          · exact absurd rfl (others item member)
          · rw [unique item member other inside same] at started
            exact ⟨_, (listed item member).trans started, rfl⟩
    refine ⟨fun id => ?_, specs, fun item member manager present _ =>
      kept item member manager present⟩
    constructor
    · intro managed
      by_contra unlisted
      rw [get?_reconcile, if_neg unlisted] at managed
      cases managed
    · rintro ⟨item, member, rfl⟩
      obtain ⟨manager, found, -⟩ := specs item member
      exact Option.isSome_of_eq_some found

end Managers

namespace Sample

open Managers

/-- The iteration order of small maps. -/
def keyOrder : HashOrder := ⟨fun elements => elements, fun _ => .refl _⟩

/-- A spec of the instance that runs the given flow. -/
def flowSpec (flow : String) : InstanceSpec := { id := "orders-1", flow := flow }

/-- An agent that manages the instance. -/
def managed : Managers := Managers.reconcile {} keyOrder [⟨flowSpec "orders.yaml", "running"⟩]

/-- The instance and a second one are listed. -/
def twoListed : List DesiredInstance :=
  [⟨flowSpec "orders.yaml", "running"⟩, ⟨{ id := "mail-1", flow := "mail.yaml" }, "stopped"⟩]

/-- The listed instances are managed, the first by the manager it had. -/
theorem twoListed_declared : Declared twoListed managed (managed.reconcile keyOrder twoListed) := by
  refine (declared_iff managed keyOrder twoListed (by decide)).mpr fun item member manager => ?_
  simp only [twoListed, List.mem_cons, List.not_mem_nil, or_false] at member
  intro present
  rcases member with rfl | rfl
  · cases present
    rfl
  · cases present

/-- The spec of the instance has changed. -/
def changedSpec : List DesiredInstance := [⟨flowSpec "orders-v2.yaml", "running"⟩]

/-- **A changed spec is not taken over**: the manager still runs the old one. -/
theorem changedSpec_not_declared :
    ((managed.reconcile keyOrder changedSpec).get? "orders-1").map (·.spec.flow) =
        some "orders.yaml" ∧
      ¬ Declared changedSpec managed (managed.reconcile keyOrder changedSpec) := by
  refine ⟨rfl, fun declared => ?_⟩
  obtain ⟨manager, found, spec⟩ := declared.specs _ List.mem_cons_self
  cases found
  exact absurd (congrArg InstanceSpec.flow spec) (by decide)

end Sample

end Sohara
