import Sohara.Async.Tracking
import Sohara.Runtime.RunMeaning
import Sohara.Runtime.TracedRun

/-! # Deliveries side by side

A sink looks up the delivered marker of a record, hands the record over, and saves the
marker, and other walks may come between any two of these operations. Every record is
accepted once by a sink as long as no lookup falls into another delivery of its key to the
same sink.
-/

namespace Sohara

open Async Async.Program

/-- How far a visit of a sink has got in delivering its record. -/
inductive Delivery where
  | idle
  /-- The marker has been looked up and not found. -/
  | cleared
  /-- The sink has accepted the record, and the marker is still to be saved. -/
  | accepted
  | settled
  deriving DecidableEq

/-- Operations that neither send a record nor delete an entry. -/
def Op.Retains : Op → Prop
  | .send _ _ => False
  | .delete _ => False
  | _ => True

namespace Delivery

/-- Between the lookup of a marker and its save. -/
def Open : Delivery → Prop
  | .cleared => True
  | .accepted => True
  | _ => False

/-- What a visit of a sink may do next. -/
def permits (executor : Executor) (sink : String) (record : Record) : Delivery → Op → Prop
  | .idle, .load key => key = executor.deliveredKey record
  | .cleared, op => op = .send sink record
  | .accepted, op => op = .hasStore ∨ op = .save (executor.deliveredKey record) (.bool true)
  | _, op => op.Retains

/-- How a response moves a delivery on. -/
def advance : Delivery → (op : Op) → op.Response → Delivery
  | .idle, .load _, .ok (some _) => .settled
  | .idle, .load _, _ => .cleared
  | .cleared, .send _ _, .ok _ => .accepted
  | .cleared, .send _ _, .error _ => .settled
  | .accepted, .save _ _, _ => .settled
  | state, _, _ => state

/-- The deliveries of a sink. -/
def protocol (executor : Executor) (sink : String) (record : Record) :
    Protocol Engine Delivery := ⟨.idle, permits executor sink record, advance⟩

/-- Visits that deliver nothing. -/
def passing : Protocol Engine Delivery := ⟨.idle, fun _ op => op.Retains, fun state _ _ => state⟩

/-- The store answers. -/
def Admits (op : Op) (response : op.Response) : Prop :=
  match op, response with
  | .hasStore, response => response = true
  | _, _ => True

end Delivery

namespace Executor

variable (executor : Executor)

/-- The sink a visit has come to, with the record to deliver. -/
def delivers (visit : Visit Engine) : Option (String × Record) :=
  match visit.call with
  | some call => if executor.isSink call.node then some (call.node, call.record) else none
  | none => none

/-- The automaton of each visit. -/
def deliveries (visit : Visit Engine) : Protocol Engine Delivery :=
  match executor.delivers visit with
  | some (sink, record) => Delivery.protocol executor sink record
  | none => Delivery.passing

/-- How far each visit has got in a run. -/
noncomputable def delivery (host : Host) (steps : List (Occurrence (Traced Engine) World))
    (visit : Visit Engine) : Delivery :=
  progress executor.deliveries (World.perform host) steps visit

end Executor

section Conformance

variable {executor : Executor} {sink : String} {record : Record}

namespace Delivery

theorem advance_idle {op : Op} (silent : ∀ key, op ≠ .load key) (response : op.Response) :
    advance .idle op response = .idle := by
  cases op with
  | load key => exact absurd rfl (silent key)
  | _ => rfl

theorem permits_idle {op : Op} (retains : op.Retains) (silent : ∀ key, op ≠ .load key) :
    permits executor sink record .idle op := by
  cases op with
  | load key => exact absurd rfl (silent key)
  | _ => exact retains

theorem retains_of_quiet {op : Op} (quiet : op.IsQuiet) : op.Retains := by
  cases op <;> trivial

theorem not_load_of_quiet {op : Op} (quiet : op.IsQuiet) (key : String) : op ≠ .load key := by
  rintro rfl
  exact quiet

end Delivery

namespace Executor

variable (executor sink record) in
/-- The program delivers the record from the given state on. -/
abbrev Delivers {α : Type} (post : α → Delivery → Prop) (program : Prog α) (state : Delivery) :
    Prop :=
  program.Conforms Delivery.Admits executor.Known
    (Delivery.protocol executor sink record) post state

/-- A program that retains does so after a delivery. -/
theorem delivers_settled {α : Type} {program : Prog α}
    (safe : Safe (S := Engine) Delivery.Admits Op.Retains executor.Known program) :
    executor.Delivers sink record (fun _ _ => True) program .settled := by
  refine Conforms.mono (conforms_of_safe ?_) fun _ _ _ => trivial
  exact safe.mono (fun op retains => ⟨retains, fun _ => rfl⟩) (fun _ => id) fun _ => id

/-- Without a sink, an approve step or a join, nodes retain and quietly save states. -/
theorem allows_retains (node : Node) (other : node.step ≠ .sink) :
    executor.Allows Op.Retains node where
  quiet _ quiet := Delivery.retains_of_quiet quiet
  state _ _ := trivial
  send isSink := absurd isSink other
  lookup isSink := absurd isSink other
  marker isSink := absurd isSink other
  queue _ _ := trivial
  park _ _ _ := trivial
  wait _ _ := trivial
  join _ _ _ _ _ _ _ := trivial
  update _ _ := trivial
  collect _ _ _ _ := trivial
  merge _ := trivial
  emit _ _ := trivial

/-- The store is found configured. -/
theorem delivers_hasStore {state : Delivery} (resting : state = .idle ∨ state = .accepted) :
    executor.Delivers sink record (fun stored after => stored = true ∧ after = state)
      Perform.hasStore state := by
  rcases resting with rfl | rfl
  · exact conforms_op trivial fun _ present => ⟨present, rfl⟩
  · exact conforms_op (.inl rfl) fun _ present => ⟨present, rfl⟩

/-- Looking up the marker either ends a delivery or clears it. -/
theorem delivers_isDelivered : executor.Delivers sink record
    (fun delivered state => state = if delivered then .settled else .cleared)
    (executor.isDelivered record) .idle := by
  refine (delivers_hasStore (.inl rfl)).bind fun stored state after => ?_
  obtain ⟨rfl, rfl⟩ := after
  have lookup : executor.Delivers sink record
      (fun loaded state =>
        state = Delivery.advance .idle (.load (executor.deliveredKey record)) loaded)
      (Perform.load (executor.deliveredKey record)) .idle :=
    conforms_op rfl fun response _ => rfl
  refine lookup.bind fun loaded state after => ?_
  subst after
  cases loaded with
  | error _ => exact conforms_pure rfl
  | ok found => cases found <;> exact conforms_pure rfl

theorem delivers_markDelivered : executor.Delivers sink record
    (fun _ state => state = .settled) (executor.markDelivered record) .accepted := by
  refine (delivers_hasStore (.inr rfl)).bind fun stored state after => ?_
  obtain ⟨rfl, rfl⟩ := after
  have saved : executor.Delivers sink record (fun _ state => state = .settled)
      (Perform.save (executor.deliveredKey record) (.bool true)) .accepted :=
    conforms_op (.inr rfl) fun _ _ => rfl
  exact saved.bind fun _ _ after => conforms_pure after

variable {node : Node}

/-- **A sink looks up, sends and marks.** -/
theorem delivers_deliver : executor.Delivers node.id record (fun _ _ => True)
    (executor.deliver node record) .idle := by
  have quietly : ∀ op : Op, op.IsQuiet →
      Safe (S := Engine) Delivery.Admits Op.Retains executor.Known (.op op) :=
    fun op quiet => safe_op (Delivery.retains_of_quiet quiet)
  refine delivers_isDelivered.bind fun delivered state after => ?_
  subst after
  cases delivered with
  | true => exact delivers_settled (quietly (.count .duplicates) trivial)
  | false =>
      have sent : executor.Delivers node.id record
          (fun response state => state = Delivery.advance .cleared (.send node.id record) response)
          (Perform.send node.id record) .cleared :=
        conforms_op rfl fun response _ => rfl
      refine sent.bind fun response state after => ?_
      subst after
      cases response with
      | error failure =>
          exact delivers_settled (Safe.bind (quietly (.count .errors) trivial) fun _ =>
            Safe.bind (quietly (.tickStep node.id .errors) trivial) fun _ =>
              quietly (.recordError node.id "sink" failure.text) trivial)
      | ok _ =>
          refine delivers_markDelivered.bind fun _ state after => ?_
          subst after
          have plain : executor.Allows Op.Retains default := allows_retains default nofun
          exact delivers_settled (Safe.bind (quietly (.count .processed) trivial) fun _ =>
            Safe.bind (quietly (.tickStep node.id .processed) trivial) fun _ =>
              safe_maybeCheckpoint plain.performs)

/-- **The walk of a sink is a delivery.** -/
theorem delivers_walk {id : String} (found : executor.graph.node id = some node)
    (isSink : node.step = .sink) (named : node.id = id) :
    executor.Delivers id record (fun _ _ => True) (executor.walk record id) .idle := by
  subst named
  unfold walk
  rw [found]
  have guard : executor.Delivers node.id record (fun _ state => state = .idle)
      (executor.nodeOpen node record.payload) .idle := by
    refine conforms_of_safe (safe_nodeOpen (fun op quiet => ?_) record.payload)
    have silent := Delivery.not_load_of_quiet quiet
    exact ⟨Delivery.permits_idle (Delivery.retains_of_quiet quiet) silent,
      Delivery.advance_idle silent⟩
  refine guard.bind fun isOpen state after => ?_
  subst after
  cases isOpen with
  | false => exact conforms_pure trivial
  | true =>
      unfold applyStep
      rw [isSink]
      exact delivers_deliver.bind fun _ _ _ => conforms_pure trivial

end Executor

end Conformance

/-- The entry of the store under a key. -/
def World.entry (world : World) (key : String) : Option Value :=
  world.store.bind fun entries => entries key

/-- Entries stay when nothing is deleted. -/
theorem World.entry_perform {host : Host} {world : World} {op : Op}
    (keeps : ∀ key, op ≠ .delete key)
    {key : String} (present : (world.entry key).isSome = true) :
    ((World.perform host world op).2.entry key).isSome = true := by
  unfold World.entry at present ⊢
  rw [World.perform_store]
  obtain ⟨value, found⟩ := Option.isSome_iff_exists.mp present
  obtain ⟨entries, stored, entry⟩ := Option.bind_eq_some_iff.mp found
  rw [stored]
  show (World.stored op entries key).isSome = true
  cases op with
  | save name value =>
      show (Function.update entries name (some value) key).isSome = true
      rw [Function.update_apply]
      split
      · rfl
      · rw [entry]
        rfl
  | delete name => exact absurd rfl (keeps name)
  | _ =>
      show (entries key).isSome = true
      rw [entry]
      rfl

/-- A sink accepts a record. -/
def Accepts (host : Host) (sink : String) (record : Record)
    (step : Occurrence (Traced Engine) World) : Prop :=
  step.op.1 = .send sink record ∧
    (World.perform host step.world (.send sink record)).1 = .ok ()

section Races

variable (executor : Executor) (host : Host)

/-- A sink is delivering a record of the key. -/
def Delivering (steps : List (Occurrence (Traced Engine) World)) (sink key : String)
    (visit : Visit Engine) : Prop :=
  ∃ record, executor.delivers visit = some (sink, record) ∧
    executor.idempotencyKey record = key ∧ (executor.delivery host steps visit).Open

/-- When a visit looks up the marker of a record for a sink, no other visit is delivering
a record of its key to that sink. -/
def LooksUpAlone (before : List (Occurrence (Traced Engine) World))
    (step : Occurrence (Traced Engine) World) : Prop :=
  ∀ key sink record, step.op.1 = .load key → executor.delivers step.op.2 = some (sink, record) →
    ∀ other, other ≠ step.op.2 →
      ¬ Delivering executor host before sink (executor.idempotencyKey record) other

/-- No sink has accepted a record of the key before. -/
def AcceptsFirst (before : List (Occurrence (Traced Engine) World))
    (step : Occurrence (Traced Engine) World) : Prop :=
  ∀ sink record, Accepts host sink record step → ∀ earlier ∈ before, ∀ other,
    Accepts host sink other earlier → executor.idempotencyKey other ≠ executor.idempotencyKey record

/-- What holds along a run whose lookups are alone. -/
structure Delivered (steps : List (Occurrence (Traced Engine) World)) (world : World) : Prop where
  single : ∀ sink key first second, Delivering executor host steps sink key first →
    Delivering executor host steps sink key second → first = second
  marked : ∀ step ∈ steps, ∀ sink record, Accepts host sink record step →
    (world.entry (executor.deliveredKey record)).isSome = true ∨
      executor.delivers step.op.2 = some (sink, record) ∧
        executor.delivery host steps step.op.2 = .accepted
  clear : ∀ visit sink record, executor.delivers visit = some (sink, record) →
    executor.delivery host steps visit = .cleared → ∀ step ∈ steps, ∀ other,
      Accepts host sink other step → executor.idempotencyKey other ≠ executor.idempotencyKey record
  once : EachStep (AcceptsFirst executor host) steps

variable {executor host} {steps : List (Occurrence (Traced Engine) World)} {world : World}
  {index : Nat} {op : Op} {visit other : Visit Engine} {sink key : String} {record : Record}

@[simp] theorem delivery_nil : executor.delivery host [] visit = .idle := by
  refine progress_nil.trans ?_
  unfold Executor.deliveries
  cases executor.delivers visit <;> rfl

theorem delivery_of_ne (differ : other ≠ visit) :
    executor.delivery host (steps ++ [⟨index, world, (op, visit)⟩]) other =
      executor.delivery host steps other :=
  progress_snoc_of_ne fun same => differ same.symm

theorem delivery_self (delivers : executor.delivers visit = some (sink, record)) :
    executor.delivery host (steps ++ [⟨index, world, (op, visit)⟩]) visit =
      Delivery.advance (executor.delivery host steps visit) op (World.perform host world op).1 := by
  refine progress_snoc_self.trans ?_
  unfold Executor.deliveries
  rw [delivers]
  rfl

theorem delivery_passing (passes : executor.delivers visit = none) :
    executor.delivery host (steps ++ [⟨index, world, (op, visit)⟩]) visit =
      executor.delivery host steps visit := by
  refine progress_snoc_self.trans ?_
  unfold Executor.deliveries
  rw [passes]
  rfl

/-- What has been saved is found. -/
theorem entry_perform_save {value : Value} (stored : world.store.isSome = true) :
    ((World.perform host world (.save key value)).2.entry key).isSome = true := by
  obtain ⟨entries, found⟩ := Option.isSome_iff_exists.mp stored
  unfold World.entry
  rw [World.perform_store, found]
  show (Function.update entries key (some value) key).isSome = true
  rw [Function.update_self]
  rfl

namespace Delivered

/-- Steps by which no sink accepts a record and no delivery begins. -/
theorem calm (holds : Delivered executor host steps world) (keeps : ∀ key, op ≠ .delete key)
    (refuses : ∀ sink record, ¬ Accepts host sink record ⟨index, world, (op, visit)⟩)
    (ends : executor.delivery host (steps ++ [⟨index, world, (op, visit)⟩]) visit =
        executor.delivery host steps visit ∨
      executor.delivery host (steps ++ [⟨index, world, (op, visit)⟩]) visit = .settled ∧
        ∀ sink record, executor.delivers visit = some (sink, record) →
          executor.delivery host steps visit = .accepted →
            ((World.perform host world op).2.entry (executor.deliveredKey record)).isSome = true) :
    Delivered executor host (steps ++ [⟨index, world, (op, visit)⟩])
      (World.perform host world op).2 := by
  have phase : ∀ other, executor.delivery host (steps ++ [⟨index, world, (op, visit)⟩]) other ≠
      .settled → executor.delivery host (steps ++ [⟨index, world, (op, visit)⟩]) other =
        executor.delivery host steps other := by
    intro other unsettled
    by_cases same : other = visit
    · subst same
      exact ends.resolve_right fun settled => unsettled settled.1
    · exact delivery_of_ne same
  have earlier : ∀ {sink key other},
      Delivering executor host (steps ++ [⟨index, world, (op, visit)⟩]) sink key other →
        Delivering executor host steps sink key other := by
    rintro sink key other ⟨record, delivers, same, open_⟩
    refine ⟨record, delivers, same, ?_⟩
    rwa [phase other] at open_
    intro settled
    rw [settled] at open_
    exact open_
  refine ⟨fun sink key first second left right => ?_, fun step member sink record accepts => ?_,
    fun other sink record delivers cleared step member third accepts => ?_, ?_⟩
  · exact holds.single sink key first second (earlier left) (earlier right)
  · rcases List.mem_append.mp member with old | new
    · rcases holds.marked step old sink record accepts with present | ⟨delivers, accepted⟩
      · exact .inl (World.entry_perform keeps present)
      · by_cases same : step.op.2 = visit
        · rw [same] at accepted delivers ⊢
          rcases ends with unchanged | ⟨-, marks⟩
          · exact .inr ⟨delivers, unchanged.trans accepted⟩
          · exact .inl (marks sink record delivers accepted)
        · exact .inr ⟨delivers, (delivery_of_ne same).trans accepted⟩
    · rw [List.mem_singleton.mp new] at accepts
      exact absurd accepts (refuses sink record)
  · rcases List.mem_append.mp member with old | new
    · rw [phase other (by rw [cleared]; exact Delivery.noConfusion)] at cleared
      exact holds.clear other sink record delivers cleared step old third accepts
    · rw [List.mem_singleton.mp new] at accepts
      exact absurd accepts (refuses sink third)
  · exact eachStep_snoc.mpr
      ⟨holds.once, fun sink record accepts => absurd accepts (refuses sink record)⟩

/-- A lookup that finds nothing begins a delivery. -/
theorem clears (holds : Delivered executor host steps world)
    (delivers : executor.delivers visit = some (sink, record))
    (idle : executor.delivery host steps visit = .idle)
    (alone : LooksUpAlone executor host steps
      ⟨index, world, (.load (executor.deliveredKey record), visit)⟩)
    (absent : world.entry (executor.deliveredKey record) = none) :
    Delivered executor host
      (steps ++ [⟨index, world, (.load (executor.deliveredKey record), visit)⟩]) world := by
  have quiet : ∀ {key other}, other ≠ visit → key = executor.idempotencyKey record →
      ¬ Delivering executor host steps sink key other := by
    rintro key other differ rfl
    exact alone _ sink record rfl delivers other differ
  have refuses : ∀ sink other, ¬ Accepts host sink other
      ⟨index, world, (.load (executor.deliveredKey record), visit)⟩ :=
    fun sink other accepts => nomatch accepts.1
  have earlier : ∀ {sink key other}, other ≠ visit →
      Delivering executor host
        (steps ++ [⟨index, world, (.load (executor.deliveredKey record), visit)⟩]) sink key other →
          Delivering executor host steps sink key other := by
    rintro sink key other differ ⟨third, delivers, same, open_⟩
    rw [delivery_of_ne differ] at open_
    exact ⟨third, delivers, same, open_⟩
  have own : ∀ {other key}, Delivering executor host
      (steps ++ [⟨index, world, (.load (executor.deliveredKey record), visit)⟩]) other key visit →
        other = sink ∧ key = executor.idempotencyKey record := by
    rintro other key ⟨third, same, rfl, -⟩
    rw [delivers] at same
    cases same
    exact ⟨rfl, rfl⟩
  refine ⟨fun other key first second left right => ?_, fun step member other third accepts => ?_,
    fun other sink' record' delivers' cleared step member third accepts => ?_, ?_⟩
  · by_cases first_ : first = visit
    · by_cases second_ : second = visit
      · exact first_.trans second_.symm
      · subst first_
        obtain ⟨rfl, same⟩ := own left
        exact absurd (earlier second_ right) (quiet second_ same)
    · by_cases second_ : second = visit
      · subst second_
        obtain ⟨rfl, same⟩ := own right
        exact absurd (earlier first_ left) (quiet first_ same)
      · exact holds.single other key first second (earlier first_ left) (earlier second_ right)
  · rcases List.mem_append.mp member with old | new
    · refine (holds.marked step old other third accepts).imp_right fun accepted => ?_
      refine ⟨accepted.1, (delivery_of_ne fun same => ?_).trans accepted.2⟩
      rw [same, idle] at accepted
      exact Delivery.noConfusion accepted.2
    · rw [List.mem_singleton.mp new] at accepts
      exact absurd accepts (refuses other third)
  · rcases List.mem_append.mp member with old | new
    · by_cases same : other = visit
      · subst same
        rw [delivers] at delivers'
        cases delivers'
        intro equal
        rcases holds.marked step old sink third accepts with present | ⟨accepting, accepted⟩
        · unfold Executor.deliveredKey at present absent
          rw [equal, absent] at present
          cases present
        · have differ : step.op.2 ≠ other := by
            rintro rfl
            rw [idle] at accepted
            exact Delivery.noConfusion accepted
          refine quiet differ equal ⟨third, accepting, rfl, ?_⟩
          rw [accepted]
          trivial
      · rw [delivery_of_ne same] at cleared
        exact holds.clear other sink' record' delivers' cleared step old third accepts
    · rw [List.mem_singleton.mp new] at accepts
      exact absurd accepts (refuses sink' third)
  · exact eachStep_snoc.mpr
      ⟨holds.once, fun sink record accepts => absurd accepts (refuses sink record)⟩

/-- A sink accepts a record whose marker has not been found. -/
theorem accepts (holds : Delivered executor host steps world)
    (delivers : executor.delivers visit = some (sink, record))
    (cleared : executor.delivery host steps visit = .cleared)
    (accepted : (World.perform host world (.send sink record)).1 = .ok ()) :
    Delivered executor host (steps ++ [⟨index, world, (.send sink record, visit)⟩])
      (World.perform host world (.send sink record)).2 := by
  have delivering : Delivering executor host steps sink (executor.idempotencyKey record) visit := by
    refine ⟨record, delivers, rfl, ?_⟩
    rw [cleared]
    trivial
  have now : executor.delivery host (steps ++ [⟨index, world, (.send sink record, visit)⟩]) visit =
      .accepted := by
    rw [delivery_self delivers, cleared, accepted]
    rfl
  have earlier : ∀ {other key third},
      Delivering executor host
        (steps ++ [⟨index, world, (.send sink record, visit)⟩]) other key third →
        Delivering executor host steps other key third := by
    rintro other key third ⟨brought, delivers', same, open_⟩
    by_cases equal : third = visit
    · subst equal
      rw [delivers] at delivers'
      cases delivers'
      exact ⟨record, delivers, same, cleared ▸ trivial⟩
    · rw [delivery_of_ne equal] at open_
      exact ⟨brought, delivers', same, open_⟩
  refine ⟨fun other key first second left right => ?_, fun step member other third received => ?_,
    fun other sink' record' delivers' cleared' step member third received => ?_, ?_⟩
  · exact holds.single other key first second (earlier left) (earlier right)
  · rcases List.mem_append.mp member with old | new
    · rcases holds.marked step old other third received with present | ⟨delivers', accepted'⟩
      · exact .inl (World.entry_perform (fun _ => Op.noConfusion) present)
      · refine .inr ⟨delivers', (delivery_of_ne fun same => ?_).trans accepted'⟩
        rw [same, cleared] at accepted'
        exact Delivery.noConfusion accepted'
    · rw [List.mem_singleton.mp new] at received ⊢
      obtain ⟨same, -⟩ := received
      cases same
      exact .inr ⟨delivers, now⟩
  · have differ : other ≠ visit := by
      rintro rfl
      rw [now] at cleared'
      exact Delivery.noConfusion cleared'
    rw [delivery_of_ne differ] at cleared'
    rcases List.mem_append.mp member with old | new
    · exact holds.clear other sink' record' delivers' cleared' step old third received
    · rw [List.mem_singleton.mp new] at received
      obtain ⟨same, -⟩ := received
      cases same
      intro equal
      refine differ (holds.single sink (executor.idempotencyKey record) other visit
        ⟨record', delivers', equal.symm, ?_⟩ delivering)
      rw [cleared']
      trivial
  · refine eachStep_snoc.mpr ⟨holds.once, fun other third received step member fourth first => ?_⟩
    obtain ⟨same, -⟩ := received
    cases same
    exact holds.clear visit sink record delivers cleared step member fourth first

/-- Steps that retain and leave the delivery where it is. -/
theorem quiet (holds : Delivered executor host steps world) (retains : op.Retains)
    (same : executor.delivery host (steps ++ [⟨index, world, (op, visit)⟩]) visit =
      executor.delivery host steps visit) :
    Delivered executor host (steps ++ [⟨index, world, (op, visit)⟩])
      (World.perform host world op).2 := by
  refine holds.calm (fun key => ?_) (fun sink record accepts => ?_) (.inl same)
  · rintro rfl
    exact retains
  · cases accepts.1
    exact retains

/-- **Deliveries, one step.** -/
theorem step (stored : world.store.isSome = true) (holds : Delivered executor host steps world)
    (alone : LooksUpAlone executor host steps ⟨index, world, (op, visit)⟩)
    (permitted : (executor.deliveries visit).permits (executor.delivery host steps visit) op) :
    Delivered executor host (steps ++ [⟨index, world, (op, visit)⟩])
      (World.perform host world op).2 := by
  unfold Executor.deliveries at permitted
  cases delivers : executor.delivers visit with
  | none =>
      rw [delivers] at permitted
      exact holds.quiet permitted (delivery_passing delivers)
  | some target =>
      obtain ⟨sink, record⟩ := target
      rw [delivers] at permitted
      have moved := @delivery_self executor host steps world index op visit sink record delivers
      cases phase : executor.delivery host steps visit with
      | idle =>
          rw [phase] at permitted moved
          by_cases lookup : ∃ key, op = .load key
          · obtain ⟨key, rfl⟩ := lookup
            obtain rfl : key = executor.deliveredKey record := permitted
            cases found : world.entry (executor.deliveredKey record) with
            | none => exact holds.clears delivers phase alone found
            | some value =>
                have response :
                    (World.perform host world (.load (executor.deliveredKey record))).1 =
                    .ok (some value) := congrArg Except.ok found
                rw [response] at moved
                refine holds.calm (fun key => Op.noConfusion)
                  (fun sink record accepts => Op.noConfusion accepts.1) (.inr ⟨moved, ?_⟩)
                intro _ _ _ accepted
                rw [phase] at accepted
                exact Delivery.noConfusion accepted
          · have silent : ∀ key, op ≠ .load key := fun key same => lookup ⟨key, same⟩
            rw [Delivery.advance_idle silent, ← phase] at moved
            refine holds.quiet ?_ moved
            cases op with
            | load key => exact absurd rfl (silent key)
            | _ => exact permitted
      | cleared =>
          rw [phase] at permitted moved
          obtain rfl : op = .send sink record := permitted
          cases response : (World.perform host world (.send sink record)).1 with
          | ok _ => exact holds.accepts delivers phase response
          | error failure =>
              rw [response] at moved
              refine holds.calm (fun key => Op.noConfusion) (fun other third accepts => ?_)
                (.inr ⟨moved, ?_⟩)
              · obtain ⟨same, accepted⟩ := accepts
                cases same
                cases response.symm.trans accepted
              · intro _ _ _ accepted
                rw [phase] at accepted
                exact Delivery.noConfusion accepted
      | accepted =>
          rw [phase] at permitted moved
          obtain rfl | rfl : op = .hasStore ∨
              op = .save (executor.deliveredKey record) (.bool true) := permitted
          · exact holds.quiet trivial (moved.trans phase.symm)
          · refine holds.calm (fun key => Op.noConfusion)
              (fun sink record accepts => Op.noConfusion accepts.1) (.inr ⟨moved, ?_⟩)
            intro other third delivers' _
            rw [delivers] at delivers'
            cases delivers'
            exact entry_perform_save stored
      | settled =>
          rw [phase] at permitted moved
          have retains : op.Retains := permitted
          exact holds.quiet retains (moved.trans phase.symm)

end Delivered

end Races

section Runs

variable {registry : Registry} {hashOrder : HashOrder} {flow : FlowConfig} {ctx : BuildContext}
  {executor : Executor} {host : Host} {world : World}
  {steps : List (Occurrence (Traced Engine) World)} {config : Config (Traced Engine) World}

/-- A program that retains passes. -/
theorem passes_of_safe {α : Type} {program : Prog α} {admits : (op : Op) → op.Response → Prop}
    {onCall : Call → Prop} (safe : Safe (S := Engine) admits Op.Retains onCall program) :
    program.Conforms admits onCall Delivery.passing (fun _ _ => True) .idle := by
  refine Conforms.mono (conforms_of_safe ?_) fun _ _ _ => trivial
  exact safe.mono (fun op retains => ⟨retains, fun _ => rfl⟩) (fun _ => id) fun _ => id

/-- Every walk is a delivery or passes. -/
theorem conforms_walkCall (formed : executor.graph.WellFormed) (parent : Visit Engine)
    (hop : Hop Engine) (known : executor.Known hop.call) :
    (walkCall hop.call).Conforms Delivery.Admits executor.Known
      (executor.deliveries (parent.enter hop)) (fun _ _ => True)
        (executor.deliveries (parent.enter hop)).rest := by
  unfold Executor.deliveries Executor.delivers
  rw [Visit.call_enter]
  obtain ⟨same, node, found⟩ := known
  unfold walkCall
  rw [same]
  by_cases isSink : executor.isSink hop.call.node = true
  · simp only [isSink, if_true]
    exact Executor.delivers_walk found ((Executor.isSink_iff found).mp isSink) (formed.named found)
  · simp only [isSink]
    have retains : executor.Allows Op.Retains node :=
      Executor.allows_retains node fun sink => isSink ((Executor.isSink_iff found).mpr sink)
    exact passes_of_safe
      (Executor.safe_walk found retains.performs (Executor.leads_known formed found) _)

/-- Whether a step looks up an entry. -/
def looksUp (step : Occurrence (Traced Engine) World) : Bool :=
  match step.op.1 with
  | .load _ => true
  | _ => false

/-- A visit that has looked up nothing is delivering nothing. -/
theorem delivery_of_no_lookup {visit : Visit Engine}
    (never : ∀ step ∈ steps, looksUp step = true → step.op.2 ≠ visit) :
    executor.delivery host steps visit = .idle := by
  induction steps using List.reverseRecOn with
  | nil => exact delivery_nil
  | append_singleton steps step ih =>
      have earlier := ih fun other member => never other (List.mem_append_left _ member)
      have last := never step (List.mem_append_right _ List.mem_cons_self)
      obtain ⟨index, world, op, by_⟩ := step
      by_cases own : visit = by_
      · subst own
        cases delivers : executor.delivers visit with
        | none => exact (delivery_passing delivers).trans earlier
        | some target =>
            obtain ⟨sink, record⟩ := target
            rw [delivery_self delivers, earlier]
            refine Delivery.advance_idle ?_ _
            rintro key rfl
            exact last rfl rfl
      · exact (delivery_of_ne own).trans earlier

/-- Every lookup finds those that have looked up before it done. -/
def LooksUpInTurn (executor : Executor) (host : Host) (before : List (Occurrence (Traced Engine) World))
    (step : Occurrence (Traced Engine) World) : Prop :=
  looksUp step = true → ∀ earlier ∈ before, looksUp earlier = true →
    ¬ (executor.delivery host before earlier.op.2).Open

/-- Lookups in turn are alone. -/
theorem alone_of_inTurn (turns : EachStep (LooksUpInTurn executor host) steps) :
    EachStep (LooksUpAlone executor host) steps := by
  rintro before step after rfl key sink record lookup - other - ⟨_, -, -, open_⟩
  have here : looksUp step = true := by
    unfold looksUp
    rw [lookup]
  have looked : ∃ earlier ∈ before, looksUp earlier = true ∧ earlier.op.2 = other := by
    by_contra none_
    rw [delivery_of_no_lookup fun earlier member looks same =>
      none_ ⟨earlier, member, looks, same⟩] at open_
    exact open_
  obtain ⟨earlier, member, looks, rfl⟩ := looked
  exact turns before step after rfl here earlier member looks open_

/-- **Deliveries that look up alone are the only ones of their keys.** In every run with a
store, no sink accepts two records of one key, provided no lookup of a marker falls
between the lookup and the save of another delivery of that key to the same sink. -/
theorem accepted_once (accepted : FlowGraph.Accepted registry hashOrder flow ctx executor.graph)
    (stored : world.store.isSome = true) (run : executor.TracedRun host world steps config)
    (alone : EachStep (LooksUpAlone executor host) steps) :
    EachStep (AcceptsFirst executor host) steps := by
  have formed := accepted.wellFormed
  have tracked : Config.Tracked executor.deliveries (World.perform host) Delivery.Admits
      executor.Known walkCall [] ⟨world, spawnedAll executor.programs⟩ :=
    Config.tracked_spawnedAll fun origin program member =>
      passes_of_safe (Executor.safe_programs formed (Executor.allows_retains default nofun).performs
        (fun _ _ => trivial) (fun _ _ => trivial) (fun _ => trivial) program member)
  have initial : Delivered executor host [] world := by
    refine ⟨fun sink key first second left => ?_, fun _ member => ?_,
      fun visit sink record delivers cleared step member => ?_, eachStep_nil⟩
    · obtain ⟨record, delivers, same, open_⟩ := left
      rw [delivery_nil] at open_
      exact open_.elim
    · cases member
    · cases member
  have kept := tracked.run (fun steps world => world.store.isSome = true ∧
      (EachStep (LooksUpAlone executor host) steps → Delivered executor host steps world))
    (conforms_walkCall formed) (fun steps world index op visit holds permitted => ?_)
    ⟨stored, fun _ => initial⟩ run
  · exact (kept.2.2 alone).once
  · obtain ⟨present, delivered⟩ := holds
    refine ⟨?_, ?_, fun alone => ?_⟩
    · cases op with
      | hasStore => exact present
      | _ => trivial
    · rw [World.perform_store, Option.isSome_map]
      exact present
    · obtain ⟨earlier, last⟩ := eachStep_snoc.mp alone
      exact (delivered earlier).step present last permitted

end Runs

namespace Sample

/-- Two sources in front of one sink. -/
def twinFlow : FlowConfig :=
  { FlowGraph.Sample.intake with
    triggers := []
    steps := [FlowGraph.Sample.source "a", FlowGraph.Sample.source "b",
      FlowGraph.Sample.sink "out"]
    edges := [.pair "a" "out", .pair "b" "out"] }

/-- The graph of the two sources. -/
def twinGraph : FlowGraph where
  name := "intake"
  nodes := (((∅ : BTreeMap Node).insert "a"
    ⟨"a", none, .fail, .source, [⟨"out", none⟩], 0, none⟩).insert "b"
      ⟨"b", none, .fail, .source, [⟨"out", none⟩], 0, none⟩).insert "out"
        ⟨"out", none, .fail, .sink, [], 2, none⟩
  roots := ["a", "b"]

/-- A record under an explicit key. -/
def keyed (payload : Value) : Record :=
  { record payload with metadata := [("idempotency_key", "order-7")] }

/-- Every source reads one record of the same key. -/
def oneKeyed (source : String) : Except Error (List Item) := .ok [.ok (keyed (.string source))]

/-- A process with an empty store. -/
def storing : World := .start (some fun _ => none) (fun _ => none) fun _ => []

theorem twinFlow_built : FlowGraph.build FlowGraph.Sample.registry FlowGraph.Sample.hashOrder
    twinFlow FlowGraph.Sample.ctx = .ok twinGraph := rfl

/-- Both sources look up the marker before either of them saves it. -/
def together : List Nat :=
  List.replicate 7 0 ++ List.replicate 7 1 ++ List.replicate 20 0 ++ List.replicate 20 1

/-- The run of the two sources, and its final pass. -/
def twin : (List (Occurrence Engine World) × Config Engine World) ×
    (List (Occurrence Engine World) × Config Engine World) :=
  (Supervised.playRunning (S := Engine) walkCall (World.perform (host oneKeyed)) storing
      (executor twinGraph).sourceTasks together,
    Supervised.playPass (S := Engine) walkCall (World.perform (host oneKeyed))
      (executor twinGraph).flushAll storing (executor twinGraph).sourceTasks together
      (List.replicate 20 0))

theorem twin_phase : (executor twinGraph).RunPhase (host oneKeyed) storing twin.1.1
    (twin.2.1.map (Supervised.inTask 0))
    ⟨⟨twin.2.2.world, twin.1.2.tasks⟩, .returned (.ok ())⟩ :=
  Supervised.phase_of_play rfl rfl

/-- A run with a store has returned without an error, and its sink has written two records
of one key. -/
theorem twin_written_twice :
    FlowGraph.build FlowGraph.Sample.registry FlowGraph.Sample.hashOrder twinFlow
        FlowGraph.Sample.ctx = .ok twinGraph ∧
      ∃ running pass state,
        (executor twinGraph).RunPhase (host oneKeyed) storing running pass state ∧
        storing.store.isSome = true ∧ state.main = .returned (.ok ()) ∧
        (state.spawned.world.written "out").map (executor twinGraph).idempotencyKey =
          ["order-7", "order-7"] ∧
        (state.spawned.world.written "out").map (·.payload) = [.string "a", .string "b"] ∧
        [Counter.errors, .duplicates].map state.spawned.world.counters = [0, 0] :=
  ⟨twinFlow_built, _, _, _, twin_phase, rfl, rfl, rfl, rfl, rfl⟩

/-- The sources one after the other. -/
def twinTurns : List (Occurrence (Traced Engine) World) × Config (Traced Engine) World :=
  Config.play (S := Traced Engine) (tracedBody walkCall)
    (fun _ => tracedHandle (World.perform (host oneKeyed)))
    ⟨storing, spawnedAll (executor twinGraph).programs⟩
    (List.replicate 20 0 ++ List.replicate 20 1)

/-- The visit of the sink for the record of a source. -/
def twinVisit (origin : Nat) (source : String) : Visit Engine :=
  ⟨origin, ["out", source].map fun node =>
    ⟨0, 0, ⟨executor twinGraph, keyed (.string source), node⟩⟩⟩

theorem twinTurns_visits : twinTurns.1.map (·.op.2) =
    ⟨0, []⟩ :: (List.replicate 7 (twinVisit 0 "a") ++
      ⟨1, []⟩ :: List.replicate 3 (twinVisit 1 "b")) := rfl

theorem twinTurns_lookups : twinTurns.1.map looksUp =
    [false, false, true, false, false, false, false, false, false, false, true, false] := rfl

/-- The operations of the first delivery. -/
def ofFirst (step : Occurrence (Traced Engine) World) : Bool :=
  step.op.2.origin == 0 && step.op.2.hops.length == 2

theorem ofFirst_tells {step : Occurrence (Traced Engine) World} (member : step ∈ twinTurns.1) :
    ofFirst step = true ↔ step.op.2 = twinVisit 0 "a" := by
  have inside : step.op.2 ∈ twinTurns.1.map (·.op.2) := List.mem_map_of_mem member
  refine ⟨fun first => ?_, fun same => ?_⟩
  · unfold ofFirst at first
    rw [twinTurns_visits, List.mem_cons, List.mem_append, List.mem_cons] at inside
    rcases inside with root | own | second | later
    · rw [root] at first
      cases first
    · exact (List.mem_replicate.mp own).2
    · rw [second] at first
      cases first
    · rw [(List.mem_replicate.mp later).2] at first
      cases first
  · unfold ofFirst
    rw [same]
    rfl

/-- The first delivery is done when the second one looks up. -/
theorem twinTurns_settled : (executor twinGraph).delivery (host oneKeyed) (twinTurns.1.take 10)
    (twinVisit 0 "a") = .settled :=
  progress_eq_foldl fun _ member => ofFirst_tells (List.mem_of_mem_take member)

/-- The two sources look up in turn. -/
theorem twinTurns_inTurn : EachStep (LooksUpInTurn (executor twinGraph) (host oneKeyed)) twinTurns.1 := by
  intro before step after split looks earlier member first
  have position : ∀ index < 12, (twinTurns.1.map looksUp)[index]? = some true →
      index = 2 ∨ index = 10 := by
    rw [twinTurns_lookups]
    decide
  have here : (twinTurns.1.map looksUp)[before.length]? = some true := by
    rw [split, List.getElem?_map, List.getElem?_append_right (Nat.le_refl _), Nat.sub_self]
    exact congrArg some looks
  have inside : before.length < 12 := (List.getElem?_eq_some_iff.mp here).1
  have prior : before = twinTurns.1.take before.length := by
    rw [split, List.take_left]
  obtain second | eleventh := position _ inside here
  · rw [second] at prior
    rw [prior] at member
    have among : looksUp earlier ∈ List.replicate 2 false :=
      List.mem_map_of_mem (f := looksUp) member
    rw [first] at among
    cases (List.mem_replicate.mp among).2
  · rw [eleventh] at prior
    rw [prior] at member ⊢
    have among : earlier.op.2 ∈ ((twinTurns.1.take 10).filter looksUp).map (·.op.2) :=
      List.mem_map_of_mem (List.mem_filter.mpr ⟨member, first⟩)
    have same : earlier.op.2 = twinVisit 0 "a" := List.mem_singleton.mp among
    rw [same, twinTurns_settled]
    exact id

/-- Of the two records of one key the sink accepts the one that comes first, and the second is
counted as a duplicate. -/
theorem twinTurns_accepted_once :
    EachStep (AcceptsFirst (executor twinGraph) (host oneKeyed)) twinTurns.1 ∧
      twinTurns.2.world.buffered "out" = [keyed (.string "a")] ∧
      [Counter.errors, .duplicates].map twinTurns.2.world.counters = [0, 1] := by
  have run : (executor twinGraph).TracedRun (host oneKeyed) storing twinTurns.1 twinTurns.2 :=
    Config.run_play _ _
  exact ⟨accepted_once (.inl twinFlow_built) rfl run (alone_of_inTurn twinTurns_inTurn), rfl, rfl⟩

end Sample

end Sohara
