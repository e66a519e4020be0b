import Sohara.Runtime.Propagation
import Sohara.Runtime.StateRaces

/-! # State steps are atomic

A state step evaluates all its fields on the state and the record as they were before. When
all evaluate, it writes the new state once, to memory and to the store, and routes the
record; when one fails, it counts an error and does nothing else.
-/

namespace Sohara

open Async Async.Program

section Definitions

/-- Others do not update the state of a step. -/
def Sparing (rely : World → World → Prop) (name : String) : Prop :=
  ∀ world after, rely world after → after.states.get? name = world.states.get? name

/-- Others do not update the state of a step, and the store stays configured. -/
structure Spares (name : String) (world after : World) : Prop where
  state : after.states.get? name = world.states.get? name
  present : after.store.isSome = world.store.isSome

/-- The entry of a key in the store, if one is configured. -/
def World.entryAt (world : World) (key : String) : Option (Option Value) := world.store.map (· key)

/-- Others do not write under a key. -/
def Quiet (rely : World → World → Prop) (key : String) : Prop :=
  ∀ world after, rely world after → after.entryAt key = world.entryAt key

/-- The state of a step is as before, and so is its entry in the store unless others write it. -/
structure Unaltered (rely : World → World → Prop) (name key : String) (world after : World) :
    Prop extends Spares name world after where
  entry : Quiet rely key → after.entryAt key = world.entryAt key

variable (executor : Executor) (host : Host) (rely : World → World → Prop) (node : Node)
  (exprs : List (String × Expr)) (record : Record)

/-- What an expression evaluates to, at some draws of the host. -/
def EvalsTo (synthetic : Value) (expr : Expr) (result : Except ExprError Value) : Prop :=
  ∃ time, eval executor.platform (host.draws time) ⟨executor.vars⟩ expr [] synthetic = result

/-- One evaluation of a field. -/
def evaluated (synthetic : Value) (expr : Expr) (result : Except ExprError Value) : Act Engine :=
  .performed (.eval executor.platform ⟨executor.vars⟩ expr synthetic) result

/-- The evaluations of fields, one after the other. -/
def evaluations (synthetic : Value) (exprs : List (String × Expr)) (values : List Value) :
    List (Act Engine) :=
  List.zipWith (fun entry value => evaluated executor synthetic entry.2 (.ok value)) exprs values

/-- The two reads of a state. -/
def reads (current : Option Value) : List (Act Engine) :=
  [.performed (.stateOf node.id) current, .performed (.stateOf node.id) current]

/-- A new state written to memory and to the store. -/
def written (state : Value) : List (Act Engine) :=
  [.performed (.setState node.id state) (), .performed .hasStore true,
    .performed (.save (executor.stateKey node.id) state) (.ok ())]

/-- **What an execution of a state step does**, from a world with a state of given fields. All
evaluations are made on that state, so none sees the result of another. -/
inductive StateStep (fields : Fields) (world : World) (acts : List (Act Engine)) (outcome : Outcome)
    (after : World) : Prop where
  | updated {values : List Value} {fields' : Fields} {routed : List (Act Engine)} {between : World}
      (evaluates : List.Forall₂ (fun entry value => EvalsTo executor host
        (syntheticValue record.payload (world.states.get? node.id)) entry.2 (.ok value)) exprs
          values)
      (updates : ∀ key, fields'.get? key =
        (Assoc.get? key ((exprs.map Prod.fst).zip values)).or (fields.get? key))
      (same : acts = reads node (world.states.get? node.id) ++ evaluations executor
        (syntheticValue record.payload (world.states.get? node.id)) exprs values ++
          written executor node (.object fields') ++ routed)
      (routes : (executor.route record node).Amid (World.perform host) rely between routed outcome
        after)
      (quiet : ∀ op ∈ operations routed, op.IsRouting node.id)
      (memory : after.states.get? node.id = some (.object fields'))
      (store : Quiet rely (executor.stateKey node.id) →
        after.entryAt (executor.stateKey node.id) = some (some (.object fields'))) :
      StateStep fields world acts outcome after
  | failed {done rest : List (String × Expr)} {entry : String × Expr} {values : List Value}
      {error : ExprError} (split : exprs = done ++ entry :: rest)
      (evaluates : List.Forall₂ (fun entry value => EvalsTo executor host
        (syntheticValue record.payload (world.states.get? node.id)) entry.2 (.ok value)) done
          values)
      (fails : EvalsTo executor host (syntheticValue record.payload (world.states.get? node.id))
        entry.2 (.error error))
      (same : acts = reads node (world.states.get? node.id) ++ evaluations executor
        (syntheticValue record.payload (world.states.get? node.id)) done values ++
          [evaluated executor (syntheticValue record.payload (world.states.get? node.id)) entry.2
            (.error error), .performed (.count .errors) ()])
      (ended : outcome = .ok ())
      (undisturbed : Unaltered rely node.id (executor.stateKey node.id) world after) :
      StateStep fields world acts outcome after

end Definitions

section Rely

variable {name key : String} {world between after : World} {rely : World → World → Prop}

theorem Sparing.meanwhile (spares : Sparing rely name) (change : Meanwhile rely world after) :
    after.states.get? name = world.states.get? name := by
  induction change with
  | refl => rfl
  | tail _ step ih => exact (spares _ _ step).trans ih

theorem Unaltered.refl (name key : String) (world : World) :
    Unaltered rely name key world world :=
  ⟨⟨rfl, rfl⟩, fun _ => rfl⟩

theorem Unaltered.trans (first : Unaltered rely name key world between)
    (second : Unaltered rely name key between after) : Unaltered rely name key world after :=
  ⟨⟨second.state.trans first.state, second.present.trans first.present⟩,
    fun quiet => (second.entry quiet).trans (first.entry quiet)⟩

theorem Unaltered.of_meanwhile
    (others : ∀ world after, rely world after → Spares name world after)
    (change : Meanwhile rely world after) : Unaltered rely name key world after := by
  induction change with
  | refl => exact .refl ..
  | tail _ step ih => exact ih.trans ⟨others _ _ step, fun quiet => quiet _ _ step⟩

/-- Operations that neither write states nor the store disturb nothing. -/
theorem Unaltered.perform {host : Host} {op : Op}
    (states : World.stated op world.states = world.states)
    (entries : ∀ entries, World.stored op entries = entries) :
    Unaltered rely name key world (World.perform host world op).2 where
  state := by rw [World.perform_states, states]
  present := by rw [World.perform_store, Option.isSome_map]
  entry _ := by
    unfold World.entryAt
    rw [World.perform_store]
    cases world.store with
    | none => rfl
    | some held => rw [Option.map_some, entries]

/-- Routing disturbs nothing. -/
theorem Unaltered.of_routing {host : Host} {op : Op} {id : String} (routing : op.IsRouting id) :
    Unaltered rely name key world (World.perform host world op).2 := by
  cases op with
  | eval platform ctx expr value => exact .perform rfl fun _ => rfl
  | count counter => exact .perform rfl fun _ => rfl
  | recordError step kind message => exact .perform rfl fun _ => rfl
  | _ => exact routing.elim

end Rely

section Reads

variable {host : Host} {rely : World → World → Prop} {node : Node} {record : Record}
  {world after : World} {acts : List (Act Engine)} (spares : Sparing rely node.id)
include spares

/-- A state is read as it is at the beginning. -/
theorem amid_stateOf {value : Option Value}
    (amid : (Perform.stateOf node.id).Amid (World.perform host) rely world acts value after) :
    acts = [.performed (.stateOf node.id) (world.states.get? node.id)] ∧
      value = world.states.get? node.id ∧ Meanwhile rely world after := by
  obtain ⟨between, before, rfl, rfl, later⟩ := amid.of_op
  have read : (World.perform host between (.stateOf node.id)).1 = world.states.get? node.id :=
    spares.meanwhile before
  rw [read]
  exact ⟨rfl, rfl, before.trans later⟩

/-- A read of a state that something is made of at once. -/
theorem amid_readState {α : Type} {value : α} {next : Option Value → Prog α}
    (made : Option Value → α) (ends : ∀ current, next current = pure (made current))
    (amid : (Perform.stateOf node.id >>= next).Amid (World.perform host) rely world acts value
      after) :
    acts = [.performed (.stateOf node.id) (world.states.get? node.id)] ∧
      value = made (world.states.get? node.id) ∧ Meanwhile rely world after := by
  obtain ⟨_, _, current, between, rfl, read, continued⟩ := amid.of_bind
  obtain ⟨rfl, rfl, before⟩ := amid_stateOf spares read
  rw [ends] at continued
  obtain ⟨rfl, rfl, later⟩ := continued.of_done
  exact ⟨rfl, rfl, before.trans later⟩

theorem amid_evalValue {synthetic : Value}
    (amid : (Executor.evalValue node record).Amid (World.perform host) rely world acts synthetic
      after) :
    acts = [.performed (.stateOf node.id) (world.states.get? node.id)] ∧
      synthetic = syntheticValue record.payload (world.states.get? node.id) ∧
      Meanwhile rely world after :=
  amid_readState spares (syntheticValue record.payload) (fun current => by cases current <;> rfl)
    amid

theorem amid_stateValue {state : Value}
    (amid : (Executor.stateValue node.id).Amid (World.perform host) rely world acts state after) :
    acts = [.performed (.stateOf node.id) (world.states.get? node.id)] ∧
      state = (world.states.get? node.id).getD (.object []) ∧ Meanwhile rely world after :=
  amid_readState spares (·.getD (.object [])) (fun current => by cases current <;> rfl) amid

end Reads

section Parts

variable {executor : Executor} {host : Host} {rely : World → World → Prop} {node : Node}
  {world after : World} {acts : List (Act Engine)} (key : String)
  (others : ∀ world after, rely world after → Spares node.id world after)
include others

/-- **The evaluations of a state step**, by induction on its fields. -/
theorem amid_evalState {synthetic state : Value} {left : List (String × Expr)}
    {result : Option Value}
    (amid : (executor.evalState synthetic left state).Amid (World.perform host) rely world acts
      result after) :
    Unaltered rely node.id key world after ∧
      ((∃ values, List.Forall₂ (fun entry value =>
            EvalsTo executor host synthetic entry.2 (.ok value)) left values ∧
          acts = evaluations executor synthetic left values ∧
          result = some (((left.map Prod.fst).zip values).foldl
            (fun state entry => putField entry.1 entry.2 state) state)) ∨
        ∃ done entry rest values error, left = done ++ entry :: rest ∧
          List.Forall₂ (fun entry value =>
            EvalsTo executor host synthetic entry.2 (.ok value)) done values ∧
          EvalsTo executor host synthetic entry.2 (.error error) ∧
          acts = evaluations executor synthetic done values ++
            [evaluated executor synthetic entry.2 (.error error),
              .performed (.count .errors) ()] ∧ result = none) := by
  induction left generalizing world acts state with
  | nil =>
      obtain ⟨rfl, rfl, later⟩ := amid.of_done
      exact ⟨.of_meanwhile others later, .inl ⟨[], .nil, rfl, rfl⟩⟩
  | cons entry left ih =>
      obtain ⟨between, rest, before, rfl, continued⟩ := amid.of_op_bind
      have calm : Unaltered rely node.id key world between := .of_meanwhile others before
      have quiet : Unaltered rely node.id key between (World.perform host between
          (.eval executor.platform ⟨executor.vars⟩ entry.2 synthetic)).2 :=
        .perform rfl fun _ => rfl
      have yields : EvalsTo executor host synthetic entry.2 (World.perform host between
          (.eval executor.platform ⟨executor.vars⟩ entry.2 synthetic)).1 := ⟨between.asked, rfl⟩
      generalize (World.perform host between
        (.eval executor.platform ⟨executor.vars⟩ entry.2 synthetic)).1 = response
          at continued yields
      cases response with
      | ok value =>
          obtain ⟨steady, ended⟩ := ih continued
          refine ⟨(calm.trans quiet).trans steady, ?_⟩
          rcases ended with ⟨values, each, rfl, rfl⟩ |
            ⟨done, other, rest, values, error, rfl, each, fails, rfl, rfl⟩
          · exact .inl ⟨value :: values, .cons yields each, rfl, rfl⟩
          · exact .inr ⟨entry :: done, other, rest, value :: values, error, rfl,
              .cons yields each, fails, rfl, rfl⟩
      | error error =>
          obtain ⟨counted, _, later, rfl, finished⟩ := continued.of_op_bind
          obtain ⟨rfl, rfl, last⟩ := finished.of_done
          have counting : Unaltered rely node.id key counted
              (World.perform host counted (.count .errors)).2 := .perform rfl fun _ => rfl
          refine ⟨?_, .inr ⟨[], entry, left, [], error, rfl, .nil, yields, rfl, rfl⟩⟩
          have waited : Unaltered rely node.id key _ counted := .of_meanwhile others later
          exact (calm.trans quiet).trans (waited.trans (counting.trans (.of_meanwhile others last)))

omit others in
/-- Fields put into an object. -/
theorem foldl_putField (entries : List (String × Value)) (fields : Fields) :
    entries.foldl (fun state entry => putField entry.1 entry.2 state) (.object fields) =
      .object (entries.foldl (fun fields entry => Assoc.insert entry.1 entry.2 fields) fields) := by
  induction entries generalizing fields with
  | nil => rfl
  | cons entry rest ih => exact ih _

end Parts

section Law

variable {executor : Executor} {host : Host} {rely : World → World → Prop} {node : Node}
  {exprs : List (String × Expr)} {record : Record} {world after : World}
  {acts : List (Act Engine)} {outcome : Outcome} {fields : Fields}

variable (others : ∀ world after, rely world after → Spares node.id world after)
include others

/-- A state is written to memory and to a working store. -/
theorem amid_updateState {state : Value} {done : Unit}
    (working : ∀ time, host.persist time = .ok ()) (store : world.store.isSome = true)
    (amid : (executor.updateState node.id state).Amid (World.perform host) rely world acts done
      after) :
    acts = written executor node state ∧ after.states.get? node.id = some state ∧
      (Quiet rely (executor.stateKey node.id) →
        after.entryAt (executor.stateKey node.id) = some (some state)) := by
  obtain ⟨setting, _, before, rfl, asking⟩ := amid.of_op_bind
  have set : (World.perform host setting (.setState node.id state)).2.states.get? node.id =
      some state := Assoc.get?_insert_self node.id state setting.states
  obtain ⟨asked, _, unset, rfl, saving⟩ := asking.of_op_bind
  have calm : Unaltered rely node.id (executor.stateKey node.id) world setting :=
    .of_meanwhile others before
  have steady : Unaltered rely node.id (executor.stateKey node.id) _ asked :=
    .of_meanwhile others unset
  have ready : setting.store.isSome = true := calm.present.trans store
  have present : asked.store.isSome = true := steady.present.trans ready
  have answer : (World.perform host asked .hasStore).1 = true := present
  rw [answer] at saving ⊢
  obtain ⟨saved, _, unsaved, rfl, finished⟩ := saving.of_op_bind
  obtain ⟨rfl, -, last⟩ := finished.of_done
  have still : Unaltered rely node.id (executor.stateKey node.id) _ saved :=
    .of_meanwhile others unsaved
  have ended : Unaltered rely node.id (executor.stateKey node.id) _ after :=
    .of_meanwhile others last
  obtain ⟨entries, held⟩ := Option.isSome_iff_exists.mp (still.present.trans present)
  have response : (World.perform host saved (.save (executor.stateKey node.id) state)).1 =
      .ok () := World.perform_save_fst host saved working _ _
  refine ⟨by rw [response]; rfl, ?_, fun quiet => ?_⟩
  · rw [ended.state, World.perform_states]
    exact still.state.trans (steady.state.trans set)
  · rw [ended.entry quiet, World.entryAt, World.perform_store, held]
    exact congrArg some (Function.update_self ..)

/-- **A state step is atomic.** It sees the state and the record as they were before, and then
either updates memory and store once and routes the record, or counts one error and leaves
both alone. Others may do anything but update this step. -/
theorem state_step_atomic (distinct : (exprs.map Prod.fst).Nodup)
    (working : ∀ time, host.persist time = .ok ()) (store : world.store.isSome = true)
    (isObject : (world.states.get? node.id).getD (.object []) = .object fields)
    (amid : (executor.applyState node exprs record).Amid (World.perform host) rely world acts
      outcome after) :
    StateStep executor host rely node exprs record fields world acts outcome after := by
  have spares : Sparing rely node.id := fun world after change => (others world after change).state
  obtain ⟨_, _, synthetic, first, rfl, viewing, amid⟩ := amid.of_bind
  obtain ⟨rfl, rfl, earlier⟩ := amid_evalValue spares viewing
  have calm : Unaltered rely node.id (executor.stateKey node.id) world first :=
    .of_meanwhile others earlier
  obtain ⟨_, _, state, second, rfl, reading, amid⟩ := amid.of_bind
  obtain ⟨rfl, rfl, later⟩ := amid_stateValue spares reading
  have steady : Unaltered rely node.id (executor.stateKey node.id) first second :=
    .of_meanwhile others later
  obtain ⟨_, _, result, third, rfl, evaluating, amid⟩ := amid.of_bind
  obtain ⟨still, ended⟩ := amid_evalState (executor.stateKey node.id) others evaluating
  have before := (calm.trans steady).trans still
  rw [calm.state, isObject] at ended
  rcases ended with ⟨values, each, rfl, rfl⟩ |
    ⟨done, entry, rest, values, error, split, each, fails, rfl, rfl⟩
  · obtain ⟨_, routed, _, fourth, rfl, updating, routes⟩ := amid.of_bind
    have present : third.store.isSome = true := before.present.trans store
    obtain ⟨rfl, memory, saved⟩ := amid_updateState others working present updating
    have quiet := quiet_of_routing routes (routing_routeAlong record node.id node.routes)
    rw [foldl_putField] at memory saved ⊢
    have keys : (((exprs.map Prod.fst).zip values).map Prod.fst).Nodup := by
      rw [List.map_fst_zip (by rw [List.length_map, each.length_eq])]
      exact distinct
    have lasts := routes.keeps
      (fun world between change (holds : Unaltered rely node.id (executor.stateKey node.id)
        fourth world) => holds.trans ⟨others world between change, fun quiet =>
          quiet world between change⟩)
      (fun op member world holds => holds.trans (.of_routing (quiet op member))) (.refl ..)
    refine .updated each (fun key => Assoc.get?_foldl_insert keys fields key) ?_ routes quiet
      (lasts.state.trans memory) fun calm => (lasts.entry calm).trans (saved calm)
    rw [calm.state]
    simp [reads]
  · obtain ⟨rfl, rfl, later⟩ := amid.of_done
    refine .failed split each fails ?_ rfl (before.trans (.of_meanwhile others later))
    rw [calm.state]
    simp [reads]

end Law

namespace Sample

/-- The state step of the tally. -/
def tallyNode : Node := ⟨"sum", none, .fail, .control (.state tallyFields), [], 2, some noTally⟩

/-- A process with a store whose state step is set up. -/
def tallyStart : World := { declared with store := some fun _ => none }

/-- A letter for every record, and what was seen before it. -/
def tallyAndBefore : List (String × Expr) := tallyFields ++ [("before", .path ["state", "seen"])]

/-- A letter for every record, and a difference of a text. -/
def tallyAndFail : List (String × Expr) :=
  tallyFields ++ [("rest", .sub (.path ["state", "seen"]) (.lit (.number (.posInt 1))))]

/-- Others write the state of another step. -/
def elsewhere (world after : World) : Prop :=
  after = (World.perform (host oneEach) world (.setState "other" .null)).2

theorem elsewhere_spares (world after : World) (change : elsewhere world after) :
    Spares "sum" world after := by
  subst change
  constructor
  · exact Assoc.get?_insert_of_ne (by decide) _ _
  · rfl

theorem tallyAndBefore_amid : ∃ acts after, ((executor tallyGraph).applyState tallyNode
    tallyAndBefore (record .null)).Amid (World.perform (host oneEach)) elsewhere tallyStart acts
      (.ok ()) after ∧
    after.states.get? "sum" = some (.object [("seen", .string "x"), ("before", .string "")]) :=
  ⟨_, _, .perform (.perform (.perform (.others rfl (.perform (.perform (.others rfl (.perform
    (.perform (.done ..))))))))), rfl⟩

theorem tallyAndFail_amid : ∃ acts after, ((executor tallyGraph).applyState tallyNode tallyAndFail
    (record .null)).Amid (World.perform (host oneEach)) elsewhere tallyStart acts (.ok ()) after ∧
    after.states.get? "sum" = some noTally :=
  ⟨_, _, .perform (.perform (.perform (.others rfl (.perform (.perform (.done ..)))))), rfl⟩

/-- The second field sees the tally from before the first; when it fails, the first is not
written either. -/
theorem tally_atomic :
    (∃ acts after, StateStep (executor tallyGraph) (host oneEach) elsewhere tallyNode
        tallyAndBefore (record .null) [("seen", .string "")] tallyStart acts (.ok ()) after ∧
      after.states.get? "sum" = some (.object [("seen", .string "x"), ("before", .string "")])) ∧
    ∃ acts after, StateStep (executor tallyGraph) (host oneEach) elsewhere tallyNode
        tallyAndFail (record .null) [("seen", .string "")] tallyStart acts (.ok ()) after ∧
      after.states.get? "sum" = some noTally := by
  constructor
  · obtain ⟨acts, after, amid, counted⟩ := tallyAndBefore_amid
    have distinct : (tallyAndBefore.map Prod.fst).Nodup := by decide
    exact ⟨acts, after, state_step_atomic elsewhere_spares distinct (fun _ => rfl) rfl rfl amid,
      counted⟩
  · obtain ⟨acts, after, amid, kept⟩ := tallyAndFail_amid
    have distinct : (tallyAndFail.map Prod.fst).Nodup := by decide
    exact ⟨acts, after, state_step_atomic elsewhere_spares distinct (fun _ => rfl) rfl rfl amid,
      kept⟩

end Sample

end Sohara
