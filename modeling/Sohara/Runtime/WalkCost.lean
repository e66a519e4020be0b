import Sohara.Runtime.Meaning
import Sohara.Runtime.World
import Sohara.Async.Supervisor

/-! # Walks send their path sums

One lemma per function: under the responses of deterministic components and
without a store, each program sends exactly its part of the path sum and
succeeds.
-/

namespace Sohara

open Async Async.Program

namespace Executor

variable {executor : Executor} {action : Action} {streams : String → Except Error (List Item)}

section Costs

variable (executor action streams) in
/-- The program sends exactly the given cores. -/
abbrev Sends {α : Type} (post : α → Prop) (program : Prog α)
    (amount : Multiset (String × Core)) : Prop :=
  Program.Costs (S := Engine) (executor.Admits action streams) sends executor.Known
    (price action) post program amount

/-- Operations whose responses are unconstrained and that are not sends. -/
def IsFree : Op → Prop
  | .send _ _ => False
  | _ => True

theorem sends_eq_zero {op : Op} (free : IsFree op) (response : op.Response) :
    sends ⟨op, response⟩ = 0 := by
  unfold sends
  cases op <;> first | rfl | cases free

theorem sends_free (op : Op) (free : IsFree op) :
    Sends executor action streams (fun response => executor.Admits action streams op response)
      (.op (S := Engine) op) 0 :=
  costs_op fun response admitted => ⟨sends_eq_zero free response, admitted⟩

theorem sends_any {op : Op} (free : IsFree op) :
    Sends executor action streams (fun _ => True) (.op (S := Engine) op) 0 :=
  costs_op fun response _ => ⟨sends_eq_zero free response, trivial⟩

theorem sends_evalExpr {expr : Expr} (deterministic : expr.Deterministic executor.platform)
    (value : Value) :
    Sends executor action streams (· = executor.evalPure expr value)
      (executor.evalExpr expr value) 0 := by
  refine costs_op fun response admitted => ⟨rfl, ?_⟩
  obtain ⟨draws, rfl⟩ := admitted
  exact deterministic _ value draws Draws.blank

theorem sends_evalBool {expr : Expr} (deterministic : expr.Deterministic executor.platform)
    (value : Value) :
    Sends executor action streams (· = executor.holds value (some expr))
      (executor.evalBool expr value) 0 := by
  refine Costs.free_bind (sends_evalExpr deterministic value) fun result known => ?_
  rw [holds_some, ← known]
  cases result with
  | ok value => exact costs_pure rfl
  | error _ => exact Costs.free_bind (sends_any trivial) fun _ _ => costs_pure rfl

theorem sends_edgeOpen (id : String) (payload : Value) {guard : Option Expr}
    (deterministic : ∀ expr, guard = some expr → expr.Deterministic executor.platform) :
    Sends executor action streams (· = executor.holds payload guard)
      (executor.edgeOpen id payload guard) 0 := by
  cases guard with
  | none => exact costs_pure rfl
  | some expr =>
      refine Costs.free_bind (sends_evalExpr (deterministic expr rfl) payload)
        fun result known => ?_
      rw [holds_some, ← known]
      cases result with
      | ok value => exact costs_pure rfl
      | error _ =>
          exact Costs.free_bind (sends_any trivial) fun _ _ =>
            Costs.free_bind (sends_any trivial) fun _ _ => costs_pure rfl

/-- Routing sends the sums of the open routes. -/
theorem sends_routeAlong (record : Record) (id : String) (routes : List Route)
    (known : ∀ route ∈ routes, executor.Known ⟨executor, record, route.to_⟩)
    (deterministic : ∀ route ∈ routes, ∀ guard, route.when_ = some guard →
      guard.Deterministic executor.platform) :
    Sends executor action streams (· = .ok ()) (executor.routeAlong record id routes)
      (routes.map fun route => if executor.holds record.payload route.when_ then
        executor.meaning action route.to_ record.core else 0).sum := by
  induction routes with
  | nil => exact costs_pure rfl
  | cons route rest ih =>
      have others := ih (fun other member => known other (List.mem_cons_of_mem _ member))
        fun other member => deterministic other (List.mem_cons_of_mem _ member)
      refine Costs.free_bind (sends_edgeOpen id record.payload
        (deterministic route List.mem_cons_self)) fun isOpen equal => ?_
      rw [List.map_cons, List.sum_cons, ← equal]
      cases isOpen
      · simp only [Bool.false_eq_true, if_false, zero_add]
        exact others
      · simp only [if_true]
        exact Costs.andThen (costs_call (known route List.mem_cons_self)) others

variable (executor action) in
/-- What the hops out of a node send for a core. -/
def hopSum (node : Node) (core : Core) : Multiset (String × Core) :=
  ((executor.hops node).map fun hop =>
    if hop.passes core then executor.meaning action hop.target core else 0).sum

variable (executor) in
/-- A node that forwards along its routes. -/
def Forwards (node : Node) : Prop :=
  executor.hops node = node.routes.map fun route =>
    ⟨route.to_, fun core => executor.holds core.payload route.when_⟩

/-- The surroundings of a node in a stateless well-formed graph. -/
structure At (executor : Executor) (node : Node) : Prop where
  found : executor.graph.node node.id = some node
  formed : executor.graph.WellFormed
  stateless : executor.Stateless

variable {node : Node} (at_ : At executor node)
include at_

theorem sends_route (forwards : Forwards executor node) (record : Record) :
    Sends executor action streams (· = .ok ()) (executor.route record node)
      (executor.hopSum action node record.core) := by
  have sum : Sends executor action streams _ _ _ := sends_routeAlong record node.id node.routes
    (fun route member => ⟨rfl, at_.formed.known at_.found route member⟩)
    (at_.stateless.edges at_.found)
  unfold hopSum
  rw [forwards, List.map_map]
  exact sum

theorem sends_routeEach (forwards : Forwards executor node) (records : List Record) :
    Sends executor action streams (· = .ok ()) (executor.routeEach node records)
      ((records.map Record.core).map (executor.hopSum action node)).sum := by
  induction records with
  | nil => exact costs_pure rfl
  | cons record rest ih => exact Costs.andThen (sends_route at_ forwards record) ih

omit at_ in
/-- A failed transform sends nothing; it is dropped. -/
theorem sends_settleFailure (drops : node.policy = .continue) (failure : Error) :
    Sends executor action streams (· = .ok ()) (settleFailure node failure) 0 := by
  refine Costs.free_bind (sends_any trivial) fun _ _ => Costs.free_bind (sends_any trivial)
    fun _ _ => Costs.free_bind (sends_any trivial) fun _ _ => ?_
  rw [drops]
  exact costs_pure rfl

theorem sends_attemptTransform (isTransform : node.step = .transform)
    (forwards : Forwards executor node) (record : Record)
    {onFailure : Error → Prog Outcome}
    (recovers : node.policy = .continue → ∀ failure,
      Sends executor action streams (· = .ok ()) (onFailure failure) 0) :
    Sends executor action streams (· = .ok ())
      (executor.attemptTransform node record onFailure)
      ((action node.id record.core).map (executor.hopSum action node)).sum := by
  refine Costs.free_bind (sends_free _ trivial) fun outcome acts => ?_
  obtain ⟨cores, drops⟩ := acts node at_.found isTransform
  rw [← cores]
  match outcome, drops with
  | .ok (.pass record), _ =>
      refine Costs.free_bind (sends_any trivial) fun _ _ => ?_
      simp only [outcomeCores, List.map_cons, List.map_nil, List.sum_cons, List.sum_nil, add_zero]
      exact sends_route at_ forwards record
  | .ok .filtered, _ =>
      exact Costs.free_bind (sends_any trivial) fun _ _ =>
        Costs.free_bind (sends_any trivial) fun _ _ => costs_pure rfl
  | .ok (.expand records), _ =>
      exact Costs.free_bind (sends_any trivial) fun _ _ => sends_routeEach at_ forwards records
  | .ok (.fail failure), drops => exact recovers (drops rfl) failure
  | .error failure, drops => exact recovers (drops rfl) failure

theorem sends_applyTransform (isTransform : node.step = .transform) (record : Record) :
    Sends executor action streams (· = .ok ()) (executor.applyTransform node record)
      ((executor.leaves action node record.core).map (executor.hopSum action node)).sum := by
  have forwards : Forwards executor node := by
    unfold Forwards hops
    rw [isTransform]
  have once : Sends executor action streams _ _ _ :=
    sends_attemptTransform at_ isTransform forwards record fun drops => sends_settleFailure drops
  unfold leaves
  rw [isTransform]
  unfold applyTransform
  cases policy : node.policy with
  | fail => exact once
  | «continue» => exact once
  | retry max backoff =>
      have never : ¬ node.policy = .continue := by rw [policy]; exact fun same => nomatch same
      cases max with
      | zero => exact once
      | succ left =>
          exact sends_attemptTransform at_ isTransform forwards record
            fun drops => absurd drops never

omit at_ in
/-- A sink sends the record. -/
theorem sends_deliver (record : Record) :
    Sends executor action streams (fun _ => True) (executor.deliver node record)
      {(node.id, record.core)} := by
  have unmarked : Sends executor action streams (· = false) (executor.isDelivered record) 0 := by
    refine Costs.free_bind (sends_free .hasStore trivial) fun stored absent => ?_
    rw [show stored = false from absent]
    exact costs_pure rfl
  have idle : Sends executor action streams (fun _ => True) executor.maybeCheckpoint 0 := by
    unfold maybeCheckpoint
    cases executor.checkpointEvery with
    | none => exact costs_pure trivial
    | some every =>
        refine Costs.free_bind (sends_any trivial) fun since _ => ?_
        by_cases due : every ≤ since
        · simp only [due, if_true]
          refine Costs.free_bind (sends_free Op.hasStore trivial) fun stored absent => ?_
          rw [show stored = false from absent]
          exact costs_pure trivial
        · simp only [due, if_false]
          exact costs_pure trivial
  refine Costs.free_bind unmarked fun delivered fresh => ?_
  rw [fresh]
  rw [← add_zero {(node.id, record.core)}]
  have sent : Sends executor action streams (fun _ => True) (Perform.send node.id record)
      {(node.id, record.core)} := costs_op fun response _ => ⟨rfl, trivial⟩
  refine Costs.bind sent fun result _ => ?_
  cases result with
  | error _ =>
      exact Costs.free_bind (sends_any trivial) fun _ _ =>
        Costs.free_bind (sends_any trivial) fun _ _ => sends_any trivial
  | ok _ =>
      have marked : Sends executor action streams (fun _ => True)
          (executor.markDelivered record) 0 := by
        refine Costs.free_bind (sends_free .hasStore trivial) fun stored absent => ?_
        rw [show stored = false from absent]
        exact costs_pure trivial
      exact Costs.free_bind marked fun _ _ => Costs.free_bind (sends_any trivial) fun _ _ =>
        Costs.free_bind (sends_any trivial) fun _ _ => idle

end Costs

section Control

variable (executor) in
/-- The target a switch selects. -/
def selectedTarget (payload : Value) (default_ : String) : List SwitchCase → String
  | [] => default_
  | case :: rest =>
      if executor.holds payload (some case.when_) then case.to_
      else selectedTarget payload default_ rest

theorem selectedTarget_mem (payload : Value) (default_ : String) (cases_ : List SwitchCase) :
    executor.selectedTarget payload default_ cases_ ∈ cases_.map (·.to_) ++ [default_] := by
  induction cases_ with
  | nil => exact List.mem_singleton_self default_
  | cons case rest ih =>
      unfold selectedTarget
      split
      · exact List.mem_cons_self
      · exact List.mem_cons_of_mem _ ih

/-- Exactly the hop to the selected target of a switch is open. -/
theorem sum_switchHops {M : Type} [AddCommMonoid M] (term : String → M) (core : Core)
    (default_ : String) (cases_ : List SwitchCase) :
    ((executor.switchHops default_ cases_).map fun hop =>
        if hop.passes core then term hop.target else 0).sum =
      term (executor.selectedTarget core.payload default_ cases_) := by
  induction cases_ with
  | nil => simp [switchHops, selectedTarget]
  | cons case rest ih =>
      simp only [switchHops, selectedTarget, List.map_cons, List.sum_cons, List.map_map,
        Function.comp_def]
      cases executor.holds core.payload (some case.when_) with
      | true => simp
      | false => simpa using ih

theorem sends_selectCase (payload : Value) (default_ : String) {cases_ : List SwitchCase}
    (deterministic : ∀ case ∈ cases_, case.when_.Deterministic executor.platform) :
    Sends executor action streams (· = executor.selectedTarget payload default_ cases_)
      (executor.selectCase payload default_ cases_) 0 := by
  induction cases_ with
  | nil => exact costs_pure rfl
  | cons case rest ih =>
      refine Costs.free_bind (sends_evalBool (deterministic case List.mem_cons_self) payload)
        fun isTrue equal => ?_
      unfold selectedTarget
      rw [← equal]
      cases isTrue
      · exact ih fun other member => deterministic other (List.mem_cons_of_mem _ member)
      · exact costs_pure rfl

theorem sends_evalItems {over_ : Expr} (deterministic : over_.Deterministic executor.platform)
    (record : Record) :
    Sends executor action streams
      (fun result => result.getD [] = executor.items over_ record.payload)
      (executor.evalItems over_ record) 0 := by
  refine Costs.free_bind (sends_evalExpr deterministic record.payload) fun result known => ?_
  unfold items
  rw [← known]
  match result with
  | .ok (.array items) => exact costs_pure rfl
  | .ok .null | .ok (.bool _) | .ok (.number _) | .ok (.string _) | .ok (.object _) | .error _ =>
      exact Costs.free_bind (sends_any trivial) fun _ _ => costs_pure rfl

/-- A correlation does not show in the core. -/
theorem sends_correlated (record : Record) :
    Sends executor action streams (fun result => result.core = record.core)
      (correlated record) 0 := by
  unfold correlated
  cases record.metadata.get? "correlation" with
  | some _ => exact costs_pure rfl
  | none =>
      refine Costs.free_bind (sends_any trivial) fun id _ => costs_pure ?_
      simp only [Record.core, Assoc.erase_insert]

variable {node : Node} (at_ : At executor node)
include at_

/-- A node that forwards one record as it is. -/
theorem sends_forward (forwards : Forwards executor node)
    (keeps : ∀ core, executor.leaves action node core = [core]) (record : Record) :
    Sends executor action streams (· = .ok ()) (executor.route record node)
      ((executor.leaves action node record.core).map (executor.hopSum action node)).sum := by
  rw [keeps, List.map_singleton, List.sum_singleton]
  exact sends_route at_ forwards record

theorem sends_applyControl {control : ControlNode} (isControl : node.step = .control control)
    (record : Record) :
    Sends executor action streams (· = .ok ()) (executor.applyControl node control record)
      ((executor.leaves action node record.core).map (executor.hopSum action node)).sum := by
  have named : ∀ target ∈ FlowGraph.controlTargets control, ∀ record,
      executor.Known ⟨executor, record, target⟩ := by
    intro target member record
    obtain ⟨route, inside, rfl⟩ := at_.formed.explicit at_.found isControl target member
    exact ⟨rfl, at_.formed.known at_.found route inside⟩
  have plain := at_.stateless.steps at_.found
  rw [isControl] at plain
  cases control with
  | switch cases_ default_ =>
      have leaves : executor.leaves action node record.core = [record.core] := by
        unfold leaves
        rw [isControl]
      have selected : executor.hopSum action node record.core =
          executor.meaning action (executor.selectedTarget record.payload default_ cases_)
            record.core := by
        unfold hopSum hops
        rw [isControl]
        exact sum_switchHops (fun target => executor.meaning action target record.core)
          record.core default_ cases_
      rw [leaves, List.map_singleton, List.sum_singleton, selected]
      refine Costs.free_bind (sends_selectCase record.payload default_ plain)
        fun target equal => ?_
      rw [equal]
      exact costs_call (named _ (selectedTarget_mem _ _ _) record)
  | foreach over_ asField maxIterations =>
      have forwards : Forwards executor node := by
        unfold Forwards hops
        rw [isControl]
      have leaves : executor.leaves action node record.core =
          (((executor.items over_ record.payload).take maxIterations).map
            (child record asField)).map Record.core := by
        unfold leaves
        rw [isControl, List.map_map]
        rfl
      rw [leaves]
      refine Costs.free_bind (sends_evalItems plain record) fun items equal => ?_
      rw [← equal]
      cases items with
      | none =>
          rw [Option.getD_none, List.take_nil]
          exact costs_pure rfl
      | some items => exact sends_routeEach at_ forwards _
  | parallel branches =>
      have leaves : executor.leaves action node record.core = [record.core] := by
        unfold leaves
        rw [isControl]
      have branchSum : executor.hopSum action node record.core =
          (branches.map fun branch => executor.meaning action branch record.core).sum := by
        unfold hopSum hops
        rw [isControl]
        simp only [List.map_map, Function.comp_def, if_true]
      rw [leaves, List.map_singleton, List.sum_singleton, branchSum]
      refine Costs.free_bind (sends_correlated record) fun record' same => ?_
      have joined : Sends executor action streams _
          (joinAll (branches.map fun branch => (⟨executor, record', branch⟩ : Call))) _ :=
        costs_joinAll fun call member => by
          obtain ⟨branch, inside, rfl⟩ := List.mem_map.mp member
          exact named branch inside record'
      simp only [List.map_map, Function.comp_def, price, same] at joined
      exact joined
  | delay duration =>
      refine Costs.free_bind (sends_any trivial) fun _ _ => sends_forward at_ ?_ ?_ record
      · unfold Forwards hops
        rw [isControl]
      · intro core
        unfold leaves
        rw [isControl]
  | _ => cases plain

end Control

section Walk

/-- The hops out of a node lead to targets of its routes. -/
theorem hops_route (formed : executor.graph.WellFormed) {id : String} {node : Node}
    (found : executor.graph.node id = some node) {hop : Network.Hop String Core}
    (member : hop ∈ executor.hops node) : ∃ route ∈ node.routes, route.to_ = hop.target := by
  have listed : ∀ cases_ default_, ∀ hop ∈ executor.switchHops default_ cases_,
      hop.target ∈ cases_.map (·.to_) ++ [default_] := by
    intro cases_ default_
    induction cases_ with
    | nil => intro hop member; simp [switchHops] at member; simp [member]
    | cons case rest ih =>
        intro hop member
        rcases List.mem_cons.mp member with rfl | inside
        · exact List.mem_cons_self
        · obtain ⟨inner, isHop, rfl⟩ := List.mem_map.mp inside
          exact List.mem_cons_of_mem _ (ih inner isHop)
  have routed : hop ∈ (node.routes.map fun route => (⟨route.to_, fun core =>
      executor.holds core.payload route.when_⟩ : Network.Hop String Core)) →
        ∃ route ∈ node.routes, route.to_ = hop.target := by
    intro inside
    obtain ⟨route, isRoute, rfl⟩ := List.mem_map.mp inside
    exact ⟨route, isRoute, rfl⟩
  unfold hops at member
  split at member
  · cases member
  · next cases_ default_ isControl =>
      exact formed.explicit found isControl _ (listed cases_ default_ hop member)
  · next branches isControl =>
      obtain ⟨branch, inside, rfl⟩ := List.mem_map.mp member
      exact formed.explicit found isControl _ inside
  · exact routed member

/-- The hops of a well-formed graph lower a rank bounded by the number of nodes. -/
theorem exists_descending (formed : executor.graph.WellFormed) (action : Action) :
    ∃ rank : String → Nat,
      (∀ {id node}, executor.graph.node id = some node → rank id < executor.graph.nodes.size) ∧
        ∀ id, ∀ hop ∈ (executor.network action).hops id, rank hop.target < rank id := by
  obtain ⟨rank, bounded, descends⟩ := formed.ranked
  refine ⟨rank, bounded, fun id hop member => ?_⟩
  cases lookup : executor.graph.node id with
  | none =>
      simp only [network, lookup, Option.map_none, Option.getD_none] at member
      cases member
  | some node =>
      simp only [network, lookup, Option.map_some, Option.getD_some] at member
      obtain ⟨route, inside, equal⟩ := hops_route formed lookup member
      rw [← equal]
      exact descends lookup route inside

/-- The meaning ranges over all paths to a sink, with multiplicity. -/
theorem mem_paths (formed : executor.graph.WellFormed) {id : String} {node : Node}
    (found : executor.graph.node id = some node) (path : List (Network.Hop String Core)) :
    path ∈ (executor.network action).paths executor.graph.nodes.size id ↔
      (executor.network action).IsPath id path := by
  obtain ⟨rank, bounded, descends⟩ := exists_descending formed action
  exact Network.mem_paths descends (bounded found) path

/-- One node of the meaning. -/
theorem meaning_unfold (formed : executor.graph.WellFormed) {id : String} {node : Node}
    (found : executor.graph.node id = some node) (core : Core) :
    executor.meaning action id core =
      if executor.holds core.payload node.when_ then
        if node.step.isSink then {(id, core)}
        else ((executor.leaves action node core).map (executor.hopSum action node)).sum
      else 0 := by
  obtain ⟨rank, bounded, descends⟩ := exists_descending formed action
  have unfolded := Network.pathSum_unfold descends (bounded found) core
  simp only [network, found, Option.map_some, Option.getD_some, Option.any_some, isSink]
    at unfolded
  exact unfolded

/-- **A walk sends its path sum.** -/
theorem sends_walk (formed : executor.graph.WellFormed) (stateless : executor.Stateless)
    {id : String} {node : Node} (found : executor.graph.node id = some node) (record : Record) :
    Sends executor action streams (· = .ok ()) (executor.walk record id)
      (executor.meaning action id record.core) := by
  have named := formed.named found
  have at_ : At executor node := ⟨by rw [named]; exact found, formed, stateless⟩
  have guarded : Sends executor action streams
      (· = executor.holds record.payload node.when_) (executor.nodeOpen node record.payload) 0 := by
    unfold nodeOpen
    cases guard : node.when_ with
    | none => exact costs_pure rfl
    | some expr =>
        refine Costs.free_bind (sends_evalExpr (stateless.guards found expr guard) record.payload)
          fun result known => ?_
        rw [holds_some, ← known]
        cases result with
        | ok value => exact costs_pure rfl
        | error _ =>
            exact Costs.free_bind (sends_any trivial) fun _ _ =>
              Costs.free_bind (sends_any trivial) fun _ _ =>
                Costs.free_bind (sends_any trivial) fun _ _ => costs_pure rfl
  unfold walk
  rw [found, meaning_unfold formed found]
  refine Costs.free_bind guarded fun isOpen equal => ?_
  rw [show executor.holds record.core.payload node.when_ = isOpen from equal.symm]
  cases isOpen
  · exact costs_pure rfl
  · simp only [if_true]
    unfold applyStep
    cases step : node.step with
    | sink =>
        simp only [NodeStep.isSink, if_true]
        rw [← add_zero {(id, record.core)}, ← named]
        exact Costs.bind (sends_deliver record) fun _ _ => costs_pure rfl
    | transform => exact sends_applyTransform at_ step record
    | control control => exact sends_applyControl at_ step record
    | source =>
        refine sends_forward at_ ?_ (fun core => ?_) record
        · unfold Forwards hops
          rw [step]
        · unfold leaves
          rw [step]

/-- The body of a known walk sends its price. -/
theorem sends_walkCall (formed : executor.graph.WellFormed) (stateless : executor.Stateless)
    {call : Call} (known : executor.Known call) :
    Sends executor action streams (· = .ok ()) (walkCall call) (price action call) := by
  obtain ⟨rfl, node, found⟩ := known
  exact sends_walk formed stateless found call.record

/-- A source sends the sums of its records. -/
theorem sends_pump {root : String} {node : Node}
    (found : executor.graph.node root = some node) (items : List Item) :
    Sends executor action streams (· = .ok ()) (executor.pump root items)
      (items.map fun item =>
        match item with
        | .ok record => executor.meaning action root record.core
        | .error _ => 0).sum := by
  have gate : Sends executor action streams (fun _ => True) executor.waitGate 0 := by
    unfold waitGate
    split
    · exact sends_any trivial
    · exact costs_pure trivial
  induction items with
  | nil => exact costs_pure rfl
  | cons item rest ih =>
      refine Costs.free_bind gate fun _ _ => ?_
      rw [List.map_cons, List.sum_cons]
      cases item with
      | ok record => exact Costs.andThen (costs_call ⟨rfl, node, found⟩) ih
      | error failure =>
          rw [zero_add]
          exact Costs.free_bind (sends_any trivial) fun _ _ =>
            Costs.free_bind (sends_any trivial) fun _ _ => ih

theorem sends_runSource (opens : ∀ root, ∃ items, streams root = .ok items) (root : String) :
    Sends executor action streams (· = .ok ()) (executor.runSource root)
      (executor.sourceMeaning action streams root) := by
  obtain ⟨items, opened⟩ := opens root
  unfold runSource sourceMeaning
  split
  · next found =>
      refine Costs.free_bind (sends_free (.stream root) trivial) fun response known => ?_
      rw [show response = .ok items from known.trans opened, found, opened]
      exact sends_pump found items
  · next other =>
      split
      · next found _ => exact absurd found (other _ _ _ _ _ _)
      · exact costs_pure rfl

end Walk

end Executor

end Sohara
