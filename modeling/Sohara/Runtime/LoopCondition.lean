import Sohara.Runtime.JoinDrain
import Sohara.Runtime.StateAtomicity

/-! # Loop conditions

The condition of a loop sees the record beside the state of the loop step itself, and only a
state step writes a state, its own. So a condition is tested on one value throughout, and a
body that is run once is run until the iterations are used up or it fails.
-/

namespace Sohara

open Async Async.Program

section Definitions

/-- The program behind a loop: a walk from its body, or along its routes. -/
def Executor.loopBody (executor : Executor) (node : Node) (body : Option String)
    (record : Record) : Prog Outcome :=
  match body with
  | some target => executor.walkTo record target
  | none => executor.route record node

/-- Whether a condition holds of a value; a failing one does not. -/
def Executor.conditionHolds (executor : Executor) (draws : Draws) (whileExpr : Expr)
    (value : Value) : Bool :=
  match eval executor.platform draws ⟨executor.vars⟩ whileExpr [] value with
  | .ok result => isTruthy result
  | .error _ => false

variable (executor : Executor) (host : Host) (rely : World → World → Prop) (node : Node)
  (whileExpr : Expr) (body : Option String) (record : Record) (current : Option Value)

/-- One test of a condition, on the record and the state of the loop. -/
inductive Tests : List (Act Engine) → Bool → Prop where
  | evaluated {value : Value}
      (yields :
        EvalsTo executor host (syntheticValue record.payload current) whileExpr (.ok value)) :
      Tests [.performed (.stateOf node.id) current,
        evaluated executor (syntheticValue record.payload current) whileExpr (.ok value)]
          (isTruthy value)
  | failed {error : ExprError}
      (yields : EvalsTo executor host (syntheticValue record.payload current) whileExpr
        (.error error)) :
      Tests [.performed (.stateOf node.id) current,
        evaluated executor (syntheticValue record.payload current) whileExpr (.error error),
          .performed (.count .errors) ()] false

/-- **The rounds of a loop**: how many may still be run, how many are run, what they do and how
they end. -/
inductive Rounds : Nat → Nat → List (Act Engine) → Outcome → Prop where
  | exhausted : Rounds 0 0 [] (.ok ())
  | stopped {left : Nat} {test : List (Act Engine)}
      (tests : Tests executor host node whileExpr record current test false) :
      Rounds (left + 1) 0 test (.ok ())
  | failed {left : Nat} {test acts : List (Act Engine)} {failure : Error} {between after : World}
      (tests : Tests executor host node whileExpr record current test true)
      (executes : (executor.loopBody node body record).Amid (World.perform host) rely between acts
        (.error failure) after) : Rounds (left + 1) 1 (test ++ acts) (.error failure)
  | again {left ran : Nat} {test acts more : List (Act Engine)} {outcome : Outcome}
      {between after : World}
      (tests : Tests executor host node whileExpr record current test true)
      (executes : (executor.loopBody node body record).Amid (World.perform host) rely between acts
        (.ok ()) after) (rest : Rounds left ran more outcome) :
      Rounds (left + 1) (ran + 1) (test ++ (acts ++ more)) outcome

/-- **The law of loops** for a number of executions of the body. Its condition does not draw ids
and does not read the clock where it says how many they are. -/
structure LoopLaw (max ran : Nat) (acts : List (Act Engine)) (outcome : Outcome) : Prop where
  rounds : Rounds executor host rely node whileExpr body record current max ran acts outcome
  within : ran ≤ max
  walked : ∀ target, body = some target →
    (awaitings acts).map Prod.fst = List.replicate ran [⟨executor, record, target⟩]
  always : whileExpr.drawFree = true → ∀ draws,
    executor.conditionHolds draws whileExpr (syntheticValue record.payload current) = true →
      outcome = .ok () → ran = max
  never : whileExpr.drawFree = true → ∀ draws,
    executor.conditionHolds draws whileExpr (syntheticValue record.payload current) = false →
      ran = 0 ∧ outcome = .ok ()

end Definitions

section Tests

variable {executor : Executor} {host : Host} {rely : World → World → Prop} {node : Node}
  {whileExpr : Expr} {body : Option String} {record : Record} {world after : World}
  {current : Option Value} {acts : List (Act Engine)} {outcome : Outcome} {ran left : Nat}

/-- Without draws a condition is what it is at any time. -/
theorem Tests.eq_conditionHolds {holds : Bool} (free : whileExpr.drawFree = true) (draws : Draws)
    (tests : Tests executor host node whileExpr record current acts holds) :
    holds = executor.conditionHolds draws whileExpr (syntheticValue record.payload current) := by
  have steady : ∀ other, eval executor.platform draws ⟨executor.vars⟩ whileExpr []
        (syntheticValue record.payload current) = eval executor.platform other ⟨executor.vars⟩
          whileExpr [] (syntheticValue record.payload current) :=
    Expr.deterministic_of_drawFree free _ _ draws
  cases tests with
  | evaluated yields | failed yields =>
      obtain ⟨time, same⟩ := yields
      unfold Executor.conditionHolds
      rw [steady (host.draws time), same]

theorem Tests.awaitings {holds : Bool}
    (tests : Tests executor host node whileExpr record current acts holds) :
    awaitings acts = [] := by
  cases tests <;> rfl

/-- A test, amid others that leave the state of the loop alone. -/
theorem amid_test {rest : Bool → Prog Outcome} (spares : Sparing rely node.id)
    (amid : (Executor.evalValue node record >>= fun value =>
      executor.evalBool whileExpr value >>= rest).Amid (World.perform host) rely world acts outcome
        after) :
    ∃ test holds more between, acts = test ++ more ∧
      Tests executor host node whileExpr record (world.states.get? node.id) test holds ∧
      between.states.get? node.id = world.states.get? node.id ∧
      (rest holds).Amid (World.perform host) rely between more outcome after := by
  obtain ⟨_, _, synthetic, viewed, rfl, viewing, amid⟩ := amid.of_bind
  obtain ⟨rfl, rfl, earlier⟩ := amid_evalValue spares viewing
  obtain ⟨_, more, holds, tested, rfl, testing, continued⟩ := amid.of_bind
  obtain ⟨asked, _, before, rfl, answering⟩ := testing.of_op_bind
  have yields : EvalsTo executor host
      (syntheticValue record.payload (world.states.get? node.id)) whileExpr
        (World.perform host asked (.eval executor.platform ⟨executor.vars⟩ whileExpr
          (syntheticValue record.payload (world.states.get? node.id)))).1 := ⟨asked.asked, rfl⟩
  have kept : (World.perform host asked (.eval executor.platform ⟨executor.vars⟩ whileExpr
      (syntheticValue record.payload (world.states.get? node.id)))).2.states.get? node.id =
        world.states.get? node.id :=
    (spares.meanwhile before).trans (spares.meanwhile earlier)
  generalize (World.perform host asked (.eval executor.platform ⟨executor.vars⟩ whileExpr
    (syntheticValue record.payload (world.states.get? node.id)))).1 = response
      at answering yields
  cases response with
  | ok value =>
      obtain ⟨rfl, rfl, later⟩ := answering.of_done
      exact ⟨_, _, more, tested, rfl, .evaluated yields, (spares.meanwhile later).trans kept,
        continued⟩
  | error error =>
      obtain ⟨counted, _, waited, rfl, finished⟩ := answering.of_op_bind
      obtain ⟨rfl, rfl, last⟩ := finished.of_done
      refine ⟨_, _, more, tested, rfl, .failed yields, ?_, continued⟩
      exact (spares.meanwhile last).trans ((spares.meanwhile waited).trans kept)

end Tests

section Rounds

variable {executor : Executor} {host : Host} {rely : World → World → Prop} {node : Node}
  {whileExpr : Expr} {body : Option String} {record : Record} {world after : World}
  {current : Option Value} {acts : List (Act Engine)} {outcome : Outcome} {ran left : Nat}

/-- The body of a loop leaves the state of the loop alone. -/
theorem loopBody_leaves (spares : Sparing rely node.id)
    (amid : (executor.loopBody node body record).Amid (World.perform host) rely world acts outcome
      after) : after.states.get? node.id = world.states.get? node.id := by
  have routing : Safe (S := Engine) (fun _ _ => True) (Op.IsRouting node.id) (fun _ => True)
      (executor.loopBody node body record) := by
    cases body with
    | some target => exact safe_call trivial
    | none => exact routing_routeAlong record node.id node.routes
  have quiet := quiet_of_routing amid routing
  refine amid.keeps (motive := fun between =>
    between.states.get? node.id = world.states.get? node.id)
    (fun between next change same => (spares between next change).trans same)
    (fun op member between same => ?_) rfl
  refine (states_perform fun value written => ?_).trans same
  rw [written] at member
  exact quiet _ member

/-- **The rounds of a loop**, by induction on those that are left. -/
theorem amid_applyLoop (spares : Sparing rely node.id)
    (amid : (executor.applyLoop node whileExpr body record left).Amid (World.perform host) rely
      world acts outcome after) :
    ∃ ran, Rounds executor host rely node whileExpr body record (world.states.get? node.id) left ran
      acts outcome := by
  induction left generalizing world acts with
  | zero =>
      obtain ⟨rfl, rfl, -⟩ := amid.of_done
      exact ⟨0, .exhausted⟩
  | succ left ih =>
      obtain ⟨test, holds, more, between, rfl, tests, same, continued⟩ := amid_test spares amid
      cases holds with
      | false =>
          obtain ⟨rfl, rfl, -⟩ := continued.of_done
          rw [List.append_nil]
          exact ⟨0, .stopped tests⟩
      | true =>
          have rounds : ((executor.loopBody node body record).andThen
              (executor.applyLoop node whileExpr body record left)).Amid (World.perform host) rely
                between more outcome after := continued
          rcases rounds.of_andThen with ⟨failure, rfl, executes⟩ |
            ⟨earlier, later, reached, rfl, executes, rest⟩
          · exact ⟨1, .failed tests executes⟩
          · obtain ⟨ran, others⟩ := ih rest
            rw [loopBody_leaves spares executes, same] at others
            exact ⟨ran + 1, .again tests executes others⟩

theorem Rounds.le
    (rounds : Rounds executor host rely node whileExpr body record current left ran acts outcome) :
    ran ≤ left := by
  induction rounds with
  | exhausted => exact Nat.le_refl 0
  | stopped => exact Nat.zero_le _
  | failed => exact Nat.succ_le_succ (Nat.zero_le _)
  | again _ _ _ ih => exact Nat.succ_le_succ ih

/-- The body is walked to in every round. -/
theorem Rounds.walked {target : String}
    (rounds : Rounds executor host rely node whileExpr (some target) record current left ran acts
      outcome) :
    (awaitings acts).map Prod.fst = List.replicate ran [⟨executor, record, target⟩] := by
  have once : ∀ {between after : World} {acts : List (Act Engine)} {outcome : Outcome},
      (executor.loopBody node (some target) record).Amid (World.perform host) rely between acts
        outcome after → (awaitings acts).map Prod.fst = [[⟨executor, record, target⟩]] := by
    intro between after acts outcome executes
    obtain ⟨rfl, -⟩ := executes.of_call
    rfl
  induction rounds with
  | exhausted => rfl
  | stopped tests => rw [tests.awaitings]; rfl
  | failed tests executes => rw [awaitings_append, tests.awaitings]; exact once executes
  | again tests executes _ ih =>
      rw [awaitings_append, awaitings_append, tests.awaitings, List.nil_append, List.map_append,
        once executes, ih]
      rfl

/-- A condition that holds at every test lets every round be run. -/
theorem Rounds.eq_of_holds (holds : ∀ test,
      ¬ Tests executor host node whileExpr record current test false)
    (rounds : Rounds executor host rely node whileExpr body record current left ran acts outcome)
    (succeeds : outcome = .ok ()) : ran = left := by
  induction rounds with
  | exhausted => rfl
  | stopped tests => exact absurd tests (holds _)
  | failed => cases succeeds
  | again _ _ _ ih => exact congrArg Nat.succ (ih succeeds)

/-- A condition that never holds lets no round be run. -/
theorem Rounds.eq_zero (holds : ∀ test,
      ¬ Tests executor host node whileExpr record current test true)
    (rounds : Rounds executor host rely node whileExpr body record current left ran acts outcome) :
    ran = 0 ∧ outcome = .ok () := by
  cases rounds with
  | exhausted => exact ⟨rfl, rfl⟩
  | stopped => exact ⟨rfl, rfl⟩
  | failed tests => exact absurd tests (holds _)
  | again tests => exact absurd tests (holds _)

/-- **A loop obeys the law** amid others that leave its state alone. -/
theorem loopLaw_of_amid (spares : Sparing rely node.id)
    (amid : (executor.applyLoop node whileExpr body record left).Amid (World.perform host) rely
      world acts outcome after) :
    ∃ ran, LoopLaw executor host rely node whileExpr body record (world.states.get? node.id) left
      ran acts outcome := by
  obtain ⟨ran, rounds⟩ := amid_applyLoop spares amid
  refine ⟨ran, rounds, rounds.le, ?_, fun free draws holds => ?_, fun free draws holds => ?_⟩
  · rintro target rfl
    exact rounds.walked
  · refine rounds.eq_of_holds fun test tests => ?_
    have same := tests.eq_conditionHolds free draws
    rw [holds] at same
    cases same
  · refine rounds.eq_zero fun test tests => ?_
    have same := tests.eq_conditionHolds free draws
    rw [holds] at same
    cases same

end Rounds

section Runs

variable {registry : Registry} {hashOrder : HashOrder} {flow : FlowConfig} {ctx : BuildContext}
  {executor : Executor} {name : String} {node : Node} {whileExpr : Expr} {max : Nat}
  {body : Option String}

/-- **The condition of a loop is tested on one value.** In a run of an accepted graph beside any
walks, no step writes the state of a loop, which is the same all along; and amid any others that
leave it alone, a loop obeys the law. -/
theorem loop_condition_invariant
    (accepted : FlowGraph.Accepted registry hashOrder flow ctx executor.graph)
    (found : executor.graph.node name = some node)
    (isLoop : node.step = .control (.loop whileExpr max body)) :
    (∀ (walks : List Call) (host : Host) (world : World) (steps : List (Occurrence Engine World))
        (config : Config Engine World), (∀ call ∈ walks, executor.Known call) →
        executor.RunBeside walks host world steps config →
          Permitted (S := Engine) (fun op => ∀ value, op ≠ .setState name value) steps ∧
          (∀ step ∈ steps, step.world.states.get? name = world.states.get? name) ∧
          config.world.states.get? name = world.states.get? name) ∧
      ∀ (host : Host) (rely : World → World → Prop) (record : Record) (world after : World)
        (acts : List (Act Engine)) (outcome : Outcome), Sparing rely name →
        (executor.applyStep node record).Amid (World.perform host) rely world acts outcome after →
          ∃ ran, LoopLaw executor host rely node whileExpr body record (world.states.get? name) max
            ran acts outcome := by
  have formed := accepted.wellFormed
  have named : node.id = name := formed.named found
  refine ⟨fun walks host world steps config known run => ?_,
    fun host rely record world after acts outcome spares amid => ?_⟩
  · have silent : ∀ {id other}, executor.graph.node id = some other →
        executor.Allows (fun op => ∀ value, op ≠ .setState name value) other := by
      intro id other isNode
      refine Executor.allows_silent other fun exprs isState same => ?_
      rw [← formed.named isNode, same, found] at isNode
      cases isNode
      rw [isLoop] at isState
      cases isState
    obtain ⟨history, permitted⟩ := run.history formed
      (Executor.allows_silent default fun _ => nofun) silent (fun _ _ _ => Op.noConfusion)
        (fun _ _ _ => Op.noConfusion) (fun _ _ => Op.noConfusion) known
    exact ⟨permitted, states_of_history history permitted⟩
  · subst named
    unfold Executor.applyStep at amid
    rw [isLoop] at amid
    exact loopLaw_of_amid spares amid

end Runs

namespace Sample

/-- Components that also provide a loop of two rounds. -/
def repeatRegistry : Registry :=
  { FlowGraph.Sample.registry with
    build := fun kind type config ctx =>
      match kind, type with
      | .control, "loop" => FlowGraph.Sample.requiring ["while", "max_iterations"]
          (.control (.loop (.lit (.bool true)) 2 (some "out"))) config
      | _, _ => FlowGraph.Sample.registry.build kind type config ctx }

/-- A sink behind a loop. -/
def repeatFlow : FlowConfig :=
  { FlowGraph.Sample.intake with
    triggers := []
    steps := [FlowGraph.Sample.source "in",
      { FlowGraph.Sample.step "repeat" .control "loop" with
        extra := [("while", .string "true"), ("max_iterations", .number (.posInt 2)),
          ("step", .string "out")] },
      FlowGraph.Sample.sink "out"]
    edges := [.pair "in" "repeat"] }

/-- The loop of the flow. -/
def repeatNode : Node :=
  ⟨"repeat", none, .fail, .control (.loop (.lit (.bool true)) 2 (some "out")), [⟨"out", none⟩], 1,
    none⟩

/-- The graph of the loop. -/
def repeatGraph : FlowGraph where
  name := "intake"
  nodes := (((∅ : BTreeMap Node).insert "in"
    ⟨"in", none, .fail, .source, [⟨"repeat", none⟩], 0, none⟩).insert "out"
      ⟨"out", none, .fail, .sink, [], 1, none⟩).insert "repeat" repeatNode
  roots := ["in"]

theorem repeatFlow_built : FlowGraph.build repeatRegistry FlowGraph.Sample.hashOrder repeatFlow
    FlowGraph.Sample.ctx = .ok repeatGraph := rfl

/-- Two executions of the sink, which both succeed. -/
theorem repeat_amid : ∃ acts after, ((executor repeatGraph).applyStep repeatNode
      (record .null)).Amid (World.perform (host twoRecords)) (fun _ _ => False) storeless acts
        (.ok ()) after := by
  have rounds : ((executor repeatGraph).applyLoop repeatNode (.lit (.bool true)) (some "out")
      (record .null) 2).Amid (World.perform (host twoRecords)) (fun _ _ => False) storeless _
      (.ok ())
        _ :=
    .perform (.perform (.awaiting (.ok ()) (.perform (.perform (.awaiting (.ok ()) (.done ..))))))
  exact ⟨_, _, rounds⟩

/-- The loop runs its body twice, and no step writes its state. -/
theorem repeat_runs_twice : (∀ steps config, (executor repeatGraph).RunBeside [] (host twoRecords)
      storeless steps config → config.world.states.get? "repeat" = none) ∧
    ∃ acts, LoopLaw (executor repeatGraph) (host twoRecords) (fun _ _ => False) repeatNode
      (.lit (.bool true)) (some "out") (record .null) none 2 2 acts (.ok ()) := by
  have accepted : FlowGraph.Accepted repeatRegistry FlowGraph.Sample.hashOrder repeatFlow
      FlowGraph.Sample.ctx (executor repeatGraph).graph := .inl repeatFlow_built
  have found : (executor repeatGraph).graph.node "repeat" = some repeatNode := rfl
  obtain ⟨runs, loops⟩ := loop_condition_invariant accepted found rfl
  obtain ⟨acts, after, amid⟩ := repeat_amid
  obtain ⟨ran, law⟩ := loops _ _ _ _ _ _ _ (fun _ _ never => never.elim) amid
  have both : ran = 2 := law.always rfl ((host twoRecords).draws 0) rfl rfl
  subst both
  exact ⟨fun steps config run => (runs [] _ _ steps config (fun _ member => nomatch member)
    run).2.2, acts, law⟩

end Sample

end Sohara
