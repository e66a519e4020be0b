import Sohara.Async.Task
import Sohara.Runtime.Acceptance
import Sohara.Runtime.WalkSafety

/-! # Every walk ends

In an accepted graph every walk awaited by a walk starts at a known node of
smaller rank. Loops, retries and lists of records are bounded inside one
program, so the rank is all that recursion needs: no walk runs forever, none is
stuck, and none meets an unknown node.
-/

namespace Sohara

open Async Async.Program

namespace Executor

variable {executor : Executor}

/-- A walk of the same executor from a known node. -/
def Known (executor : Executor) (call : Call) : Prop :=
  call.executor = executor ∧ ∃ node, executor.graph.node call.node = some node

/-- Walks awaited in a well-formed graph start at known nodes of smaller rank. -/
theorem leads_of_wellFormed (formed : executor.graph.WellFormed) {rank : String → Nat}
    (descends : ∀ {id node}, executor.graph.node id = some node →
      ∀ route ∈ node.routes, rank route.to_ < rank id)
    {id : String} {node : Node} (found : executor.graph.node id = some node) :
    executor.Leads (fun call => executor.Known call ∧ rank call.node < rank id) node := by
  have routes : ∀ route ∈ node.routes, ∀ record,
      executor.Known ⟨executor, record, route.to_⟩ ∧ rank route.to_ < rank id :=
    fun route member record =>
      ⟨⟨rfl, formed.known found route member⟩, descends found route member⟩
  refine ⟨routes, fun control isControl target named record => ?_⟩
  obtain ⟨route, member, rfl⟩ := formed.explicit found isControl target named
  exact routes route member record

/-- Everything but an unknown node may happen at a node. -/
theorem allows_known (node : Node) :
    executor.Allows (fun op => ∀ id, op ≠ .unknownNode id) node where
  quiet op quiet id same := by rw [same] at quiet; exact quiet
  state key value id same := nomatch same
  send isSink record id same := nomatch same
  lookup isSink record id same := nomatch same
  marker isSink record id same := nomatch same
  queue title isApprove id same := nomatch same
  park title isApprove items id same := nomatch same
  wait title isApprove id same := nomatch same
  join isJoin mode expected n buffer correlation record id same := nomatch same
  update isState value id same := nomatch same
  collect size within isBatch record id same := nomatch same
  merge isJoin id same := nomatch same
  emit isBatch records id same := nomatch same

/-- The body of a known walk obeys: known operations, and walks of smaller rank. -/
theorem safe_walkCall (formed : executor.graph.WellFormed) {rank : String → Nat}
    (descends : ∀ {id node}, executor.graph.node id = some node →
      ∀ route ∈ node.routes, rank route.to_ < rank id)
    {call : Call} (known : executor.Known call) :
    Safe (S := Engine) (fun _ _ => True) (fun op => ∀ id, op ≠ .unknownNode id)
      (fun inner => executor.Known inner ∧ rank inner.node < rank call.node)
      (walkCall call) := by
  obtain ⟨rfl, node, found⟩ := known
  exact safe_walk found (allows_known node).performs
    (leads_of_wellFormed formed descends found) call.record

theorem halts_walk (formed : executor.graph.WellFormed) {call : Call}
    (known : executor.Known call) : Task.Halts (S := Engine) walkCall (.call call) := by
  obtain ⟨rank, -, descends⟩ := formed.ranked
  exact Task.halts_of_rank (S := Engine) executor.Known (fun call : Call => rank call.node)
    (fun call known => (safe_walkCall formed descends known).mono (fun _ _ => trivial)
      (fun _ => id) fun _ => id) call known

/-- No walk reaches an unknown node. -/
theorem known_of_reaches (formed : executor.graph.WellFormed) {call : Call}
    (known : executor.Known call) {task next : Task Engine} {event : Event Engine}
    (reached : Task.Reaches walkCall (.call call) task)
    (step : Task.Step walkCall task (some event) next) (id : String) :
    event.op ≠ .unknownNode id := by
  obtain ⟨rank, -, descends⟩ := formed.ranked
  have start : Task.Obeys (S := Engine) (fun _ _ => True)
      (fun op => ∀ id, op ≠ .unknownNode id) executor.Known (.call call) := known
  have obeys := start.reaches (fun inner known =>
    (safe_walkCall formed descends known).mono (fun _ allowed => allowed) (fun _ => And.left)
      fun _ done => done) reached
  exact obeys.permits step id

end Executor

/-- **Walks end and meet known nodes only.** From every node of an accepted graph,
under all responses of sinks, transforms and stores and under all interleavings of
parallel branches, a walk takes finitely many steps, is never stuck before its end,
and never drops a record for an unknown node. -/
theorem walk_ends {registry : Registry} {hashOrder : HashOrder} {flow : FlowConfig}
    {ctx : BuildContext} (executor : Executor)
    (accepted : FlowGraph.Accepted registry hashOrder flow ctx executor.graph)
    {id : String} {node : Node} (found : executor.graph.node id = some node) (record : Record) :
    Task.Halts (S := Engine) walkCall (.call ⟨executor, record, id⟩) ∧
      ∀ task, Task.Reaches (S := Engine) walkCall (.call ⟨executor, record, id⟩) task →
        ((∃ outcome, task = .run (.done outcome)) ∨
            ∃ event next, Task.Step walkCall task event next) ∧
          ∀ event next, Task.Step walkCall task (some event) next →
            ∀ unknown, event.op ≠ .unknownNode unknown := by
  have formed := accepted.wellFormed
  have known : executor.Known ⟨executor, record, id⟩ := ⟨rfl, node, found⟩
  refine ⟨Executor.halts_walk formed known, fun task reached => ⟨?_, fun event next step =>
    Executor.known_of_reaches formed known reached step⟩⟩
  have fresh : Task.Settled (S := Engine) (.call ⟨executor, record, id⟩) := trivial
  cases finished : task.outcome? with
  | some outcome => exact .inl ⟨outcome, Task.outcome?_eq_some finished⟩
  | none => exact .inr ((fresh.reaches reached).exists_step walkCall finished)

namespace Sample

/-- A platform without numbers, environment or hashing. -/
def platform : Platform where
  ofInt _ := 0
  add _ _ := 0
  sub _ _ := 0
  mul _ _ := 0
  div _ _ := 0
  rem _ _ := 0
  abs bits := bits
  fract _ := 0
  isFinite _ := true
  partialCmp _ _ := some .eq
  toI64 _ := 0
  parse _ := none
  display _ := "0"
  getenv _ := none
  hash text := text.toList.foldl
    (fun hash char => (hash ^^^ char.toNat.toUInt64) * 0x100000001b3) 0xcbf29ce484222325

/-- An executor of a graph. -/
def executor (graph : FlowGraph) : Executor where
  graph := graph
  platform := platform
  hashOrder := FlowGraph.Sample.hashOrder
  vars := []
  runId := "run"
  flowName := graph.name
  checkpointEvery := none
  pause := false

/-- A record around a payload. -/
def record (payload : Value) : Record := { id := "r", timestamp := 0, payload, metadata := [] }

/-- A flow that reads and writes. -/
def copyFlow : FlowConfig :=
  { FlowGraph.Sample.intake with
    triggers := []
    steps := [FlowGraph.Sample.source "in", FlowGraph.Sample.sink "out"]
    edges := [] }

/-- Components that also provide a `foreach`, a loop, a parallel step and a join. -/
def roundsRegistry : Registry :=
  { FlowGraph.Sample.registry with
    build := fun kind type config ctx =>
      match kind, type with
      | .control, "foreach" => FlowGraph.Sample.requiring ["over"]
          (.control (.foreach (.path ["lines"]) none 1000)) config
      | .control, "loop" => FlowGraph.Sample.requiring ["while", "max_iterations"]
          (.control (.loop (.lit (.bool true)) 3 (some "fork"))) config
      | .control, "parallel" => FlowGraph.Sample.requiring ["branches"]
          (.control (.parallel ["a", "b"])) config
      | .control, "join" => .ok (.control (.join .all 0))
      | _, _ => FlowGraph.Sample.registry.build kind type config ctx }

/-- Every line of a record goes three times through two parallel transforms. -/
def roundsFlow : FlowConfig :=
  { FlowGraph.Sample.intake with
    triggers := []
    steps := [FlowGraph.Sample.source "in",
      { FlowGraph.Sample.step "each" .control "foreach" with
        extra := [("over", .string "lines")] },
      { FlowGraph.Sample.step "again" .control "loop" with
        extra := [("while", .string "true"), ("max_iterations", .number (.posInt 3)),
          ("step", .string "fork")] },
      { FlowGraph.Sample.step "fork" .control "parallel" with
        extra := [("branches", .array [.string "a", .string "b"])] },
      FlowGraph.Sample.step "a" .transform "map", FlowGraph.Sample.step "b" .transform "map",
      FlowGraph.Sample.step "meet" .control "join", FlowGraph.Sample.sink "out"]
    edges := [.pair "in" "each", .pair "each" "again", .pair "a" "meet", .pair "b" "meet",
      .pair "meet" "out"] }

/-- A record with two lines. -/
def twoLines : Record := record (.object [("lines", .array [.null, .bool true])])

/-- A record with two lines walks to its end and meets known nodes only, whatever the order of
the branches. -/
theorem roundsFlow_walk_ends : ∃ graph,
    FlowGraph.build roundsRegistry FlowGraph.Sample.hashOrder roundsFlow FlowGraph.Sample.ctx =
        .ok graph ∧
      Task.Halts (S := Engine) walkCall (.call ⟨executor graph, twoLines, "in"⟩) ∧
      ∀ task, Task.Reaches (S := Engine) walkCall (.call ⟨executor graph, twoLines, "in"⟩) task →
        ∀ event next, Task.Step walkCall task (some event) next →
          ∀ unknown, event.op ≠ .unknownNode unknown := by
  refine ⟨_, rfl, ?_⟩
  have ends := @walk_ends roundsRegistry FlowGraph.Sample.hashOrder roundsFlow
    FlowGraph.Sample.ctx (executor _) (.inl rfl) "in" _ rfl twoLines
  exact ⟨ends.1, fun task reached => (ends.2 task reached).2⟩

end Sample

end Sohara
