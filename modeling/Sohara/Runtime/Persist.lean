import Sohara.Runtime.Effect

/-! # Persistence of a run

Step states, checkpoints, delivered markers and parked approvals, kept in the
state store under keys that name the flow or the run.
-/

namespace Sohara

namespace Executor

variable (executor : Executor)

/-- The store key of a step's accumulated state. -/
def stateKey (id : String) : String := executor.runId ++ ":state:" ++ id

/-- The store key of an approve queue. -/
def approveKey (id : String) : String := executor.flowName ++ ":approve:" ++ id

/-- The lower-case hexadecimal digits of a number. -/
def lowerHex (number : Nat) : String := String.ofList (Nat.toDigits 16 number)

/-- The hash of a payload's text. -/
def payloadHash (payload : Value) : UInt64 :=
  executor.platform.hash (payload.text executor.platform)

/-- The idempotency key of a record: explicit in its metadata, or from its payload. -/
def idempotencyKey (record : Record) : String :=
  match record.metadata.get? "idempotency_key" with
  | some key => key
  | none => "hash-" ++ lowerHex (executor.payloadHash record.payload).toNat

/-- The store key of a record's delivered marker. -/
def deliveredKey (record : Record) : String :=
  executor.runId ++ ":delivered:" ++ executor.idempotencyKey record

/-- The value expressions of a node see: the payload, beside the node's state when
it has one. -/
def evalValue (node : Node) (record : Record) : Prog Value := do
  match ← Perform.stateOf node.id with
  | some state => return .object [("record", record.payload), ("state", state)]
  | none => return record.payload

/-- A node's accumulated state. -/
def stateValue (id : String) : Prog Value := do
  match ← Perform.stateOf id with
  | some state => return state
  | none => return .object []

/-- Updates a node's accumulated state and persists it immediately. -/
def updateState (id : String) (value : Value) : Prog Unit := do
  Perform.setState id value
  if ← Perform.hasStore then
    let _ ← Perform.save (executor.stateKey id) value
    return ()
  else return ()

/-- Persists the listed states. -/
def saveStates : Assoc Value → Prog Unit
  | [] => return ()
  | (id, state) :: rest => do
      let _ ← Perform.save (executor.stateKey id) state
      saveStates rest

/-- Persists every accumulated state. -/
def checkpoint : Prog Unit := do
  if ← Perform.hasStore then
    let states ← Perform.states
    executor.saveStates states
    Perform.resetCheckpoint
  else return ()

/-- Counts a processed record towards the next checkpoint. -/
def maybeCheckpoint : Prog Unit :=
  match executor.checkpointEvery with
  | none => return ()
  | some every => do
      let since ← Perform.bumpCheckpoint
      if every ≤ since then executor.checkpoint else return ()

/-- Whether the record was already delivered. -/
def isDelivered (record : Record) : Prog Bool := do
  if ← Perform.hasStore then
    match ← Perform.load (executor.deliveredKey record) with
    | .ok (some _) => return true
    | _ => return false
  else return false

/-- Marks a record as delivered. -/
def markDelivered (record : Record) : Prog Unit := do
  if ← Perform.hasStore then
    let _ ← Perform.save (executor.deliveredKey record) (.bool true)
    return ()
  else return ()

/-- The records of a stored queue. -/
def queued : Option Value → List Value
  | some value => value.asArray?.getD []
  | none => []

/-- Parks a record in the approve queue of a node. -/
def parkApprove (node : Node) (record : Record) : Prog Outcome := do
  if ← Perform.hasStore then
    match ← Perform.load (executor.approveKey node.id) with
    | .error error => return .error error
    | .ok stored =>
        Perform.save (executor.approveKey node.id) (.array (queued stored ++ [record.toJson]))
  else return .ok ()

/-- New records around the listed payloads. -/
def newRecords : List Value → Prog (List Record)
  | [] => return []
  | payload :: rest => do
      let record ← Perform.newRecord payload
      return record :: (← newRecords rest)

/-- Takes every parked record from a node's approve queue, clearing it. -/
def takeApproveQueue (id : String) : Prog (Except Error (List Record)) := do
  if ← Perform.hasStore then
    match ← Perform.load (executor.approveKey id) with
    | .error error => return .error error
    | .ok stored =>
        match ← Perform.delete (executor.approveKey id) with
        | .error error => return .error error
        | .ok () => return .ok (← newRecords (queued stored))
  else return .ok []

end Executor

/-- The store key of a flow's run id. -/
def runIdKey (flow : String) : String := flow ++ ":run_id"

/-- A new run id, stored for a later resume. -/
def freshRunId (flow : String) : Prog String := do
  let id ← Perform.freshUuid
  if ← Perform.hasStore then
    let _ ← Perform.save (runIdKey flow) (.string id)
    return id
  else return id

/-- The id of the run: the stored one on resume, or a new one. -/
def resolveRunId (flow : String) (resume : Bool) : Prog String := do
  if resume then
    if ← Perform.hasStore then
      match ← Perform.load (runIdKey flow) with
      | .ok (some (.string id)) => return id
      | _ => freshRunId flow
    else freshRunId flow
  else freshRunId flow

/-- The state a node starts with: the persisted one on resume, or the declared one. -/
def initialState (runId : String) (resume : Bool) (node : Node) : Prog Value := do
  let declared := node.state.getD (.object [])
  if resume then
    if ← Perform.hasStore then
      match ← Perform.load (runId ++ ":state:" ++ node.id) with
      | .ok (some saved) => return saved
      | _ => return declared
    else return declared
  else return declared

/-- Sets up the states of the nodes that declare one. -/
def initialStates (runId : String) (resume : Bool) : List Node → Prog Unit
  | [] => return ()
  | node :: rest => do
      let initial ← initialState runId resume node
      if node.state.isSome then
        Perform.setState node.id initial
        initialStates runId resume rest
      else initialStates runId resume rest

end Sohara
