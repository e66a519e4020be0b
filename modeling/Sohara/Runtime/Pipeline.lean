import Sohara.Runtime.Effect

/-! # The plain pipeline

A source, transforms applied one after the other to all pending records, and a sink. The
components are known by the ids under which a flow would declare them.
-/

namespace Sohara

/-- Statistics from a pipeline run. -/
structure PipelineStats where
  processed : Nat
  filtered : Nat
  errors : Nat
  deriving DecidableEq, Repr

namespace PipelineStats

/-- Nothing counted. -/
def zero : PipelineStats := ⟨0, 0, 0⟩

end PipelineStats

namespace Pipeline

/-- Applies a single transform to one record, updating the statistics. -/
def applyOne (transform : String) (record : Record) (stats : PipelineStats) :
    Prog (List Record × PipelineStats) := do
  match ← Perform.transform transform record with
  | .ok (.pass record) => return ([record], stats)
  | .ok .filtered => return ([], { stats with filtered := stats.filtered + 1 })
  | .ok (.expand records) => return (records, stats)
  | .ok (.fail _) => return ([], { stats with errors := stats.errors + 1 })
  | .error _ => return ([], { stats with errors := stats.errors + 1 })

/-- Applies a transform to all pending records, collecting what it makes of them. -/
def applyPending (transform : String) (next : List Record) (stats : PipelineStats) :
    List Record → Prog (List Record × PipelineStats)
  | [] => return (next, stats)
  | record :: rest => do
      let (records, stats) ← applyOne transform record stats
      applyPending transform (next ++ records) stats rest

/-- Applies the transforms one after the other, until no record is pending. -/
def applyTransforms (pending : List Record) (stats : PipelineStats) :
    List String → Prog (List Record × PipelineStats)
  | [] => return (pending, stats)
  | transform :: rest => do
      let (next, stats) ← applyPending transform [] stats pending
      if next.isEmpty then return (next, stats) else applyTransforms next stats rest

/-- Sends records to the sink, counting failures. -/
def sendAll (sink : String) (stats : PipelineStats) : List Record → Prog PipelineStats
  | [] => return stats
  | record :: rest => do
      match ← Perform.send sink record with
      | .ok () => sendAll sink { stats with processed := stats.processed + 1 } rest
      | .error _ => sendAll sink { stats with errors := stats.errors + 1 } rest

/-- Takes a single record through the transforms and sends the results to the sink. -/
def processRecord (transforms : List String) (sink : String) (record : Record)
    (stats : PipelineStats) : Prog PipelineStats := do
  let (records, stats) ← applyTransforms [record] stats transforms
  sendAll sink stats records

/-- Processes the elements of the source stream. -/
def pump (transforms : List String) (sink : String) (stats : PipelineStats) :
    List Item → Prog PipelineStats
  | [] => return stats
  | .ok record :: rest => do
      let stats ← processRecord transforms sink record stats
      pump transforms sink stats rest
  | .error _ :: rest => pump transforms sink { stats with errors := stats.errors + 1 } rest

/-- Runs a source through transforms into a sink. -/
def run (source : String) (transforms : List String) (sink : String) :
    Prog (Except Error PipelineStats) := do
  match ← Perform.stream source with
  | .error error => return .error error
  | .ok items =>
      let stats ← pump transforms sink .zero items
      match ← Perform.flush sink with
      | .error error => return .error error
      | .ok () => return .ok stats

end Pipeline

end Sohara
