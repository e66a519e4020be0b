import Sohara.Core.Expr
import Std.Data.TreeMap

/-! # Steps

Errors, control steps, transform outcomes, and the steps a component registry
builds.
-/

namespace Sohara

/-- A duration in milliseconds. -/
abbrev Duration : Type := Nat

/-- The errors of the engine. -/
inductive Error where
  | io (message : String)
  | serialization (message : String)
  | pipeline (message : String)
  | source (message : String)
  | sink (message : String)
  | transform (message : String)
  | assertion (message : String)
  | expression (message : String)
  | runtime (message : String)
  | config (message : String)
  | timeout
  | channelClosed
  | unknown (message : String)
  deriving DecidableEq, Repr

/-- The displayed error. -/
def Error.text : Error → String
  | .io message => "IO error: " ++ message
  | .serialization message => "Serialization error: " ++ message
  | .pipeline message => "Pipeline error: " ++ message
  | .source message => "Source error: " ++ message
  | .sink message => "Sink error: " ++ message
  | .transform message => "Transform error: " ++ message
  | .assertion message => "Assertion failed: " ++ message
  | .expression message => "Expression error: " ++ message
  | .runtime message => "Runtime error: " ++ message
  | .config message => "Configuration error: " ++ message
  | .timeout => "Timeout error"
  | .channelClosed => "Channel closed"
  | .unknown message => "Unknown error: " ++ message

/-- One case of a `switch` step. -/
structure SwitchCase where
  when_ : Expr
  to_ : String
  deriving Repr

/-- How a `join` step releases records. -/
inductive JoinMode where
  | all
  | any
  | n
  deriving DecidableEq, Repr

/-- A control step, interpreted by the graph executor. -/
inductive ControlNode where
  | switch (cases : List SwitchCase) (default_ : String)
  | foreach (over_ : Expr) (asField : Option String) (maxIterations : Nat)
  | loop (whileExpr : Expr) (maxIterations : Nat) (body : Option String)
  | parallel (branches : List String)
  | join (mode : JoinMode) (n : Nat)
  | delay (duration : Duration)
  | batch (size : Option Nat) (within : Option Duration)
  | state (exprs : List (String × Expr))
  | approve (title : String)
  deriving Repr

/-- Outcome of applying a transform to a record. -/
inductive TransformOutcome where
  | pass (record : Record)
  | filtered
  | expand (records : List Record)
  | fail (error : Error)

/-- The role a step plays in a flow. -/
inductive StepKind where
  | source
  | transform
  | sink
  | control
  deriving DecidableEq, Repr

/-- Lowercase name for error messages. -/
def StepKind.text : StepKind → String
  | .source => "source"
  | .transform => "transform"
  | .sink => "sink"
  | .control => "control"

/-- Step identity available to factories. -/
structure StepMeta where
  id : String
  name : String
  kind : String
  stepType : String

/-- Context available to factories at build time. -/
structure BuildContext where
  vars : Fields
  /-- Whether a shared event bus is attached. -/
  bus : Bool
  flow : String
  step : Option StepMeta

/-- A step instance produced by a factory. Sources, transforms and sinks are known
to the graph by their role only; what they do belongs to the host. -/
inductive BuiltStep where
  | source
  | transform
  | sink
  | control (node : ControlNode)
  deriving Repr

/-- What the component registry and the parsers make of their inputs. -/
structure Registry where
  build : StepKind → String → Value → BuildContext → Except Error BuiltStep
  parse : String → Except ExprError Expr
  parseDuration : String → Except String Duration

/-- The iteration order of hash sets and maps: unspecified, but every element
occurs once. -/
structure HashOrder where
  order : List String → List String
  perm : ∀ elements, (order elements).Perm elements

/-- The entries of a map in an iteration order. -/
def Assoc.listing {V : Type} (hash : HashOrder) (entries : Assoc V) : List (String × V) :=
  (hash.order (entries.map Prod.fst)).filterMap fun key =>
    (entries.get? key).map fun value => (key, value)

/-- What is listed of a map makes the map. -/
theorem Assoc.get?_listing {V : Type} (hash : HashOrder) (entries : Assoc V) (key : String) :
    (Assoc.ofList (entries.listing hash)).get? key = entries.get? key := by
  unfold Assoc.listing
  refine Assoc.get?_ofList_of_entries (fun name value member => ?_) (fun name value present => ?_)
    key
  · obtain ⟨other, -, listed⟩ := List.mem_filterMap.mp member
    obtain ⟨found, present, same⟩ := Option.map_eq_some_iff.mp listed
    cases same
    exact present
  · refine List.mem_filterMap.mpr ⟨name, (hash.perm _).mem_iff.mpr ?_, ?_⟩
    · by_contra absent
      rw [Assoc.get?_eq_none absent] at present
      cases present
    · rw [present]
      rfl

/-- Sorted maps keyed by strings. -/
abbrev BTreeMap (V : Type) : Type := Std.TreeMap String V compare

end Sohara
