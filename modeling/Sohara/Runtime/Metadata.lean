import Sohara.Runtime.Carrying
import Sohara.Runtime.JoinDrain

/-! # What happens to metadata

Every step but a script hands on the metadata of the record it was given. A script makes
new records, which have none: the joins and sinks behind it no longer know the record by
its correlation or its idempotency key.
-/

namespace Sohara

open Async Async.Program

namespace Record

/-- Every metadata entry of a record is one of another record, too. -/
def Keeps (record made : Record) : Prop :=
  ∀ key value, record.metadata.get? key = some value → made.metadata.get? key = some value

variable {record made : Record}

theorem keeps_of_eq (same : made.metadata = record.metadata) : record.Keeps made := by
  intro key value present
  rw [same]
  exact present

/-- A record without metadata keeps only the empty metadata. -/
theorem keeps_of_empty (empty : made.metadata = []) : record.Keeps made ↔ record.metadata = [] := by
  constructor
  · intro keeps
    cases entries : record.metadata with
    | nil => rfl
    | cons entry rest =>
        have present : record.metadata.get? entry.1 = some entry.2 := by
          rw [entries]
          exact if_pos rfl
        have kept := keeps entry.1 entry.2 present
        rw [empty] at kept
        cases kept
  · intro none_
    exact keeps_of_eq (empty.trans none_.symm)

end Record

/-- Whether a step is a script. -/
def TransformStep.isScript : TransformStep → Bool
  | .script _ => true
  | _ => false

/-- The script answers without a record: it fails, or its emit buffer is poisoned, or it
returns nothing and emits nothing. -/
def ScriptStep.Silent (platform : Platform) (application : Application) (step : ScriptStep)
    (record : Record) : Prop :=
  match step.invoke platform application record with
  | .error _ => True
  | .ok result =>
      match application.quickJs.emitted step.source step.entry record with
      | none => True
      | some emitted =>
          emitted = [] ∧ (result = .undefined ∨ result = .null ∨ result = .array [])

/-- Whether the step is a script, and not silent. -/
def TransformStep.Speaks (platform : Platform) (application : Application)
    (step : TransformStep) (record : Record) : Prop :=
  match step with
  | .script step => ¬ step.Silent platform application record
  | _ => False

/-- Whether a control step forwards single records. -/
def ControlNode.forwards : ControlNode → Bool
  | .foreach _ _ _ => true
  | .loop _ _ _ => true
  | .parallel _ => true
  | .delay _ => true
  | .state _ => true
  | _ => false

/-- The arrival of a record at a join, under a fresh correlation if it has none. -/
def Record.arrival (record : Record) (id fresh : String) (mode : JoinMode)
    (expected threshold : Nat) : Op :=
  .joinArrive id ((record.metadata.get? "correlation").getD fresh) mode expected threshold record

/-- A record that arrives in place of another makes every join release, or not, as the
other does. -/
def Record.JoinsLike (record made : Record) : Prop :=
  ∀ (world : World) (id fresh : String) (mode : JoinMode) (expected threshold : Nat),
    (Op.releasedIn world (made.arrival id fresh mode expected threshold)).isSome =
      (Op.releasedIn world (record.arrival id fresh mode expected threshold)).isSome

theorem mem_yielded {result : Except Error TransformOutcome} {made : Record} :
    made ∈ yielded result ↔ ∃ outcome, result = .ok outcome ∧ made ∈ outcome.records := by
  cases result with
  | error failure => exact ⟨(fun member => nomatch member), fun ⟨_, same, _⟩ => nomatch same⟩
  | ok outcome =>
      refine ⟨fun member => ⟨outcome, rfl, member⟩, fun ⟨_, same, member⟩ => ?_⟩
      cases same
      exact member

section Declarative

variable {platform : Platform} {application : Application} {record made : Record}

theorem FilterStep.eq_of_yielded {step : FilterStep}
    (member : made ∈ yielded (step.transform platform application record)) : made = record := by
  obtain ⟨outcome, applied, inside⟩ := mem_yielded.mp member
  obtain ⟨passed, -, same⟩ := Except.bind_eq_ok.mp applied
  cases same
  by_cases lets : passed ≠ step.invert
  · rw [if_pos lets] at inside
    exact List.mem_singleton.mp inside
  · rw [if_neg lets] at inside
    cases inside

theorem MapStep.metadata_compute {vars : Fields} {exprs : List (String × Expr)} {number : Nat}
    (computed : MapStep.compute platform application vars number exprs record = .ok made) :
    made.metadata = record.metadata := by
  induction exprs generalizing number record with
  | nil =>
      cases computed
      rfl
  | cons entry rest ih =>
      obtain ⟨value, -, others⟩ := Except.bind_eq_ok.mp computed
      rw [ih others, Record.metadata_set]

theorem MapStep.metadata_of_yielded {step : MapStep}
    (member : made ∈ yielded (step.transform platform application record)) :
    made.metadata = record.metadata := by
  obtain ⟨outcome, applied, inside⟩ := mem_yielded.mp member
  obtain ⟨result, computed, same⟩ := Except.bind_eq_ok.mp applied
  rw [← MapStep.metadata_compute computed]
  cases projects : step.project with
  | none =>
      rw [projects] at same
      cases same
      rw [List.mem_singleton.mp inside]
  | some fields =>
      rw [projects] at same
      cases same
      rw [List.mem_singleton.mp inside]
      rfl

theorem AssertTransform.records_failedOutcome {debug : Check → String} (step : AssertTransform)
    (assertion : Assertion) : (step.failedOutcome debug assertion).records = [] := by
  unfold AssertTransform.failedOutcome
  cases step.onFail <;> rfl

theorem AssertTransform.eq_of_validate {debug : Check → String} {step : AssertTransform}
    {assertions : List Assertion}
    (member : made ∈ (step.validate platform debug record assertions).records) :
    made = record := by
  induction assertions with
  | nil => exact List.mem_singleton.mp member
  | cons assertion rest ih =>
      unfold AssertTransform.validate at member
      split at member
      · exact ih member
      · rw [records_failedOutcome] at member
        cases member

end Declarative

section Scripts

variable {platform : Platform} {application : Application} {record made : Record}

theorem metadata_newAll {first : Nat} {payloads : List Value}
    (member : made ∈ Record.newAll application first payloads) : made.metadata = [] := by
  obtain ⟨entry, -, rfl⟩ := List.mem_map.mp member
  rfl

theorem newAll_eq_nil {first : Nat} {payloads : List Value} :
    Record.newAll application first payloads = [] ↔ payloads = [] := by
  unfold Record.newAll
  rw [List.map_eq_nil_iff, List.zipIdx_eq_nil_iff]

/-- What a script returns becomes new records. -/
theorem metadata_outcomeFromJs {result : JsValue} {outcome : TransformOutcome}
    (translated : outcomeFromJs platform application result = .ok outcome)
    (member : made ∈ outcome.records) : made.metadata = [] := by
  unfold outcomeFromJs at translated
  split at translated
  · cases translated
    cases member
  · cases translated
    cases member
  · split at translated
    · cases translated
      exact metadata_newAll member
    · cases translated
      obtain rfl := List.mem_singleton.mp member
      rfl

/-- A script value yields no record when it is no value or an empty array. -/
theorem outcomeFromJs_silent {result : JsValue} {outcome : TransformOutcome}
    (translated : outcomeFromJs platform application result = .ok outcome) :
    outcome.records = [] ↔ result = .undefined ∨ result = .null ∨ result = .array [] := by
  cases result with
  | undefined =>
      cases translated
      simp [TransformOutcome.records]
  | null =>
      cases translated
      simp [TransformOutcome.records]
  | array items =>
      cases translated
      cases items with
      | nil => simp [TransformOutcome.records, jsToItems, newAll_eq_nil]
      | cons item rest => simp [TransformOutcome.records, jsToItems, newAll_eq_nil]
  | float number =>
      unfold outcomeFromJs at translated
      simp only [jsToValue] at translated
      split at translated
      · next isArray => split at isArray <;> cases isArray
      · cases translated
        simp [TransformOutcome.records]
  | _ =>
      cases translated
      simp [TransformOutcome.records]

/-- Emitted payloads join the outcome as new records. -/
theorem records_mergeEmitted {emitted : List Value} {outcome merged : TransformOutcome}
    (done : ∀ error, outcome ≠ .fail error)
    (together : mergeEmitted application (some emitted) outcome = .ok merged) :
    merged.records =
      outcome.records ++ Record.newAll application outcome.records.length emitted := by
  unfold mergeEmitted at together
  cases emitted with
  | nil =>
      cases together
      exact (List.append_nil _).symm
  | cons payload rest =>
      cases outcome with
      | pass record =>
          cases together
          rfl
      | filtered =>
          cases together
          rfl
      | expand records =>
          cases together
          rfl
      | fail error => exact absurd rfl (done error)

theorem outcomeFromJs_succeeds (result : JsValue) :
    ∃ outcome, outcomeFromJs platform application result = .ok outcome ∧
      ∀ error, outcome ≠ .fail error := by
  unfold outcomeFromJs
  split
  · refine ⟨_, rfl, fun error failed => ?_⟩
    cases failed
  · refine ⟨_, rfl, fun error failed => ?_⟩
    cases failed
  · split
    · refine ⟨_, rfl, fun error failed => ?_⟩
      cases failed
    · refine ⟨_, rfl, fun error failed => ?_⟩
      cases failed

/-- A script fails, or goes on with what it returns and emits. -/
theorem ScriptStep.transform_cases (platform : Platform) (application : Application)
    (step : ScriptStep) (record : Record) :
    (∃ error, step.invoke platform application record = .error error ∧
        step.transform platform application record = .error error) ∨
      ∃ result outcome, step.invoke platform application record = .ok result ∧
        outcomeFromJs platform application result = .ok outcome ∧
        (∀ error, outcome ≠ .fail error) ∧
        step.transform platform application record = mergeEmitted application
          (application.quickJs.emitted step.source step.entry record) outcome := by
  unfold ScriptStep.transform
  cases invoked : step.invoke platform application record with
  | error error => exact .inl ⟨error, rfl, rfl⟩
  | ok result =>
      obtain ⟨outcome, translated, done⟩ := @outcomeFromJs_succeeds platform application result
      refine .inr ⟨result, outcome, rfl, translated, done, ?_⟩
      change (outcomeFromJs platform application result >>= _) = _
      rw [translated]
      rfl

/-- What a script makes has no metadata. -/
theorem ScriptStep.metadata_of_yielded {step : ScriptStep}
    (member : made ∈ yielded (step.transform platform application record)) :
    made.metadata = [] := by
  rcases step.transform_cases platform application record with
    ⟨error, -, failed⟩ | ⟨result, outcome, -, translated, done, merges⟩
  · rw [failed] at member
    cases member
  · rw [merges] at member
    cases emits : application.quickJs.emitted step.source step.entry record with
    | none =>
        rw [emits] at member
        cases member
    | some emitted =>
        rw [emits] at member
        obtain ⟨merged, together, inside⟩ := mem_yielded.mp member
        rw [records_mergeEmitted done together] at inside
        rcases List.mem_append.mp inside with returned | emitted
        · exact metadata_outcomeFromJs translated returned
        · exact metadata_newAll emitted

/-- A script yields no record just in case it is silent. -/
theorem ScriptStep.yielded_eq_nil {step : ScriptStep} :
    yielded (step.transform platform application record) = [] ↔
      step.Silent platform application record := by
  unfold ScriptStep.Silent
  rcases step.transform_cases platform application record with
    ⟨error, invoked, failed⟩ | ⟨result, outcome, invoked, translated, done, merges⟩
  · rw [invoked, failed]
    exact iff_of_true rfl trivial
  · rw [invoked, merges]
    dsimp only
    cases emits : application.quickJs.emitted step.source step.entry record with
    | none => exact iff_of_true rfl trivial
    | some emitted =>
        dsimp only
        obtain ⟨merged, together⟩ : ∃ merged,
            mergeEmitted application (some emitted) outcome = .ok merged := by
          unfold mergeEmitted
          cases emitted with
          | nil => exact ⟨_, rfl⟩
          | cons payload rest => cases outcome <;> exact ⟨_, rfl⟩
        rw [together]
        change merged.records = [] ↔ _
        rw [records_mergeEmitted done together, List.append_eq_nil_iff, newAll_eq_nil,
          outcomeFromJs_silent translated]
        exact and_comm

end Scripts

section Steps

variable {platform : Platform} {debug : Check → String} {application : Application}
  {step : TransformStep} {record made : Record}

/-- Every transform but a script hands on the metadata. -/
theorem metadata_of_yielded (declarative : step.isScript = false)
    (member : made ∈ yielded (step.transform platform debug application record)) :
    made.metadata = record.metadata := by
  cases step with
  | filter step => rw [FilterStep.eq_of_yielded member]
  | map step => exact MapStep.metadata_of_yielded member
  | addField step =>
      rw [List.mem_singleton.mp member]
      exact Record.metadata_set ..
  | assert step => rw [AssertTransform.eq_of_validate member]
  | script step => cases declarative

/-- What a script yields has no metadata, and there is some of it unless it is silent. -/
theorem speaks_cases (platform : Platform) (debug : Check → String) (application : Application)
    (step : TransformStep) (record : Record) :
    (¬ step.Speaks platform application record ∧
        ∀ made ∈ yielded (step.transform platform debug application record),
          made.metadata = record.metadata) ∨
      (step.Speaks platform application record ∧
        (∀ made ∈ yielded (step.transform platform debug application record),
          made.metadata = []) ∧
        yielded (step.transform platform debug application record) ≠ []) := by
  cases step with
  | script step =>
      by_cases silent : step.Silent platform application record
      · refine .inl ⟨fun speaks => speaks silent, fun made member => ?_⟩
        have nothing := (@ScriptStep.yielded_eq_nil platform application record step).mpr silent
        change made ∈ yielded (step.transform platform application record) at member
        rw [nothing] at member
        cases member
      · refine .inr ⟨silent, fun made member => ScriptStep.metadata_of_yielded member, ?_⟩
        exact fun nothing => silent (ScriptStep.yielded_eq_nil.mp nothing)
  | filter step => exact .inl ⟨id, fun made member => metadata_of_yielded rfl member⟩
  | map step => exact .inl ⟨id, fun made member => metadata_of_yielded rfl member⟩
  | addField step => exact .inl ⟨id, fun made member => metadata_of_yielded rfl member⟩
  | assert step => exact .inl ⟨id, fun made member => metadata_of_yielded rfl member⟩

/-- A transform keeps the metadata unless it is a script that speaks, and there is some. -/
theorem keeps_yielded_iff :
    (∀ made ∈ yielded (step.transform platform debug application record), record.Keeps made) ↔
      ¬ step.Speaks platform application record ∨ record.metadata = [] := by
  rcases speaks_cases platform debug application step record with
    ⟨quiet, same⟩ | ⟨speaks, empty, some_⟩
  · exact iff_of_true (fun made member => Record.keeps_of_eq (same made member)) (.inl quiet)
  · obtain ⟨made, member⟩ := List.exists_mem_of_ne_nil _ some_
    rw [or_iff_right (not_not_intro speaks), ← Record.keeps_of_empty (empty made member)]
    constructor
    · exact fun keeps => keeps made member
    · intro keeps other inside
      rw [Record.keeps_of_empty (empty made member)] at keeps
      exact (Record.keeps_of_empty (empty other inside)).mpr keeps

end Steps

section Joining

variable {record made : Record}

/-- Whether an arrival releases depends on what the join holds under its correlation. -/
theorem Record.isSome_releasedIn (record : Record) (world : World) (id fresh : String)
    (mode : JoinMode) (expected threshold : Nat) :
    (Op.releasedIn world (record.arrival id fresh mode expected threshold)).isSome =
      World.isReady mode expected threshold
        ((world.held id ((record.metadata.get? "correlation").getD fresh)).length + 1) := by
  unfold Op.releasedIn Record.arrival
  dsimp only
  rw [World.joinArrive_fst, List.length_append, List.length_singleton]
  split
  · next ready => rw [ready]; rfl
  · next waits => exact (Bool.not_eq_true _ ▸ waits).symm

/-- Records of one correlation join alike. -/
theorem Record.joinsLike_of_eq
    (same : made.metadata.get? "correlation" = record.metadata.get? "correlation") :
    record.JoinsLike made := by
  intro world id fresh mode expected threshold
  rw [isSome_releasedIn, isSome_releasedIn, same]

/-- A record without a correlation does not join like one with a correlation. -/
theorem Record.joinsLike_iff (absent : made.metadata.get? "correlation" = none) :
    record.JoinsLike made ↔ record.metadata.get? "correlation" = none := by
  constructor
  · intro alike
    cases present : record.metadata.get? "correlation" with
    | none => rfl
    | some correlation =>
        -- one record waits in the group, and a fresh correlation opens another group
        let world : World := { World.start none (fun _ => none) (fun _ => []) with
          joins := fun _ => [(correlation, [record])] }
        have different : correlation ≠ correlation ++ "'" := by
          intro same
          have longer := congrArg String.length same
          rw [String.length_append] at longer
          exact absurd longer (Nat.ne_of_lt (Nat.lt_add_of_pos_right (by decide)))
        have group : world.held "join" correlation = [record] := by
          unfold World.held
          have found : (world.joins "join").get? correlation = some [record] := if_pos rfl
          rw [found]
          rfl
        have fresh : world.held "join" (correlation ++ "'") = [] := by
          unfold World.held
          have missing : (world.joins "join").get? (correlation ++ "'") = none := if_neg different
          rw [missing]
          rfl
        have releases := alike world "join" (correlation ++ "'") .all 2 1
        rw [isSome_releasedIn, isSome_releasedIn, absent, present, Option.getD_none,
          Option.getD_some, group, fresh] at releases
        cases releases
  · exact fun none_ => joinsLike_of_eq (absent.trans none_.symm)

end Joining

namespace Executor

section Forwarding

variable {executor : Executor} {node : Node} {record made : Record}
  {admits : (op : Op) → op.Response → Prop}

/-- The program only awaits walks of records that keep the metadata of the given one. -/
abbrev Hands (record : Record) (admits : (op : Op) → op.Response → Prop)
    (program : Prog Outcome) : Prop :=
  Safe (S := Engine) admits (fun _ => True) (fun call => record.Keeps call.record) program

/-- A fresh correlation is given to a record that has none. -/
theorem keeps_correlated (record : Record) :
    Program.Obeys (S := Engine) admits (fun _ => True) (fun call => record.Keeps call.record)
      record.Keeps (correlated record) := by
  unfold correlated
  cases present : record.metadata.get? "correlation" with
  | some correlation => exact Record.keeps_of_eq rfl
  | none =>
      refine ⟨trivial, fun fresh _ key value kept => ?_⟩
      have different : "correlation" ≠ key := by
        rintro rfl
        rw [present] at kept
        cases kept
      exact (Assoc.get?_insert_of_ne different ..).trans kept

/-- **Control steps keep metadata.** Whatever is answered, a control step that forwards
single records hands on records with all metadata of its input. -/
theorem hands_applyControl {control : ControlNode} (isControl : node.step = .control control)
    (forwards : control.forwards = true) :
    Hands record admits (executor.applyControl node control record) := by
  by_cases isParallel : ∃ branches, control = .parallel branches
  · obtain ⟨branches, rfl⟩ := isParallel
    refine Obeys.bind (keeps_correlated record) fun made keeps => ?_
    refine safe_joinAll fun call member => ?_
    obtain ⟨branch, -, rfl⟩ := List.mem_map.mp member
    exact keeps
  · refine carries_applyControl (allows_all node).performs (fun _ _ keeps => keeps) isControl
      (fun branches same => isParallel ⟨branches, same⟩) ?_ (Record.keeps_of_eq rfl)
      (fun field item => Record.keeps_of_eq (Record.metadata_set ..)) ?_
    · rintro mode n rfl
      cases forwards
    · rintro size within rfl
      cases forwards

end Forwarding

end Executor

/-- **When steps keep metadata.** A transform hands on all metadata of its input just in case
it is not a script that yields a record, or there is no metadata; its records join as the
input would just in case it is not a script that yields a record, or the input has no
correlation; and control steps that forward single records always hand on all metadata. -/
theorem metadata_kept_iff (platform : Platform) (debug : Check → String)
    (application : Application) (step : TransformStep) (record : Record) :
    ((∀ made ∈ yielded (step.transform platform debug application record), record.Keeps made) ↔
        ¬ step.Speaks platform application record ∨ record.metadata = []) ∧
      ((∀ made ∈ yielded (step.transform platform debug application record),
          record.JoinsLike made) ↔
        ¬ step.Speaks platform application record ∨ record.metadata.get? "correlation" = none) ∧
      ∀ (executor : Executor) (node : Node) (control : ControlNode)
        (admits : (op : Op) → op.Response → Prop), node.step = .control control →
          control.forwards = true →
            Executor.Hands record admits (executor.applyControl node control record) := by
  refine ⟨keeps_yielded_iff, ?_, fun executor node control admits isControl forwards =>
    Executor.hands_applyControl isControl forwards⟩
  rcases speaks_cases platform debug application step record with
    ⟨quiet, same⟩ | ⟨speaks, empty, some_⟩
  · refine iff_of_true (fun made member => Record.joinsLike_of_eq ?_) (.inl quiet)
    rw [same made member]
  · have absent : ∀ made ∈ yielded (step.transform platform debug application record),
        made.metadata.get? "correlation" = none := by
      intro made member
      rw [empty made member]
      rfl
    obtain ⟨made, member⟩ := List.exists_mem_of_ne_nil _ some_
    rw [or_iff_right (not_not_intro speaks), ← Record.joinsLike_iff (absent made member)]
    constructor
    · exact fun alike => alike made member
    · intro alike other inside
      rw [Record.joinsLike_iff (absent made member)] at alike
      exact (Record.joinsLike_iff (absent other inside)).mpr alike

namespace Sample

/-- A script that returns the record it is given. -/
def identityScript : TransformStep := .script ⟨"function transform(r) { return r; }", "transform"⟩

/-- The entries of the script engine return their record, and nothing is emitted. -/
def scripted : Application where
  draws _ := ⟨fun _ => "12:00:00", fun _ => "drawn"⟩
  id _ := "new"
  timestamp _ := 1
  quickJs :=
    { hash := ⟨fun elements => elements, fun _ => .refl _⟩
      setupContext := .ok ()
      runScript := fun _ => .ok ()
      entry := fun _ record => .ok (.object record.fields)
      noSetter := fun _ => "no setter for property"
      unit := fun _ => .undefined
      emitted := fun _ _ _ => some [] }

/-- A record in a parallel branch, with an idempotency key of its own. -/
def branchRecord : Record :=
  ⟨"r1", 0, .object [("n", .number (Number.ofInt 1))],
    [("correlation", "c1"), ("idempotency_key", "k1")]⟩

/-- **A script drops the metadata**, and a join no longer counts its record in the group. -/
theorem identityScript_loses :
    (¬ ∀ made ∈ yielded (identityScript.transform platform (fun _ => "") scripted branchRecord),
        branchRecord.Keeps made) ∧
      ¬ ∀ made ∈ yielded (identityScript.transform platform (fun _ => "") scripted branchRecord),
        branchRecord.JoinsLike made := by
  have member : Record.new scripted 0 (jsToValue platform (.object [("n", .int 1)])) ∈
      yielded (identityScript.transform platform (fun _ => "") scripted branchRecord) :=
    List.mem_singleton_self _
  constructor
  · intro keeps
    have kept := keeps _ member "idempotency_key" "k1" rfl
    cases kept
  · intro alike
    have joins := alike _ member
    rw [Record.joinsLike_iff rfl] at joins
    cases joins

end Sample

end Sohara
