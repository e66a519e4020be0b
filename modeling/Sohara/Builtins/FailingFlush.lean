import Sohara.Buffer.Flushing
import Sohara.Builtins.FileSink

/-! # File sinks on a failing disk

A flush of a file sink takes the buffer, renders the records, creates the directory, opens
the file and writes. Each of these may fail but the first.
-/

namespace Sohara

namespace FileSink

section Definitions

variable (sink : FileSink) (disk : FileDisk)

/-- Records that make a table: objects with as many fields as the first. -/
def Tabular (records : List Record) : Prop :=
  ∀ record ∈ records, ∃ object, record.payload = .object object ∧
    object.length = (headerOf records).length

/-- **When a flush does not fail**: there is nothing to write, or the records can be rendered
and the disk serves. -/
def Flushable (state : State) : Prop :=
  state.buffer = [] ∨ (sink.format = .csv → Tabular state.buffer) ∧ disk.Serves

end Definitions

variable {json : JsonCodec} {csv : CsvCodec} {sink : FileSink} {disk : FileDisk} {state : State}
  {content : String} {file : Option String} {records : List Record}

theorem takesFirst_flushTo : Flushing.TakesFirst (sink.flushTo json csv disk) State.buffer where
  taken state := by
    unfold flushTo
    split
    · rfl
    · split <;> rfl
  idle state empty := by
    unfold flushTo
    rw [empty]
    rfl

theorem writeTo_ok_iff : (sink.writeTo disk content file).1 = .ok () ↔ disk.Serves := by
  obtain ⟨dirs, opened, written⟩ := disk
  constructor
  · intro done
    unfold writeTo at done
    cases dirs with
    | error message => cases done
    | ok => cases opened with
      | error message => cases done
      | ok => cases written with
        | error message => cases done
        | ok => exact ⟨rfl, rfl, rfl⟩
  · rintro ⟨rfl, rfl, rfl⟩
    rfl

/-- Rows below others are written when they are as wide as the first. -/
theorem csvRowsFrom_ok_iff {rows : List (List String)} {first : List String}
    (head : rows.head? = some first) : (∃ all, csvRowsFrom json csv rows records = .ok all) ↔
      ∀ record ∈ records, ∃ object, record.payload = .object object ∧
        object.length = first.length := by
  induction records generalizing rows with
  | nil => exact iff_of_true ⟨rows, rfl⟩ (List.forall_mem_nil _)
  | cons record rest ih =>
      have begun : rows ≠ [] := by
        rintro rfl
        cases head
      rw [List.forall_mem_cons]
      cases payload : record.payload with
      | object object =>
          have below : ∀ row, (rows ++ [row]).head? = some first := by
            intro row
            rw [List.head?_append, head]
            rfl
          have step : csvRowsFrom json csv rows (record :: rest) =
              if object.length = first.length then
                csvRowsFrom json csv (rows ++ [object.map fun entry => csvText json entry.2]) rest
              else .error (.config ("csv row error: " ++
                csv.unequalLengths first.length object.length)) := by
            rw [csvRowsFrom, payload]
            simp only [begun, if_false, head, Option.getD_some, List.length_map]
          rw [step]
          by_cases wide : object.length = first.length
          · rw [if_pos wide, ih (below _)]
            exact ⟨fun others => ⟨⟨object, rfl, wide⟩, others⟩, And.right⟩
          · rw [if_neg wide]
            refine iff_of_false ?_ fun all => ?_
            · rintro ⟨_, failed⟩
              cases failed
            · obtain ⟨other, same, width⟩ := all.1
              cases same
              exact wide width
      | _ =>
          refine iff_of_false ?_ fun all => ?_
          · rintro ⟨all, done⟩
            unfold csvRowsFrom at done
            rw [payload] at done
            cases done
          · obtain ⟨other, same, -⟩ := all.1
            cases same

/-- What a CSV sink can render. -/
theorem renderCsv_ok_iff (some_ : records ≠ []) :
    (∃ content, renderCsv json csv records = .ok content) ↔ Tabular records := by
  have rendered : (∃ content, renderCsv json csv records = .ok content) ↔
      ∃ all, csvRowsFrom json csv [] records = .ok all := by
    unfold renderCsv
    cases csvRowsFrom json csv [] records with
    | error error =>
        refine iff_of_false ?_ ?_
        · rintro ⟨_, failed⟩
          cases failed
        · rintro ⟨_, failed⟩
          cases failed
    | ok all => exact iff_of_true ⟨_, rfl⟩ ⟨_, rfl⟩
  rw [rendered]
  obtain ⟨record, rest, rfl⟩ := List.exists_cons_of_ne_nil some_
  unfold Tabular
  cases payload : record.payload with
  | object object =>
      have head : [object.map Prod.fst, rowOf json record].head? = some (object.map Prod.fst) :=
        rfl
      rw [csvRowsFrom_first payload, csvRowsFrom_ok_iff head, headerOf_cons payload,
        List.forall_mem_cons]
      exact ⟨fun others => ⟨⟨object, payload, (List.length_map ..).symm⟩, others⟩, And.right⟩
  | _ =>
      refine iff_of_false ?_ fun all => ?_
      · rintro ⟨all, done⟩
        unfold csvRowsFrom at done
        rw [payload] at done
        cases done
      · obtain ⟨other, same, -⟩ := all record List.mem_cons_self
        cases payload.symm.trans same

theorem render_ok_iff (json : JsonCodec) (csv : CsvCodec) (some_ : records ≠ []) :
    (∃ content, sink.render json csv records = .ok content) ↔
      (sink.format = .csv → Tabular records) := by
  unfold render
  cases sink.format with
  | csv =>
      refine (renderCsv_ok_iff some_).trans ⟨fun tabular _ => tabular, fun tabular => ?_⟩
      exact tabular rfl
  | json => exact iff_of_true ⟨_, rfl⟩ fun other => nomatch other
  | jsonl => exact iff_of_true ⟨_, rfl⟩ fun other => nomatch other

/-- When a flush succeeds. -/
theorem flushTo_ok_iff : (sink.flushTo json csv disk state).1 = .ok () ↔
    sink.Flushable disk state := by
  unfold Flushable flushTo
  by_cases empty : state.buffer = []
  · rw [if_pos (List.isEmpty_iff.mpr empty)]
    exact iff_of_true rfl (.inl empty)
  · rw [if_neg fun none_ => empty (List.isEmpty_iff.mp none_), or_iff_right empty,
      ← render_ok_iff json csv empty]
    cases sink.render json csv state.buffer with
    | error error =>
        refine iff_of_false (fun failed => nomatch failed) ?_
        rintro ⟨⟨content, rendered⟩, -⟩
        cases rendered
    | ok content =>
        exact writeTo_ok_iff.trans ⟨fun serves => ⟨⟨content, rfl⟩, serves⟩, And.right⟩

end FileSink

end Sohara
