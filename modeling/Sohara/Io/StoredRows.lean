import Sohara.Builtins.CsvColumns
import Sohara.Io.DbSink

/-! # What a database sink stores

A database sink inserts a row for each object it has buffered, with the columns of the first
record. A payload that is no object is passed over, and a field whose key the first record does
not have is left out, and the flush succeeds all the same.
-/

namespace Sohara

open FileSink (textAt headerOf)

namespace DbSink

/-- A row of a table: the text in each column, where there is any. -/
abbrev Row : Type := String → Option String

/-- The row that an insertion makes. A column that is named has the text at the first place of
its name, every other column what the table has there by default. -/
def insertedRow (named : String → String) (columns texts : List String) (defaults : Row) : Row :=
  fun column => (Assoc.get? column ((columns.map named).zip texts)).or (defaults column)

end DbSink

/-- **SQLite executes the statements of a sink as they are written.** The table has rows, in the
order in which they were inserted, and defaults; before there is a table, there are none of
either. Several names may stand for one column, as they do when they differ in case only. -/
structure Sqlite.Executes {D : Type} (sqlite : Sqlite D) (sink : DbSink) (columns : List String)
    (named : String → String) (rows : D → List DbSink.Row) (defaults : D → DbSink.Row) :
    Prop where
  connected {before after : D} : sqlite.connect sink.path before = .ok after →
    rows after = rows before ∧ defaults after = defaults before
  created {before after : D} :
    sqlite.execute (DbSink.createSql sink.table columns) [] before = .ok after →
      rows after = rows before ∧ defaults after = defaults before
  inserted {before after : D} {texts : List String} :
    sqlite.execute (DbSink.insertSql sink.table columns) texts before = .ok after →
      rows after = rows before ++ [DbSink.insertedRow named columns texts (defaults before)] ∧
        defaults after = defaults before

namespace DbSink

section Definitions

variable (json : JsonCodec) (named : String → String)

/-- A row with the text of every field in the column of its name. -/
def HoldsFields (row : Row) (record : Record) : Prop :=
  ∀ field ∈ record.payload.asObject?.getD [], row (named field.1) = some (jsonText json field.2)

/-- A table that has gained a row for each record, with the texts of its fields. -/
def Stored (before after : List Row) (records : List Record) : Prop :=
  ∃ gained, after = before ++ gained ∧ List.Forall₂ (HoldsFields json named) gained records

/-- The text of a field reaches the table: the first column of its name gets the text, or the
table has it there by default. -/
def FieldKept (defaults : Row) (columns : List String) (record : Record)
    (field : String × Value) : Prop :=
  match columns.find? fun column => named column = named field.1 with
  | some column => textAt json record column = jsonText json field.2
  | none => defaults (named field.1) = some (jsonText json field.2)

/-- **What keeps a record**: it is an object, and the texts of its fields reach the table. -/
def Kept (defaults : Row) (columns : List String) (record : Record) : Prop :=
  ∃ object, record.payload = .object object ∧
    ∀ field ∈ object, FieldKept json named defaults columns record field

/-- The rows that are inserted for records. -/
def rowsFor (defaults : Row) (columns : List String) (records : List Record) : List Row :=
  (records.filter fun record => record.payload.asObject?.isSome).map fun record =>
    insertedRow named columns (columns.map (textAt json record)) defaults

end Definitions

section Law

variable {D : Type} {json : JsonCodec} {sqlite : Sqlite D} {sink : DbSink} {state : State D}
  {named : String → String} {rows : D → List Row} {defaults : D → Row} {columns : List String}
  {records : List Record} {record : Record} {fallback : Row}

theorem get?_zip_map (text : String → String) (key : String) :
    Assoc.get? (named key) ((columns.map named).zip (columns.map text)) =
      (columns.find? fun column => named column = named key).map text := by
  induction columns with
  | nil => rfl
  | cons column rest ih =>
      rw [List.map_cons, List.map_cons, List.zip_cons_cons, Assoc.get?_cons]
      by_cases same : named column = named key
      · rw [if_pos same, List.find?_cons_of_pos (by simpa using same)]
        rfl
      · rw [if_neg same, ih, List.find?_cons_of_neg (by simpa using same)]

/-- A field is kept when the row of its record has its text. -/
theorem fieldKept_iff {field : String × Value} :
    FieldKept json named fallback columns record field ↔
      insertedRow named columns (columns.map (textAt json record)) fallback (named field.1) =
        some (jsonText json field.2) := by
  unfold FieldKept insertedRow
  rw [get?_zip_map]
  cases columns.find? fun column => named column = named field.1 with
  | none => exact Iff.rfl
  | some column => exact Option.some_inj.symm

/-- A record is kept when it is an object whose row has the texts of its fields. -/
theorem kept_iff : Kept json named fallback columns record ↔
    record.payload.asObject?.isSome ∧
      HoldsFields json named
        (insertedRow named columns (columns.map (textAt json record)) fallback) record := by
  unfold Kept HoldsFields
  cases record.payload with
  | object object =>
      constructor
      · rintro ⟨_, same, kept⟩
        cases same
        exact ⟨rfl, fun field inside => fieldKept_iff.mp (kept field inside)⟩
      · exact fun held => ⟨object, rfl, fun field inside =>
          fieldKept_iff.mpr (held.2 field inside)⟩
  | _ =>
      refine iff_of_false ?_ fun held => nomatch held.1
      rintro ⟨_, same, -⟩
      cases same

/-- The rows for records store them when each one is kept. -/
theorem stored_rowsFor_iff {before : List Row} :
    Stored json named before (before ++ rowsFor json named fallback columns records) records ↔
      ∀ record ∈ records, Kept json named fallback columns record := by
  have paired : Stored json named before
      (before ++ rowsFor json named fallback columns records) records ↔
        List.Forall₂ (HoldsFields json named) (rowsFor json named fallback columns records)
          records := by
    constructor
    · rintro ⟨gained, same, held⟩
      rwa [List.append_cancel_left same]
    · exact fun held => ⟨_, rfl, held⟩
  rw [paired]
  unfold rowsFor
  by_cases objects : ∀ record ∈ records, record.payload.asObject?.isSome = true
  · rw [List.filter_eq_self.mpr objects, List.forall₂_map_left_iff, List.forall₂_same]
    refine forall₂_congr fun record member => ?_
    rw [kept_iff, and_iff_right (objects record member)]
  · refine iff_of_false (fun held => objects ?_) fun kept => objects fun record member =>
      (kept_iff.mp (kept record member)).1
    have lengths := held.length_eq
    rw [List.length_map] at lengths
    exact List.length_filter_eq_length_iff.mp lengths

/-- What insertions that succeed leave in the table. -/
theorem rows_insertRows (executes : sqlite.Executes sink columns named rows defaults)
    {database : D} (done : (insertRows json sqlite (insertSql sink.table columns) columns records
      database).1 = .ok ()) :
    rows (insertRows json sqlite (insertSql sink.table columns) columns records database).2 =
      rows database ++ rowsFor json named (defaults database) columns records := by
  induction records generalizing database with
  | nil => exact (List.append_nil _).symm
  | cons record rest ih =>
      unfold insertRows insertRow at done ⊢
      cases payload : record.payload with
      | object object =>
          have params : params json columns object = columns.map (textAt json record) := by
            unfold params textAt
            rw [payload]
            rfl
          simp only [payload] at done ⊢
          cases executed : sqlite.execute (insertSql sink.table columns)
              (DbSink.params json columns object) database with
          | error message =>
              rw [executed] at done
              cases done
          | ok next =>
              simp only [executed] at done ⊢
              obtain ⟨gained, same⟩ := executes.inserted executed
              rw [ih done, gained, same, params, List.append_assoc]
              unfold rowsFor
              rw [List.filter_cons_of_pos (by rw [payload]; rfl)]
              rfl
      | _ =>
          simp only [payload] at done ⊢
          rw [ih done]
          unfold rowsFor
          rw [List.filter_cons_of_neg (by rw [payload]; exact Bool.false_ne_true)]

/-- What a flush that succeeds leaves in the table. -/
theorem rows_flush (executes : sqlite.Executes sink (headerOf state.buffer) named rows defaults)
    (done : (sink.flush json sqlite state).1 = .ok ()) :
    rows (sink.flush json sqlite state).2.database = rows state.database ++
      rowsFor json named (defaults state.database) (headerOf state.buffer) state.buffer := by
  unfold flush at done ⊢
  cases buffer : state.buffer with
  | nil => exact (List.append_nil _).symm
  | cons first rest =>
      rw [buffer] at executes
      simp only [buffer] at done ⊢
      unfold insertRecords at done ⊢
      cases connected : sqlite.connect sink.path state.database with
      | error message =>
          rw [connected] at done
          cases done
      | ok opened =>
          cases payload : first.payload with
          | object object =>
              rw [FileSink.headerOf_cons payload] at executes ⊢
              simp only [connected, payload, firstObjectKeys, createTable] at done ⊢
              cases executed : sqlite.execute (createSql sink.table (object.map Prod.fst)) []
                  opened with
              | error message =>
                  rw [executed] at done
                  cases done
              | ok created =>
                  simp only [executed] at done ⊢
                  rw [rows_insertRows executes done, (executes.created executed).1,
                    (executes.created executed).2, (executes.connected connected).1,
                    (executes.connected connected).2]
          | _ =>
              simp only [connected, payload] at done
              cases done

end Law

end DbSink

/-- **When a database sink drops nothing silently**: a flush that can succeed finds only objects
in the buffer, all of whose fields reach the columns of the first record. -/
theorem db_stores_all_iff {D : Type} (json : JsonCodec) (sqlite : Sqlite D) (sink : DbSink)
    (state : DbSink.State D) (named : String → String) (rows : D → List DbSink.Row)
    (defaults : D → DbSink.Row)
    (executes : sqlite.Executes sink (headerOf state.buffer) named rows defaults) :
    ((sink.flush json sqlite state).1 = .ok () → DbSink.Stored json named (rows state.database)
        (rows (sink.flush json sqlite state).2.database) state.buffer) ↔
      (sink.Flushable json sqlite state → ∀ record ∈ state.buffer,
        DbSink.Kept json named (defaults state.database) (headerOf state.buffer) record) := by
  rw [← DbSink.flush_ok_iff]
  refine forall_congr' fun done => ?_
  rw [DbSink.rows_flush executes done]
  exact DbSink.stored_rowsFor_iff

namespace DbSink.Sample

/-- A table of one column. -/
def flagTable : Sqlite (List (List String)) where
  connect _ table := .ok table
  execute statement texts table :=
    if statement = createSql "flags" ["flag"] then .ok table
    else if statement = insertSql "flags" ["flag"] then .ok (table ++ [texts])
    else .error "near \"(\": syntax error"

/-- The rows of the table. -/
def flagRows (table : List (List String)) : List Row :=
  table.map fun texts => insertedRow id ["flag"] texts fun _ => none

/-- A record with one more field than the first. -/
def marked : Record :=
  { id := "r1", timestamp := 0, payload := .object [("flag", .bool true), ("mark", .bool true)]
    metadata := [] }

/-- A record that is no object. -/
def note : Record := { id := "r2", timestamp := 0, payload := .string "note", metadata := [] }

/-- A sink of flags. -/
def flagSink : DbSink := ⟨"out.db", "flags"⟩

theorem flagTable_executes :
    flagTable.Executes flagSink ["flag"] id flagRows fun _ _ => none where
  connected := by
    rintro before after ⟨⟩
    exact ⟨rfl, rfl⟩
  created := by
    intro before after done
    unfold flagTable flagSink at done
    dsimp only at done
    rw [if_pos rfl] at done
    cases done
    exact ⟨rfl, rfl⟩
  inserted := by
    intro before after texts done
    unfold flagTable flagSink at done
    dsimp only at done
    rw [if_neg (by decide), if_pos rfl] at done
    cases done
    exact ⟨List.map_append, rfl⟩

/-- The field `mark` and the payload that is no object are dropped. -/
theorem flush_drops :
    flagSink.flush FileSink.Sample.flags flagTable
        { database := [], buffer := [flagged "r0", marked, note] } =
      (.ok (), { database := [["true"], ["true"]], buffer := [] }) ∧
    ¬ Stored FileSink.Sample.flags id (flagRows []) (flagRows [["true"], ["true"]])
        [flagged "r0", marked, note] ∧
    ¬ Stored FileSink.Sample.flags id (flagRows []) (flagRows [["true"], ["true"]])
        [flagged "r0", marked] := by
  refine ⟨rfl, ?_, ?_⟩
  · rintro ⟨gained, same, held⟩
    cases same
    exact absurd held.length_eq (by decide)
  · rintro ⟨gained, same, held⟩
    cases same
    cases (List.forall₂_cons.mp (List.forall₂_cons.mp held).2).1 ("mark", .bool true)
      (List.mem_cons_of_mem _ List.mem_cons_self)

/-- What the three records need to be stored. -/
theorem flagSink_stores_iff :
    ((flagSink.flush FileSink.Sample.flags flagTable
        { database := [], buffer := [flagged "r0", marked, note] }).1 = .ok () →
      Stored FileSink.Sample.flags id (flagRows []) (flagRows (flagSink.flush FileSink.Sample.flags
        flagTable { database := [], buffer := [flagged "r0", marked, note] }).2.database)
        [flagged "r0", marked, note]) ↔
    (flagSink.Flushable FileSink.Sample.flags flagTable
        { database := [], buffer := [flagged "r0", marked, note] } →
      ∀ record ∈ [flagged "r0", marked, note],
        Kept FileSink.Sample.flags id (fun _ => none) ["flag"] record) :=
  db_stores_all_iff FileSink.Sample.flags flagTable flagSink
    { database := [], buffer := [flagged "r0", marked, note] } id flagRows (fun _ _ => none)
    flagTable_executes

end DbSink.Sample

end Sohara
