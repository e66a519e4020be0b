import Sohara.Builtins.FailingFlush

/-! # Database sinks

A database sink buffers records and inserts them into a table on a flush: it opens the
database, takes the columns from the first record, creates the table and inserts row by
row. As the buffer is taken before, a flush that fails has lost it.
-/

namespace Sohara

/-- What a database makes of opening its file and of a statement with parameters. What fails
has changed nothing. -/
structure Sqlite (D : Type) where
  connect : String → D → Except String D
  execute : String → List String → D → Except String D

/-- A database sink. -/
structure DbSink where
  path : String
  table : String

namespace DbSink

/-- The buffer of a sink, and its database. -/
structure State (D : Type) where
  database : D
  buffer : List Record := []

section Definitions

variable {D : Type} (json : JsonCodec) (sqlite : Sqlite D)

/-- The columns: the keys of the first payload. -/
def firstObjectKeys : Value → Except Error (List String)
  | .object object => .ok (object.map Prod.fst)
  | _ => .error (.config "db sink requires object records")

/-- The statement that creates the table. -/
def createSql (table : String) (columns : List String) : String :=
  "CREATE TABLE IF NOT EXISTS " ++ table ++ " (" ++
    ", ".intercalate (columns.map fun column => column ++ " TEXT") ++ ")"

/-- The statement that inserts a row. -/
def insertSql (table : String) (columns : List String) : String :=
  "INSERT INTO " ++ table ++ " (" ++ ", ".intercalate columns ++ ") VALUES (" ++
    ", ".intercalate (columns.map fun _ => "?") ++ ")"

/-- The text of a value in a column. -/
def jsonText (value : Value) : String := FileSink.csvText json value

/-- The parameters of a row; missing fields are empty. -/
def params (columns : List String) (object : Fields) : List String :=
  columns.map fun column => ((Assoc.get? column object).map (jsonText json)).getD ""

/-- Creates the table. -/
def createTable (table : String) (columns : List String) (database : D) :
    Except Error Unit × D :=
  match sqlite.execute (createSql table columns) [] database with
  | .error message => (.error (.config ("db create table failed: " ++ message)), database)
  | .ok created => (.ok (), created)

/-- Inserts a row; payloads that are no objects are passed over. -/
def insertRow (insert : String) (columns : List String) (payload : Value) (database : D) :
    Except Error Unit × D :=
  match payload with
  | .object object =>
      match sqlite.execute insert (params json columns object) database with
      | .error message => (.error (.config ("db insert failed: " ++ message)), database)
      | .ok inserted => (.ok (), inserted)
  | _ => (.ok (), database)

/-- Inserts rows up to the first failure. -/
def insertRows (insert : String) (columns : List String) : List Record → D → Except Error Unit × D
  | [], database => (.ok (), database)
  | record :: rest, database =>
      match insertRow json sqlite insert columns record.payload database with
      | (.error error, failed) => (.error error, failed)
      | (.ok (), inserted) => insertRows insert columns rest inserted

/-- Inserts records of which there is a first. -/
def insertRecords (sink : DbSink) (first : Record) (rest : List Record) (database : D) :
    Except Error Unit × D :=
  match sqlite.connect sink.path database with
  | .error message => (.error (.config ("db open failed: " ++ message)), database)
  | .ok opened =>
      match firstObjectKeys first.payload with
      | .error error => (.error error, opened)
      | .ok columns =>
          match createTable sqlite sink.table columns opened with
          | (.error error, failed) => (.error error, failed)
          | (.ok (), created) =>
              insertRows json sqlite (insertSql sink.table columns) columns (first :: rest) created

/-- Buffers a record. -/
def send (record : Record) (state : State D) : State D :=
  { state with buffer := state.buffer ++ [record] }

/-- Inserts what is in the buffer. -/
def flush (sink : DbSink) (state : State D) : Except Error Unit × State D :=
  match state.buffer with
  | [] => (.ok (), { state with buffer := [] })
  | first :: rest =>
      ((insertRecords json sqlite sink first rest state.database).1,
        { database := (insertRecords json sqlite sink first rest state.database).2, buffer := [] })

/-- The database takes the rows of all objects, one after the other. -/
inductive TakesRows (insert : String) (columns : List String) : List Record → D → Prop where
  | done (database : D) : TakesRows insert columns [] database
  | pass {record : Record} {rest : List Record} {database : D}
      (other : ∀ object, record.payload ≠ .object object)
      (others : TakesRows insert columns rest database) :
      TakesRows insert columns (record :: rest) database
  | row {record : Record} {rest : List Record} {database next : D} {object : Fields}
      (isObject : record.payload = .object object)
      (inserted : sqlite.execute insert (params json columns object) database = .ok next)
      (others : TakesRows insert columns rest next) :
      TakesRows insert columns (record :: rest) database

/-- **When a flush does not fail**: there is nothing to insert, or the database opens, the first
record is an object, the table is there or can be created, and every row is taken. -/
def Flushable (sink : DbSink) (state : State D) : Prop :=
  state.buffer = [] ∨ ∃ first rest opened object created, state.buffer = first :: rest ∧
    sqlite.connect sink.path state.database = .ok opened ∧ first.payload = .object object ∧
    sqlite.execute (createSql sink.table (object.map Prod.fst)) [] opened = .ok created ∧
    TakesRows json sqlite (insertSql sink.table (object.map Prod.fst)) (object.map Prod.fst)
      (first :: rest) created

end Definitions

section Law

variable {D : Type} {json : JsonCodec} {sqlite : Sqlite D} {sink : DbSink} {state : State D}
  {insert : String} {columns : List String} {records : List Record} {database : D}

theorem takesFirst_flush : Flushing.TakesFirst (sink.flush json sqlite) State.buffer where
  taken state := by
    unfold flush
    split <;> rfl
  idle state empty := by
    unfold flush
    rw [empty]

theorem insertRows_ok_iff : (insertRows json sqlite insert columns records database).1 = .ok () ↔
    TakesRows json sqlite insert columns records database := by
  induction records generalizing database with
  | nil => exact iff_of_true rfl (.done database)
  | cons record rest ih =>
      unfold insertRows insertRow
      cases payload : record.payload with
      | object object =>
          cases executed : sqlite.execute insert (params json columns object) database with
          | error message =>
              simp only [executed]
              refine iff_of_false (fun failed => by cases failed) fun takes => ?_
              cases takes with
              | pass other => exact other object payload
              | row isObject inserted =>
                  cases payload.symm.trans isObject
                  cases executed.symm.trans inserted
          | ok next =>
              simp only [executed]
              refine ih.trans ⟨fun others => .row payload executed others, fun takes => ?_⟩
              cases takes with
              | pass other => exact absurd payload (other object)
              | row isObject inserted others =>
                  cases payload.symm.trans isObject
                  cases executed.symm.trans inserted
                  exact others
      | _ =>
          refine ih.trans ⟨fun others => .pass (fun _ same => ?_) others, fun takes => ?_⟩
          · cases payload.symm.trans same
          · cases takes with
            | pass _ others => exact others
            | row isObject => cases payload.symm.trans isObject

/-- When a flush succeeds. -/
theorem flush_ok_iff :
    (sink.flush json sqlite state).1 = .ok () ↔ sink.Flushable json sqlite state := by
  unfold Flushable flush
  cases buffer : state.buffer with
  | nil => exact iff_of_true rfl (.inl rfl)
  | cons first rest =>
      rw [or_iff_right (List.cons_ne_nil _ _)]
      show (insertRecords json sqlite sink first rest state.database).1 = .ok () ↔ _
      unfold insertRecords
      constructor
      · intro done
        cases connected : sqlite.connect sink.path state.database with
        | error message =>
            rw [connected] at done
            cases done
        | ok opened =>
            rw [connected] at done
            cases payload : first.payload with
            | object object =>
                rw [payload] at done
                unfold firstObjectKeys createTable at done
                cases executed : sqlite.execute (createSql sink.table (object.map Prod.fst)) []
                    opened with
                | error message =>
                    simp only [executed] at done
                    cases done
                | ok created =>
                    simp only [executed] at done
                    exact ⟨first, rest, opened, object, created, rfl, rfl, payload, executed,
                      insertRows_ok_iff.mp done⟩
            | _ =>
                rw [payload] at done
                cases done
      · rintro ⟨_, _, opened, object, created, same, connected, payload, executed, takes⟩
        cases same
        unfold firstObjectKeys createTable
        simp only [connected, payload, executed]
        exact insertRows_ok_iff.mpr takes

end Law

end DbSink

/-- **When buffered sinks fail atomically**: never, but where nothing fails. -/
theorem sinks_fail_atomically_iff {D : Type} (json : JsonCodec) (csv : CsvCodec)
    (fileSink : FileSink) (disk : FileDisk) (file : FileSink.State) (sqlite : Sqlite D)
    (dbSink : DbSink) (table : DbSink.State D) :
    (Flushing.FailsAtomically (fileSink.flushTo json csv disk) file ↔
      fileSink.Flushable disk file) ∧
    (Flushing.FailsAtomically (dbSink.flush json sqlite) table ↔
      dbSink.Flushable json sqlite table) :=
  ⟨FileSink.takesFirst_flushTo.failsAtomically_iff.trans FileSink.flushTo_ok_iff,
    DbSink.takesFirst_flush.failsAtomically_iff.trans DbSink.flush_ok_iff⟩

namespace DbSink.Sample

/-- A disk whose file cannot be opened. -/
def readOnly : FileDisk :=
  { FileDisk.sound with openFile := .error "Permission denied (os error 13)" }

/-- A table with a constraint: it does not take the same row twice. -/
def unique : Sqlite (List (List String)) where
  connect _ rows := .ok rows
  execute _ params rows :=
    if params = [] then .ok rows
    else if params ∈ rows then .error "UNIQUE constraint failed"
    else .ok (rows ++ [params])

/-- A record of one field. -/
def flagged (id : String) : Record :=
  { id, timestamp := 0, payload := .object [("flag", .bool true)], metadata := [] }

/-- The file is left alone and the row of the first record is left in the table, but neither sink
has a record in its buffer. -/
theorem flush_loses :
    (FileSink.Sample.replacing.flushTo FileSink.Sample.flags FileSink.Sample.rowless readOnly
        { file := some "true\n", buffer := [flagged "r0"] } =
      (.error (.io "Permission denied (os error 13)"), { file := some "true\n", buffer := [] })) ∧
    ((⟨"out.db", "flags"⟩ : DbSink).flush FileSink.Sample.flags unique
        { database := [], buffer := [flagged "r0", flagged "r1"] } =
      (.error (.config "db insert failed: UNIQUE constraint failed"),
        { database := [["true"]], buffer := [] })) ∧
    ¬ Flushing.FailsAtomically (FileSink.Sample.replacing.flushTo FileSink.Sample.flags
        FileSink.Sample.rowless readOnly) { file := some "true\n", buffer := [flagged "r0"] } ∧
    ¬ Flushing.FailsAtomically ((⟨"out.db", "flags"⟩ : DbSink).flush FileSink.Sample.flags unique)
        { database := [], buffer := [flagged "r0", flagged "r1"] } := by
  refine ⟨rfl, rfl, fun atomic => ?_, fun atomic => ?_⟩
  · cases atomic _ _ rfl
  · cases atomic _ _ rfl

end DbSink.Sample

end Sohara
