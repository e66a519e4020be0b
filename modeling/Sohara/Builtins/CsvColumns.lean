import Sohara.Builtins.FailingFlush

/-! # Columns of a CSV file

A CSV sink takes the header from the first record, but each row lists the values of its own
record as they come. A source with a header puts the fields of each row under the header, so
that a value is found under its key when its record lists it where the first one lists the key.
-/

namespace Sohara

/-- A row as it is written; one without fields is one empty field. -/
def CsvCodec.shown (row : List String) : List String := if row = [] then [""] else row

/-- The text of a table with this header begins with a byte order mark. -/
def CsvCodec.Marked (csv : CsvCodec) (header : List String) : Prop :=
  (csv.writeRow header).toList.head? = some '\uFEFF'

/-- **What a reader finds of a table that is written**: its rows, unless the text begins with a
byte order mark. It is skipped, so that there is no column of the first name, or, where it is
all of the header, the first row is the header. -/
structure CsvCodec.ReadsBack (csv : CsvCodec) (header : List String)
    (rows : List (List String)) : Prop where
  unmarked : ¬ csv.Marked header → csv.rows 44 (csv.write (header :: rows)) =
    CsvCodec.shown header :: rows.map CsvCodec.shown
  marked : csv.Marked header → ∀ columns below,
    csv.rows 44 (csv.write (header :: rows)) = columns :: below → below.length = rows.length →
      ∃ key ∈ header, key ∉ columns

namespace FileSink

section Definitions

variable (json : JsonCodec) (csv : CsvCodec)

/-- The CSV text of a record's value for a key, empty where it has none. -/
def textAt (record : Record) (key : String) : String :=
  ((Assoc.get? key (record.payload.asObject?.getD [])).map (csvText json)).getD ""

/-- A payload that has under each key the text of the record's value for the key. -/
def Columned (header : List String) (payload : Value) (record : Record) : Prop :=
  ∀ key ∈ header, Assoc.get? key (payload.asObject?.getD []) =
    some (.string (textAt json record key))

/-- A text from which a source reads as many payloads as records, with their values in the
columns of their keys. -/
def HoldsColumns (source : FileSource) (text : String) (records : List Record) : Prop :=
  ∃ payloads, source.readRecords json csv (some text) = .ok payloads ∧
    List.Forall₂ (Columned json (headerOf records)) payloads records

end Definitions

section Law

variable {json : JsonCodec} {csv : CsvCodec} {sink : FileSink} {disk : FileDisk} {state : State}
  {text : String} {records : List Record} {record : Record} {header row : List String}
  {object : Fields} {key : String}

/-- Rows that are written are those of the records. -/
theorem csvRowsFrom_eq_of_ok {rows all : List (List String)} (begun : rows ≠ [])
    (written : csvRowsFrom json csv rows records = .ok all) :
    all = rows ++ records.map (rowOf json) := by
  induction records generalizing rows with
  | nil =>
      cases written
      exact (List.append_nil _).symm
  | cons record rest ih =>
      unfold csvRowsFrom at written
      cases payload : record.payload with
      | object object =>
          simp only [payload, if_neg begun] at written
          split at written
          case isTrue =>
            rw [ih (List.append_ne_nil_of_left_ne_nil begun _) written, List.map_cons,
              rowOf_eq payload, List.append_assoc, List.singleton_append]
          case isFalse => cases written
      | _ =>
          rw [payload] at written
          cases written

/-- What is rendered is a table. -/
theorem renderCsv_eq_of_ok (filled : records ≠ [])
    (rendered : renderCsv json csv records = .ok text) :
    text = csv.write (tableOf json records) := by
  obtain ⟨first, rest, rfl⟩ := List.exists_cons_of_ne_nil filled
  obtain ⟨object, payload, -⟩ :=
    (renderCsv_ok_iff filled).mp ⟨text, rendered⟩ first List.mem_cons_self
  unfold renderCsv at rendered
  rw [csvRowsFrom_first payload] at rendered
  cases written : csvRowsFrom json csv [object.map Prod.fst, rowOf json first] rest with
  | error error =>
      rw [written] at rendered
      cases rendered
  | ok all =>
      rw [written] at rendered
      cases rendered
      refine congrArg csv.write ?_
      rw [csvRowsFrom_eq_of_ok (List.cons_ne_nil _ _) written]
      unfold tableOf
      rw [headerOf_cons payload]
      rfl

/-- Headers leave other keys alone. -/
theorem get?_fillRow_of_not_mem (outside : key ∉ header) :
    Assoc.get? key (FileSource.fillRow object header row) = Assoc.get? key object := by
  induction header generalizing object row with
  | nil => rfl
  | cons name rest ih =>
      obtain ⟨other, outside⟩ := List.ne_and_not_mem_of_not_mem_cons outside
      rw [FileSource.fillRow, ih outside, Assoc.get?_insert_of_ne other.symm]

/-- Under a header is the field at its position. -/
theorem get?_fillRow (distinct : header.Nodup) {index : Nat} (at_ : header[index]? = some key) :
    Assoc.get? key (FileSource.fillRow object header row) =
      some (.string (row[index]?.getD "")) := by
  induction header generalizing object row index with
  | nil => cases at_
  | cons name rest ih =>
      obtain ⟨fresh, distinct⟩ := List.nodup_cons.mp distinct
      rw [FileSource.fillRow]
      cases index with
      | zero =>
          cases at_
          rw [get?_fillRow_of_not_mem fresh, Assoc.get?_insert_self, List.head?_eq_getElem?]
      | succ index => rw [ih distinct at_, List.getElem?_tail]

theorem getD_shown (row : List String) (index : Nat) :
    (CsvCodec.shown row)[index]?.getD "" = row[index]?.getD "" := by
  unfold CsvCodec.shown
  split
  case isTrue empty =>
    rw [empty]
    cases index <;> rfl
  case isFalse => rfl

variable (json) in
/-- What a source with a header reads. -/
theorem readRecords_csv (path : String) (columns : Option (List String))
    {rows : List (List String)} (read : csv.rows 44 text = header :: rows) :
    ({ path, format := .csv, columns } : FileSource).readRecords json csv (some text) =
      .ok (rows.map (FileSource.recordFromRow header)) := by
  unfold FileSource.readRecords FileSource.parseCsv
  simp only [read, if_true]
  rfl

theorem length_rowOf (tabular : Tabular records) (member : record ∈ records) :
    (rowOf json record).length = (headerOf records).length := by
  obtain ⟨object, payload, width⟩ := tabular record member
  rw [rowOf_eq payload, List.length_map, width]

/-- The row of a record, put under a header, has the values in the columns of their keys when
it is the row of its values under the header. -/
theorem columned_iff (distinct : header.Nodup)
    (width : (rowOf json record).length = header.length) :
    Columned json header (FileSource.recordFromRow (CsvCodec.shown header)
        (CsvCodec.shown (rowOf json record))) record ↔
      rowOf json record = header.map (textAt json record) := by
  by_cases some_ : header = []
  · rw [some_] at width ⊢
    exact iff_of_true (fun key inside => nomatch inside) (List.eq_nil_of_length_eq_zero width)
  have filled : ∀ {index : Nat} {key : String}, header[index]? = some key →
      Assoc.get? key (FileSource.fillRow [] (CsvCodec.shown header)
          (CsvCodec.shown (rowOf json record))) =
        some (.string ((rowOf json record)[index]?.getD "")) := by
    intro index key at_
    unfold CsvCodec.shown
    rw [if_neg some_, ← getD_shown]
    exact get?_fillRow distinct at_
  constructor
  · intro columned
    refine List.ext_getElem? fun index => ?_
    rw [List.getElem?_map]
    cases at_ : header[index]? with
    | none =>
        rw [List.getElem?_eq_none_iff] at at_
        exact List.getElem?_eq_none (Nat.le_trans (Nat.le_of_eq width) at_)
    | some key =>
        have same := (filled at_).symm.trans (columned key (List.mem_of_getElem? at_))
        have inside : index < (rowOf json record).length :=
          width.symm ▸ (List.getElem?_eq_some_iff.mp at_).1
        rw [List.getElem?_eq_getElem inside] at same ⊢
        exact congrArg some (Value.string.inj (Option.some.inj same))
  · intro aligned key inside
    obtain ⟨index, at_⟩ := List.mem_iff_getElem?.mp inside
    refine (filled at_).trans ?_
    rw [aligned, List.getElem?_map, at_]
    rfl

/-- When a table holds the columns of its records. -/
theorem holdsColumns_iff {path : String} {columns : Option (List String)} (filled : records ≠ [])
    (distinct : (headerOf records).Nodup) (tabular : Tabular records)
    (reads : csv.ReadsBack (headerOf records) (records.map (rowOf json))) :
    HoldsColumns json csv { path, format := .csv, columns } (csv.write (tableOf json records))
        records ↔
      ¬ csv.Marked (headerOf records) ∧
        ∀ record ∈ records, rowOf json record = (headerOf records).map (textAt json record) := by
  unfold HoldsColumns tableOf
  by_cases marked : csv.Marked (headerOf records)
  · refine iff_of_false ?_ fun both => both.1 marked
    rintro ⟨payloads, read, columned⟩
    have lengths := columned.length_eq
    cases found : csv.rows 44 (csv.write (headerOf records :: records.map (rowOf json))) with
    | nil =>
        unfold FileSource.readRecords FileSource.parseCsv at read
        simp only [found, if_true] at read
        cases read
        exact filled (List.eq_nil_of_length_eq_zero lengths.symm)
    | cons header below =>
        cases (readRecords_csv json path columns found).symm.trans read
        obtain ⟨first, rest, rfl⟩ := List.exists_cons_of_ne_nil filled
        rw [List.length_map] at lengths
        obtain ⟨key, inside, absent⟩ := reads.marked marked header below found
          (lengths.trans (List.length_map _).symm)
        cases below with
        | nil => cases lengths
        | cons row below =>
            have lost := (List.forall₂_cons.mp columned).1 key inside
            cases (get?_fillRow_of_not_mem absent).symm.trans lost
  · rw [and_iff_right marked]
    have read := readRecords_csv json path columns (reads.unmarked marked)
    have each : List.Forall₂ (Columned json (headerOf records))
        (((records.map (rowOf json)).map CsvCodec.shown).map
          (FileSource.recordFromRow (CsvCodec.shown (headerOf records)))) records ↔
        ∀ record ∈ records, rowOf json record = (headerOf records).map (textAt json record) := by
      rw [List.map_map, List.map_map, List.forall₂_map_left_iff, List.forall₂_same]
      exact forall₂_congr fun record member => columned_iff distinct (length_rowOf tabular member)
    rw [← each]
    constructor
    · rintro ⟨payloads, readToo, columned⟩
      cases read.symm.trans readToo
      exact columned
    · exact fun columned => ⟨_, read, columned⟩

end Law

end FileSink

open FileSink in
/-- **When no value is under another key's column**: the text that a successful flush writes is
read with each value in the column of its key exactly when it does not begin with a byte order
mark and each record lists the texts of its values under the keys of the first record. -/
theorem csv_columns_iff (json : JsonCodec) (csv : CsvCodec) (sink : FileSink) (disk : FileDisk)
    (state : FileSink.State) (formatted : sink.format = .csv) (filled : state.buffer ≠ [])
    (distinct : (headerOf state.buffer).Nodup)
    (reads : csv.ReadsBack (headerOf state.buffer) (state.buffer.map (rowOf json)))
    (flushed : (sink.flushTo json csv disk state).1 = .ok ()) (path : String)
    (columns : Option (List String)) :
    ∃ text, sink.render json csv state.buffer = .ok text ∧
      (sink.flushTo json csv disk state).2.file = sink.write text state.file ∧
      (HoldsColumns json csv { path, format := .csv, columns } text state.buffer ↔
        ¬ csv.Marked (headerOf state.buffer) ∧ ∀ record ∈ state.buffer,
          rowOf json record = (headerOf state.buffer).map (textAt json record)) := by
  obtain ⟨tabular, serves⟩ := (flushTo_ok_iff.mp flushed).resolve_left filled
  obtain ⟨text, rendered⟩ := (render_ok_iff json csv filled).mpr tabular
  refine ⟨text, rendered, ?_, ?_⟩
  · obtain ⟨createDirs, openFile, writeAll⟩ := disk
    cases serves with
    | mk dirs opened written =>
        cases dirs
        cases opened
        cases written
        unfold flushTo
        rw [if_neg fun none_ => filled (List.isEmpty_iff.mp none_), rendered]
        rfl
  · have table : text = csv.write (tableOf json state.buffer) := by
      refine renderCsv_eq_of_ok filled (Eq.trans ?_ rendered)
      unfold render
      rw [formatted]
    rw [table]
    exact holdsColumns_iff filled distinct (tabular formatted) reads

namespace FileSink.Sample

/-- The CSV text of fields that need no quotes. -/
def plain : CsvCodec where
  writeRow row := ",".intercalate row ++ "\n"
  rows _ text := (Parsing.lines text.toList).map fun line =>
    (line.splitOnP (· == ',')).map String.ofList
  unequalLengths _ _ := "CSV error: found record with a different length"

/-- A sink of tables. -/
def tabled : FileSink := { path := "pairs.csv", format := .csv }

/-- Two records with one field each, under different keys. -/
def apart : List Record :=
  [{ id := "r0", timestamp := 0, payload := .object [("a", .string "1")], metadata := [] },
    { id := "r1", timestamp := 0, payload := .object [("b", .string "2")], metadata := [] }]

theorem plain_readsBack : plain.ReadsBack (headerOf apart) (apart.map (rowOf flags)) where
  unmarked _ := rfl
  marked := by
    intro marked
    have first : (plain.writeRow (headerOf apart)).toList.head? = some 'a' := rfl
    cases first.symm.trans marked

/-- The value of `b` is under the column `a`. -/
theorem apart_misplaced :
    tabled.flushTo flags plain .sound { buffer := apart } =
      (.ok (), { file := some "a\n1\n2\n", buffer := [] }) ∧
    tabled.source.readRecords flags plain (some "a\n1\n2\n") =
      .ok [.object [("a", .string "1")], .object [("a", .string "2")]] ∧
    ¬ HoldsColumns flags plain tabled.source "a\n1\n2\n" apart := by
  refine ⟨rfl, rfl, ?_⟩
  rintro ⟨payloads, read, columned⟩
  have found : tabled.source.readRecords flags plain (some "a\n1\n2\n") =
    .ok [.object [("a", .string "1")], .object [("a", .string "2")]] := rfl
  cases found.symm.trans read
  have second := (List.forall₂_cons.mp (List.forall₂_cons.mp columned).2).1 "a"
    List.mem_cons_self
  have empty : textAt flags
    { id := "r1", timestamp := 0, payload := .object [("b", .string "2")], metadata := [] } "a" =
      "" := rfl
  rw [empty] at second
  exact absurd (Value.string.inj (Option.some.inj second)) (by decide)

/-- What the two records need to be found in their columns. -/
theorem apart_columns_iff : ∃ text, tabled.render flags plain apart = .ok text ∧
    (tabled.flushTo flags plain .sound { buffer := apart }).2.file = tabled.write text none ∧
    (HoldsColumns flags plain { path := "pairs.csv", format := .csv } text apart ↔
      ¬ plain.Marked (headerOf apart) ∧
        ∀ record ∈ apart, rowOf flags record = (headerOf apart).map (textAt flags record)) :=
  csv_columns_iff flags plain tabled .sound { buffer := apart } rfl (List.cons_ne_nil _ _)
    (by decide) plain_readsBack rfl "pairs.csv" none

end FileSink.Sample

end Sohara
