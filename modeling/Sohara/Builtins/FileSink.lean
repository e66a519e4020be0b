import Sohara.Core.Control
import Sohara.Core.Equality
import Sohara.Core.Except
import Sohara.Parsing.Lines

/-! # File sources and sinks

A file sink buffers records and writes them on a flush: it renders what is in its buffer and
puts the text into the file, in place of the content or, in append mode, behind it. A file
source of the same format reads the file.
-/

namespace Sohara

/-- The formats of a file. -/
inductive Format where
  | csv
  | json
  | jsonl
  deriving DecidableEq, Repr

/-- How values are written as compact JSON text and read. -/
structure JsonCodec where
  print : Value → String
  parse : String → Except String Value

/-- How rows are written as CSV text, one after the other, and read, at a delimiter. Rows of any
length are read from a text. -/
structure CsvCodec where
  writeRow : List String → String
  rows : UInt8 → String → List (List String)
  /-- The error of the writer on a row that is not as long as the rows before. -/
  unequalLengths : Nat → Nat → String

/-- The text of rows. -/
def CsvCodec.write (csv : CsvCodec) (rows : List (List String)) : String :=
  rows.foldl (fun text row => text ++ csv.writeRow row) ""

/-- A file source. -/
structure FileSource where
  path : String
  format : Format
  columns : Option (List String) := none
  delimiter : UInt8 := 44
  header : Bool := true

/-- A file sink. -/
structure FileSink where
  path : String
  format : Format
  append : Bool := false

/-- What the disk answers to a write: creating the directories, opening the file and putting
the first byte into it. -/
structure FileDisk where
  createDirs : Except String Unit
  openFile : Except String Unit
  writeAll : Except String Unit

/-- A disk without failures. -/
def FileDisk.sound : FileDisk := ⟨.ok (), .ok (), .ok ()⟩

/-- The disk does all that is asked of it. -/
structure FileDisk.Serves (disk : FileDisk) : Prop where
  dirs : disk.createDirs = .ok ()
  opened : disk.openFile = .ok ()
  written : disk.writeAll = .ok ()

section Definitions

variable (json : JsonCodec) (csv : CsvCodec)

namespace FileSource

/-- Enters the fields of a row under the headers; missing fields are empty. -/
def fillRow (object : Fields) : List String → List String → Fields
  | [], _ => object
  | header :: headers, row =>
      fillRow (object.insert header (.string (row.head?.getD ""))) headers row.tail

/-- The payload of a row. -/
def recordFromRow (headers row : List String) : Value := .object (fillRow [] headers row)

/-- The payloads of a CSV text. -/
def parseCsv (source : FileSource) (text : String) : Except Error (List Value) :=
  let rows := csv.rows source.delimiter text
  if source.header then .ok (rows.tail.map (recordFromRow (rows.head?.getD [])))
  else
    match source.columns with
    | some headers => .ok (rows.map (recordFromRow headers))
    | none => .error (.config "csv source without a header needs 'columns'")

/-- The payload of a line. -/
def parseLine (line : List Char) : Except Error Value :=
  match json.parse (String.ofList line) with
  | .ok value => .ok value
  | .error error => .error (.config ("invalid jsonl line: " ++ error))

/-- The payloads of a JSON lines text. -/
def parseJsonl (text : String) : Except Error (List Value) :=
  ((Parsing.lines text.toList).filter fun line => !line.all isWhitespace).mapM (parseLine json)

/-- The payloads of a JSON text. -/
def parseJson (text : String) : Except Error (List Value) :=
  match json.parse text with
  | .error error => .error (.config ("invalid json: " ++ error))
  | .ok (.array items) => .ok items
  | .ok other => .ok [other]

/-- The payloads of the records in a file; ids and times of the records are new. -/
def readRecords (source : FileSource) (file : Option String) : Except Error (List Value) :=
  match file with
  | none => .error (.io "No such file or directory (os error 2)")
  | some text =>
      match source.format with
      | .csv => parseCsv csv source text
      | .jsonl => parseJsonl json text
      | .json => parseJson json text

end FileSource

namespace FileSink

/-- Builds a sink. -/
def build (path : String) (format : Format) (append : Bool) : Except Error FileSink :=
  if append ∧ format = .json then .error (.config "append is not supported for json format")
  else .ok { path, format, append }

/-- The text of a value in a CSV field. -/
def csvText : Value → String
  | .string text => text
  | .null => ""
  | .bool flag => toString flag
  | other => json.print other

/-- The rows of records, behind those of the records before. -/
def csvRowsFrom (rows : List (List String)) : List Record → Except Error (List (List String))
  | [] => .ok rows
  | record :: rest =>
      match record.payload with
      | .object object =>
          let rows := if rows = [] then [object.map Prod.fst] else rows
          let row := object.map fun entry => csvText json entry.2
          let width := (rows.head?.getD []).length
          if row.length = width then csvRowsFrom (rows ++ [row]) rest
          else .error (.config ("csv row error: " ++ csv.unequalLengths width row.length))
      | _ => .error (.config "csv sink requires object records")

/-- The CSV text of records. -/
def renderCsv (records : List Record) : Except Error String := do
  let rows ← csvRowsFrom json csv [] records
  return csv.write rows

/-- The text of records. -/
def render (sink : FileSink) (records : List Record) : Except Error String :=
  match sink.format with
  | .jsonl =>
      .ok ("\n".intercalate (records.map fun record => json.print record.toJson) ++ "\n")
  | .json => .ok (json.print (.array (records.map Record.toJson)))
  | .csv => renderCsv json csv records

/-- The content of the file after a write. -/
def write (sink : FileSink) (content : String) (file : Option String) : Option String :=
  some (if sink.append then file.getD "" ++ content else content)

/-- The buffer of a sink, and its file. -/
structure State where
  file : Option String := none
  buffer : List Record := []

/-- Buffers a record. -/
def send (record : Record) (state : State) : State :=
  { state with buffer := state.buffer ++ [record] }

/-- Writes a text. An open file is there and, unless one appends, empty. -/
def writeTo (sink : FileSink) (disk : FileDisk) (content : String) (file : Option String) :
    Except Error Unit × Option String :=
  match disk.createDirs with
  | .error message => (.error (.io message), file)
  | .ok () =>
      match disk.openFile with
      | .error message => (.error (.io message), file)
      | .ok () =>
          match disk.writeAll with
          | .error message => (.error (.io message), sink.write "" file)
          | .ok () => (.ok (), sink.write content file)

/-- Writes what is in the buffer to the disk. -/
def flushTo (sink : FileSink) (disk : FileDisk) (state : State) : Except Error Unit × State :=
  if state.buffer.isEmpty then (.ok (), { state with buffer := [] })
  else
    match sink.render json csv state.buffer with
    | .error error => (.error error, { state with buffer := [] })
    | .ok content =>
        ((sink.writeTo disk content state.file).1,
          { file := (sink.writeTo disk content state.file).2, buffer := [] })

/-- The source of the sink's file and format. -/
def source (sink : FileSink) : FileSource := { path := sink.path, format := sink.format }

end FileSink

end Definitions

/-- Compact JSON text stands on one line. -/
structure JsonCodec.Lawful (json : JsonCodec) : Prop where
  line : ∀ value, Parsing.OneLine (json.print value).toList
  visible : ∀ value, (json.print value).toList.all isWhitespace = false

namespace FileSink

section Law

/-- The keys of an object. -/
def keysOf (payload : Value) : List String := (payload.asObject?.getD []).map Prod.fst

/-- The values of an object. -/
def valuesOf (payload : Value) : List Value := (payload.asObject?.getD []).map Prod.snd

/-- The keys of the first record. -/
def headerOf (records : List Record) : List String :=
  (records.head?.map fun first => keysOf first.payload).getD []

/-- The values of a record, in their order, are those under the header. -/
def Aligned (header : List String) (record : Record) : Prop :=
  ∀ key, Assoc.get? key (header.zip (valuesOf record.payload)) =
    Assoc.get? key (record.payload.asObject?.getD [])

/-- An object with the given keys, in some order, and texts as values. -/
def Row (keys : List String) (record : Record) : Prop :=
  ∃ fields, record.payload = .object fields ∧ (fields.map Prod.fst).Perm keys ∧
    ∀ entry ∈ fields, ∃ text, entry.2 = .string text

/-- The fields of a record in a CSV row. -/
def rowOf (json : JsonCodec) (record : Record) : List String :=
  (record.payload.asObject?.getD []).map fun entry => csvText json entry.2

/-- The rows of records, below their header. -/
def tableOf (json : JsonCodec) (records : List Record) : List (List String) :=
  headerOf records :: records.map (rowOf json)

end Law

section Json

variable {json : JsonCodec} {csv : CsvCodec} {records : List Record} {text : String}

/-- The lines of records. -/
def linesOf (json : JsonCodec) (records : List Record) : List (List Char) :=
  records.map fun record => (json.print record.payload).toList

theorem toList_intercalate (first : String) (rest : List String) :
    ("\n".intercalate (first :: rest) ++ "\n").toList =
      (first :: rest).flatMap fun text => text.toList ++ ['\n'] := by
  induction rest generalizing first with
  | nil => simp
  | cons next rest ih =>
      rw [String.intercalate_cons_cons, String.append_assoc, String.toList_append, ih,
        List.flatMap_cons, String.toList_append]
      rfl

/-- The text of JSON lines. -/
theorem toList_jsonl (some : records ≠ []) :
    ("\n".intercalate (records.map fun record => json.print record.toJson) ++ "\n").toList =
      (linesOf json records).flatMap fun line => line ++ ['\n'] := by
  cases records with
  | nil => exact absurd rfl some
  | cons first rest =>
      rw [List.map_cons, toList_intercalate]
      simp only [linesOf, List.flatMap_cons, List.flatMap_map, List.map_cons]
      rfl

/-- Lines are read back as the payloads they were written for. -/
theorem parseJsonl_lines (lawful : json.Lawful)
    (back : ∀ record ∈ records, json.parse (json.print record.payload) = .ok record.payload)
    (lines : text.toList = (linesOf json records).flatMap fun line => line ++ ['\n']) :
    FileSource.parseJsonl json text = .ok (records.map Record.payload) := by
  unfold FileSource.parseJsonl
  rw [lines, Parsing.lines_flatMap, List.filter_eq_self.mpr]
  · unfold linesOf
    clear lines
    induction records with
    | nil => rfl
    | cons record rest ih =>
        have first : FileSource.parseLine json (json.print record.payload).toList =
            .ok record.payload := by
          unfold FileSource.parseLine
          rw [String.ofList_toList, back record List.mem_cons_self]
        rw [List.map_cons, List.mapM_cons, first,
          ih fun other member => back other (List.mem_cons_of_mem _ member)]
        rfl
  · intro line member
    obtain ⟨record, -, rfl⟩ := List.mem_map.mp member
    rw [lawful.visible]
    rfl
  · intro line member
    obtain ⟨record, -, rfl⟩ := List.mem_map.mp member
    exact lawful.line record.payload

/-- An array is read back as the payloads in it. -/
theorem parseJson_array (back : json.parse (json.print (.array (records.map Record.toJson))) =
    .ok (.array (records.map Record.toJson))) :
    FileSource.parseJson json (json.print (.array (records.map Record.toJson))) =
      .ok (records.map Record.payload) := by
  unfold FileSource.parseJson
  rw [back]
  rfl

end Json

section Csv

variable {json : JsonCodec} {csv : CsvCodec} {records : List Record} {record : Record}
  {keys header : List String}

theorem rowOf_eq {fields : Fields} (payload : record.payload = .object fields) :
    rowOf json record = fields.map fun entry => csvText json entry.2 := by
  unfold rowOf
  rw [payload]
  rfl

/-- The header is that of the first record. -/
theorem headerOf_cons {fields : Fields} (payload : record.payload = .object fields) :
    headerOf (record :: records) = fields.map Prod.fst := by
  unfold headerOf keysOf
  rw [List.head?_cons, Option.map_some, Option.getD_some, payload]
  rfl

/-- The first record makes two rows. -/
theorem csvRowsFrom_first {fields : Fields} (payload : record.payload = .object fields) :
    csvRowsFrom json csv [] (record :: records) =
      csvRowsFrom json csv [fields.map Prod.fst, rowOf json record] records := by
  rw [csvRowsFrom]
  simp only [payload, if_true]
  rw [if_pos (by simp), ← rowOf_eq payload]
  rfl

theorem Row.keys_perm (row : Row keys record) : (keysOf record.payload).Perm keys := by
  obtain ⟨fields, payload, perm, -⟩ := row
  unfold keysOf
  rw [payload]
  exact perm

theorem Row.length_rowOf (row : Row keys record) : (rowOf json record).length = keys.length := by
  rw [← row.keys_perm.length_eq]
  unfold rowOf keysOf
  rw [List.length_map, List.length_map]

theorem Row.map_rowOf (row : Row keys record) :
    (rowOf json record).map Value.string = valuesOf record.payload := by
  obtain ⟨fields, payload, -, texts⟩ := row
  unfold rowOf valuesOf
  rw [payload, List.map_map]
  refine List.map_congr_left fun entry member => ?_
  obtain ⟨text, same⟩ := texts entry member
  rw [Function.comp, same]
  rfl

theorem csvRowsFrom_rows {rows : List (List String)} (begun : rows ≠ [])
    (width : (rows.head?.getD []).length = keys.length)
    (each : ∀ record ∈ records, Row keys record) :
    csvRowsFrom json csv rows records = .ok (rows ++ records.map (rowOf json)) := by
  induction records generalizing rows with
  | nil => exact congrArg Except.ok (List.append_nil rows).symm
  | cons record rest ih =>
      have row := each record List.mem_cons_self
      have long : (rowOf json record).length = keys.length := row.length_rowOf
      obtain ⟨fields, payload, -, -⟩ := row
      have next := ih (List.append_ne_nil_of_left_ne_nil begun [rowOf json record]) (by
        rw [List.head?_append_of_ne_nil _ begun]
        exact width) fun other member => each other (List.mem_cons_of_mem _ member)
      unfold csvRowsFrom
      simp only [payload, if_neg begun]
      rw [← rowOf_eq payload, if_pos (long.trans width.symm), next, List.map_cons,
        List.append_assoc, List.singleton_append]

/-- Rows with the same keys make a table. -/
theorem renderCsv_eq (some : records ≠ []) (each : ∀ record ∈ records, Row keys record) :
    renderCsv json csv records = .ok (csv.write (tableOf json records)) := by
  cases records with
  | nil => exact absurd rfl some
  | cons first rest =>
      have row := each first List.mem_cons_self
      have long : (rowOf json first).length = keys.length := row.length_rowOf
      have perm := row.keys_perm
      obtain ⟨fields, payload, -, -⟩ := row
      have width : (([fields.map Prod.fst, rowOf json first] : List (List String)).head?.getD
          []).length = keys.length := by
        rw [← perm.length_eq]
        unfold keysOf
        rw [payload]
        rfl
      unfold renderCsv
      rw [csvRowsFrom_first payload, csvRowsFrom_rows (List.cons_ne_nil _ _) width
        fun other member => each other (List.mem_cons_of_mem _ member)]
      unfold tableOf
      rw [headerOf_cons payload]
      rfl

theorem headerOf_perm (filled : records ≠ []) (each : ∀ record ∈ records, Row keys record) :
    (headerOf records).Perm keys := by
  obtain ⟨first, rest, rfl⟩ := List.exists_cons_of_ne_nil filled
  exact (each first List.mem_cons_self).keys_perm

/-- A row fills the headers, each with its own field. -/
theorem fillRow_eq {row : List String} {object : Fields} (distinct : header.Nodup)
    (new : ∀ key ∈ header, key ∉ object.map Prod.fst) (width : row.length = header.length) :
    FileSource.fillRow object header row = object ++ header.zip (row.map Value.string) := by
  induction header generalizing object row with
  | nil => exact (List.append_nil object).symm
  | cons key rest ih =>
      cases row with
      | nil => cases width
      | cons field row =>
          obtain ⟨fresh, distinct⟩ := List.nodup_cons.mp distinct
          rw [FileSource.fillRow, Assoc.insert_of_absent _ (new key List.mem_cons_self),
            List.tail_cons, ih distinct _ (Nat.succ.inj width), List.append_assoc]
          · rfl
          · intro other member inside
            rw [List.map_append, List.mem_append] at inside
            rcases inside with before | last
            · exact new other (List.mem_cons_of_mem _ member) before
            · cases List.mem_singleton.mp last
              exact fresh member

/-- The row of a record, under a header with its keys, is read as the record when the two are
aligned. -/
theorem beq_recordFromRow_iff (row : Row keys record) (distinct : keys.Nodup)
    (named : header.Perm keys) :
    (FileSource.recordFromRow header (rowOf json record)).beq record.payload = true ↔
      Aligned header record := by
  have texts : (rowOf json record).map Value.string = valuesOf record.payload := row.map_rowOf
  have long : (rowOf json record).length = keys.length := row.length_rowOf
  unfold FileSource.recordFromRow Aligned
  rw [fillRow_eq (named.nodup_iff.mpr distinct) (by simp) (long.trans named.length_eq.symm),
    texts, List.nil_append]
  obtain ⟨fields, payload, perm, strings⟩ := row
  rw [payload]
  have values : valuesOf (.object fields) = fields.map Prod.snd := rfl
  have fits : header.length = (valuesOf (.object fields)).length := by
    rw [values, List.length_map, named.length_eq, ← perm.length_eq, List.length_map]
  have inner : ((header.zip (valuesOf (.object fields))).map Prod.fst).Nodup := by
    rw [List.map_fst_zip (Nat.le_of_eq fits)]
    exact named.nodup_iff.mpr distinct
  rw [Value.beq_object_iff inner (perm.nodup_iff.mpr distinct)]
  refine forall_congr' fun key => ?_
  change Option.Rel _ _ (Assoc.get? key fields) ↔ _ = Assoc.get? key fields
  have string : ∀ value, Assoc.get? key (header.zip (valuesOf (.object fields))) = some value →
      ∃ text, value = .string text := by
    intro value found
    have member := (List.of_mem_zip (Assoc.mem_of_get? found)).2
    obtain ⟨entry, inside, rfl⟩ := List.mem_map.mp member
    exact strings entry inside
  cases left : Assoc.get? key (header.zip (valuesOf (.object fields))) with
  | none =>
      cases Assoc.get? key fields with
      | none => exact ⟨fun _ => rfl, fun _ => .none⟩
      | some other => exact ⟨fun related => (nomatch related), fun same => nomatch same⟩
  | some value =>
      obtain ⟨text, rfl⟩ := string value left
      cases right : Assoc.get? key fields with
      | none => exact ⟨fun related => (nomatch related), fun same => nomatch same⟩
      | some other =>
          obtain ⟨text', same⟩ := strings _ (Assoc.mem_of_get? right)
          cases same
          constructor
          · intro related
            cases related with
            | some equal => rw [beq_iff_eq.mp equal]
          · intro same
            cases same
            exact .some (beq_self_eq_true text)

end Csv

namespace Sample

/-- The JSON text of booleans, and of nothing else but null. -/
def flags : JsonCodec where
  print
    | .bool true => "true"
    | .bool false => "false"
    | _ => "null"
  parse
    | "true" => .ok (.bool true)
    | "false" => .ok (.bool false)
    | "null" => .ok .null
    | _ => .error "expected value at line 1 column 1"

/-- A codec for tables without rows. -/
def rowless : CsvCodec where
  writeRow _ := ""
  rows _ _ := []
  unequalLengths _ _ := "CSV error: found record with a different length"

/-- A sink of lines that replaces the file. -/
def replacing : FileSink := { path := "approved.jsonl", format := .jsonl }

theorem flags_lawful : flags.Lawful where
  line value := by
    unfold flags
    dsimp only
    split <;> exact ⟨by decide, by decide⟩
  visible value := by
    unfold flags
    dsimp only
    split <;> decide

end Sample

end FileSink

end Sohara
