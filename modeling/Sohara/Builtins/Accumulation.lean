import Mathlib.Data.List.Flatten
import Sohara.Builtins.CsvColumns

/-! # Records that accumulate in a file

Records are sent to a file sink and flushed, in any order. Each flush that finds records in the
buffer writes a chunk of them, on the disk as it is then: in place of what is in the file, or
behind it. So the file has all records when lines are appended and no chunk is lost, and
otherwise when there is a single chunk; a table has a header for every chunk.
-/

namespace Sohara

/-- A reader finds the rows of a table, and no more. -/
structure CsvCodec.Reads (csv : CsvCodec) (table : List (List String)) : Prop where
  back : ∀ header rows, table = header :: rows → csv.ReadsBack header rows
  length : (csv.rows 44 (csv.write table)).length ≤ table.length

namespace FileSink

section Definitions

/-- A call of a sink; a flush finds the disk in some state. -/
inductive Call where
  | send (record : Record)
  | flush (disk : FileDisk)

/-- The records that a flush finds in the buffer, and the disk. -/
structure Chunk where
  records : List Record
  disk : FileDisk

/-- The records that calls send. -/
def sent (calls : List Call) : List Record :=
  calls.flatMap fun
    | .send record => [record]
    | .flush _ => []

/-- The chunks of flushes with a nonempty buffer, and what is left in it. -/
def chunksFrom (buffer : List Record) : List Call → List Chunk × List Record
  | [] => ([], buffer)
  | .send record :: rest => chunksFrom (buffer ++ [record]) rest
  | .flush disk :: rest =>
      if buffer = [] then chunksFrom [] rest
      else (⟨buffer, disk⟩ :: (chunksFrom [] rest).1, (chunksFrom [] rest).2)

/-- The chunks of calls. -/
def chunks (calls : List Call) : List Chunk := (chunksFrom [] calls).1

variable (json : JsonCodec) (csv : CsvCodec) (sink : FileSink)

/-- The state after a call. -/
def step (state : State) : Call → State
  | .send record => send record state
  | .flush disk => (sink.flushTo json csv disk state).2

/-- The state after calls, the file of which is absent at first. -/
def run (calls : List Call) : State := calls.foldl (sink.step json csv) {}

/-- The file after a chunk is written. -/
def writeChunk (file : Option String) (chunk : Chunk) : Option String :=
  match sink.render json csv chunk.records with
  | .error _ => file
  | .ok content => (sink.writeTo chunk.disk content file).2

/-- A file from which a source of the same format reads the payloads of records. -/
def Holds (file : Option String) (records : List Record) : Prop :=
  ∃ payloads, sink.source.readRecords json csv file = .ok payloads ∧
    List.Forall₂ (fun payload record => payload.beq record.payload = true) payloads records

/-- **What a table keeps.** There are columns, the first of which does not begin with a byte
order mark, and all records list their values as the first one lists its keys. -/
def Columnar (records : List Record) : Prop :=
  headerOf records ≠ [] ∧ ¬ csv.Marked (headerOf records) ∧
    ∀ record ∈ records, Aligned (headerOf records) record

/-- **What keeps all records.** Some record is sent and no chunk is lost; and the format is that
of lines, which are appended, or there is a single chunk. -/
def Kept (calls : List Call) : Prop :=
  sent calls ≠ [] ∧ (∀ chunk ∈ chunks calls, chunk.disk.Serves) ∧
    (sink.format = .jsonl ∧ sink.append = true ∨
      (chunks calls).length = 1 ∧ (sink.format = .csv → Columnar csv (sent calls)))

/-- No header of a later chunk can stand for a record: in tables below each other none is lost,
and the first header is read. -/
def Countable (calls : List Call) : Prop :=
  sink.format = .csv → sink.append = true →
    (∀ chunk ∈ chunks calls, chunk.disk.Serves) ∧ ¬ csv.Marked (headerOf (sent calls))

/-- Records that a file of the format can hold. The text of their values, of arrays of them, or
of tables of them, one below the other, is read back as what was written; for CSV they have
the same keys, and texts as values. -/
def Storable (format : Format) (records : List Record) : Prop :=
  match format with
  | .csv => (∃ keys : List String, keys.Nodup ∧ ∀ record ∈ records, Row keys record) ∧
      ∀ tables : List (List Record), (∀ table ∈ tables, table ≠ [] ∧ table ⊆ records) →
        csv.Reads (tables.flatMap (tableOf json))
  | .json => (∀ record ∈ records, record.payload.Formed) ∧
      (∀ chunk : List Record, chunk ⊆ records →
        json.parse (json.print (.array (chunk.map Record.toJson))) =
          .ok (.array (chunk.map Record.toJson))) ∧
      ∃ error, json.parse "" = .error error
  | .jsonl => ∀ record ∈ records, record.payload.Formed ∧
      json.parse (json.print record.payload) = .ok record.payload

end Definitions

section Chunks

variable {calls : List Call} {buffer : List Record} {disk : FileDisk}

/-- Chunks are never empty. -/
theorem ne_nil_of_mem_chunksFrom {chunk : Chunk}
    (member : chunk ∈ (chunksFrom buffer calls).1) : chunk.records ≠ [] := by
  induction calls generalizing buffer with
  | nil => cases member
  | cons call rest ih =>
      cases call with
      | send record => exact ih member
      | flush disk =>
          unfold chunksFrom at member
          split at member
          case isTrue => exact ih member
          case isFalse some =>
            rcases List.mem_cons.mp member with rfl | inside
            · exact some
            · exact ih inside

/-- The chunks and what is left make up what is sent. -/
theorem flatMap_chunksFrom (buffer : List Record) (calls : List Call) :
    (chunksFrom buffer calls).1.flatMap Chunk.records ++ (chunksFrom buffer calls).2 =
      buffer ++ sent calls := by
  induction calls generalizing buffer with
  | nil => exact (List.append_nil buffer).symm
  | cons call rest ih =>
      cases call with
      | send record =>
          rw [chunksFrom, ih, List.append_assoc]
          rfl
      | flush disk =>
          have rest_sent : sent (.flush disk :: rest) = sent rest := rfl
          rw [chunksFrom, rest_sent]
          split
          case isTrue empty => rw [ih, empty]
          case isFalse => rw [List.flatMap_cons, List.append_assoc, ih, List.nil_append]

/-- A flush in the end leaves nothing. -/
theorem chunksFrom_flushed (flushed : calls.getLast? = some (.flush disk)) :
    (chunksFrom buffer calls).2 = [] := by
  induction calls generalizing buffer with
  | nil => cases flushed
  | cons call rest ih =>
      cases rest with
      | nil =>
          cases flushed
          unfold chunksFrom
          split <;> rfl
      | cons next rest =>
          rw [List.getLast?_cons_cons] at flushed
          cases call with
          | send record => exact ih flushed
          | flush disk =>
              unfold chunksFrom
              split <;> exact ih flushed

/-- Behind a last flush, the chunks are what is sent. -/
theorem flatMap_chunks (flushed : calls.getLast? = some (.flush disk)) :
    (chunks calls).flatMap Chunk.records = sent calls := by
  have whole := flatMap_chunksFrom [] calls
  rwa [chunksFrom_flushed flushed, List.append_nil, List.nil_append] at whole

variable (json : JsonCodec) (csv : CsvCodec) (sink : FileSink)

/-- A flush writes what is in the buffer, if anything is. -/
theorem flushTo_state (disk : FileDisk) (state : State) : (sink.flushTo json csv disk state).2 =
    { file := if state.buffer = [] then state.file
        else sink.writeChunk json csv state.file ⟨state.buffer, disk⟩
      buffer := [] } := by
  obtain ⟨file, buffer⟩ := state
  cases buffer with
  | nil => rfl
  | cons first others =>
      unfold flushTo writeChunk
      cases sink.render json csv (first :: others) <;> rfl

/-- Calls write their chunks one after the other. -/
theorem foldl_step (calls : List Call) (state : State) :
    calls.foldl (sink.step json csv) state =
      { file := (chunksFrom state.buffer calls).1.foldl (sink.writeChunk json csv) state.file
        buffer := (chunksFrom state.buffer calls).2 } := by
  induction calls generalizing state with
  | nil => rfl
  | cons call rest ih =>
      rw [List.foldl_cons, ih]
      cases call with
      | send record => rfl
      | flush disk =>
          rw [step, flushTo_state, chunksFrom]
          by_cases empty : state.buffer = []
          · rw [if_pos empty, if_pos empty]
          · rw [if_neg empty, if_neg empty, List.foldl_cons]

/-- The file after calls is that of their chunks. -/
theorem file_run (calls : List Call) :
    (sink.run json csv calls).file =
      (chunks calls).foldl (sink.writeChunk json csv) none := by
  unfold run
  rw [foldl_step]
  rfl

end Chunks

section Reading

variable {json : JsonCodec} {csv : CsvCodec} {sink : FileSink} {records : List Record}
  {disk : FileDisk} {file : Option String} {content : String} {payloads : List Value}

theorem writeTo_serves (serves : disk.Serves) :
    (sink.writeTo disk content file).2 = sink.write content file := by
  obtain ⟨dirs, opened, written⟩ := disk
  obtain ⟨rfl, rfl, rfl⟩ := serves
  rfl

/-- On a disk that does not serve, the file is as before, or as it is opened. -/
theorem writeTo_lost (lost : ¬ disk.Serves) : (sink.writeTo disk content file).2 = file ∨
    (sink.writeTo disk content file).2 = sink.write "" file := by
  obtain ⟨dirs, opened, written⟩ := disk
  cases dirs with
  | error message => exact .inl rfl
  | ok => cases opened with
    | error message => exact .inl rfl
    | ok => cases written with
      | error message => exact .inr rfl
      | ok => exact absurd ⟨rfl, rfl, rfl⟩ lost

/-- What is read decides whether the file holds the records. -/
theorem holds_iff_of_read (read : sink.source.readRecords json csv file = .ok payloads) :
    Holds json csv sink file records ↔
      List.Forall₂ (fun payload record => payload.beq record.payload = true) payloads records := by
  constructor
  · rintro ⟨others, readToo, same⟩
    cases read.symm.trans readToo
    exact same
  · exact fun same => ⟨payloads, read, same⟩

/-- Some of the records can be stored when all can. -/
theorem storable_of_subset {format : Format} {all : List Record} (within : records ⊆ all)
    (storable : Storable json csv format all) : Storable json csv format records := by
  cases format with
  | csv =>
      obtain ⟨⟨keys, distinct, each⟩, back⟩ := storable
      exact ⟨⟨keys, distinct, fun record member => each record (within member)⟩,
        fun tables inside => back tables fun table member =>
          ⟨(inside table member).1, List.Subset.trans (inside table member).2 within⟩⟩
  | json =>
      exact ⟨fun record member => storable.1 record (within member),
        fun chunk inside => storable.2.1 chunk (List.Subset.trans inside within), storable.2.2⟩
  | jsonl => exact fun record member => storable record (within member)

/-- One table is read back. -/
theorem reads_table (filled : records ≠ []) (storable : Storable json csv .csv records) :
    csv.Reads (tableOf json records) := by
  have reads := storable.2 [records] (by simpa using filled)
  rwa [List.flatMap_singleton] at reads

/-- Storable records can be rendered; those of CSV make a table. -/
theorem exists_content (filled : records ≠ []) (storable : Storable json csv sink.format records) :
    ∃ content, sink.render json csv records = .ok content ∧
      (sink.format = .csv → content = csv.write (tableOf json records)) := by
  unfold render
  cases format : sink.format with
  | csv =>
      rw [format] at storable
      obtain ⟨⟨keys, distinct, each⟩, -⟩ := storable
      exact ⟨_, renderCsv_eq filled each, fun _ => rfl⟩
  | json => exact ⟨_, rfl, nofun⟩
  | jsonl => exact ⟨_, rfl, nofun⟩

/-- Other formats are read back as the payloads. -/
theorem read_plain (lawful : json.Lawful) (filled : records ≠ [])
    (storable : Storable json csv sink.format records) (other : sink.format ≠ .csv)
    (rendered : sink.render json csv records = .ok content) :
    sink.source.readRecords json csv (some content) = .ok (records.map Record.payload) := by
  unfold render at rendered
  unfold FileSource.readRecords source
  cases format : sink.format with
  | csv => exact absurd format other
  | json =>
      rw [format] at storable rendered
      cases rendered
      exact parseJson_array (storable.2.1 records (List.Subset.refl records))
  | jsonl =>
      rw [format] at storable rendered
      cases rendered
      exact parseJsonl_lines lawful (fun record member => (storable record member).2)
        (toList_jsonl filled)

/-- What is read of a table. -/
theorem readRecords_table (tabled : sink.format = .csv) (text : String) :
    sink.source.readRecords json csv (some text) =
      .ok ((csv.rows 44 text).tail.map (FileSource.recordFromRow
        ((csv.rows 44 text).head?.getD []))) := by
  unfold FileSource.readRecords source
  rw [tabled]
  rfl

/-- No more payloads are read than records were written. -/
theorem length_read_le (lawful : json.Lawful) (filled : records ≠ [])
    (storable : Storable json csv sink.format records)
    (rendered : sink.render json csv records = .ok content)
    (read : sink.source.readRecords json csv (some content) = .ok payloads) :
    payloads.length ≤ records.length := by
  by_cases tabled : sink.format = .csv
  · obtain ⟨_, same, table⟩ := exists_content filled storable
    cases same.symm.trans rendered
    rw [table tabled, readRecords_table tabled] at read
    cases read
    rw [tabled] at storable
    have rows := (reads_table filled storable).length
    unfold tableOf at rows ⊢
    rw [List.length_cons, List.length_map] at rows
    rw [List.length_map, List.length_tail]
    omega
  · cases (read_plain lawful filled storable tabled rendered).symm.trans read
    exact Nat.le_of_eq (List.length_map _)

/-- Nothing is read from an empty file. -/
theorem read_empty (storable : Storable json csv sink.format records)
    (read : sink.source.readRecords json csv (some "") = .ok payloads) : payloads = [] := by
  cases format : sink.format with
  | csv =>
      rw [format] at storable
      rw [readRecords_table format] at read
      have rows := (storable.2 [] (fun _ member => nomatch member)).length
      have none_ : csv.rows 44 "" = [] := List.eq_nil_of_length_eq_zero (Nat.le_zero.mp rows)
      rw [none_] at read
      cases read
      rfl
  | json =>
      rw [format] at storable
      unfold FileSource.readRecords source FileSource.parseJson at read
      obtain ⟨error, fails⟩ := storable.2.2
      simp only [format, fails] at read
      cases read
  | jsonl =>
      unfold FileSource.readRecords source at read
      rw [format] at read
      cases read
      rfl

end Reading

section Tables

variable {json : JsonCodec} {csv : CsvCodec} {sink : FileSink} {records : List Record}
  {record : Record} {header row : List String} {object : Fields} {key : String}

theorem nodup_fillRow (distinct : (object.map Prod.fst).Nodup) :
    ((FileSource.fillRow object header row).map Prod.fst).Nodup := by
  induction header generalizing object row with
  | nil => exact distinct
  | cons name rest ih => exact ih (Assoc.nodup_insert distinct)

/-- A row that is read as a record has its keys. -/
theorem isSome_of_beq {fields : Fields} (formed : (fields.map Prod.fst).Nodup)
    (same : (FileSource.recordFromRow header row).beq (.object fields) = true) (key : String) :
    (Assoc.get? key (FileSource.fillRow [] header row)).isSome =
      (Assoc.get? key fields).isSome := by
  have columns : ((FileSource.fillRow [] header row).map Prod.fst).Nodup :=
    nodup_fillRow List.nodup_nil
  have related := (Value.beq_object_iff columns formed).mp same key
  generalize Assoc.get? key (FileSource.fillRow [] header row) = found at related
  generalize Assoc.get? key fields = wanted at related
  cases related <;> rfl

/-- The columns of a table are the keys of its first record. -/
theorem mem_headerOf_iff {first : Record} {rest : List Record} {keys : List String}
    {fields : Fields} (each : ∀ record ∈ first :: rest, Row keys record)
    (perm : (fields.map Prod.fst).Perm keys) (key : String) :
    key ∈ headerOf (first :: rest) ↔ (Assoc.get? key fields).isSome = true := by
  rw [Option.isSome_iff_exists, ← Assoc.mem_keys_iff, perm.mem_iff,
    (headerOf_perm (List.cons_ne_nil first rest) each).mem_iff]

/-- A table the header of which begins with a byte order mark is not read back. -/
theorem not_holds_marked (tabled : sink.format = .csv) (filled : records ≠ [])
    (storable : Storable json csv .csv records) (marked : csv.Marked (headerOf records)) :
    ¬ Holds json csv sink (some (csv.write (tableOf json records))) records := by
  rintro ⟨payloads, read, same⟩
  obtain ⟨keys, distinct, each⟩ := storable.1
  have reads := (reads_table filled storable).back _ _ rfl
  rw [readRecords_table tabled] at read
  cases read
  obtain ⟨first, rest, rfl⟩ := List.exists_cons_of_ne_nil filled
  obtain ⟨fields, payload, perm, -⟩ := each first List.mem_cons_self
  have formed : (fields.map Prod.fst).Nodup := perm.nodup_iff.mpr distinct
  have lengths := same.length_eq
  rw [List.length_map] at lengths
  cases found : csv.rows 44 (csv.write (tableOf json (first :: rest))) with
  | nil =>
      rw [found] at lengths
      cases lengths
  | cons columns below =>
      rw [found, List.tail_cons] at lengths
      obtain ⟨key, inside, absent⟩ := reads.marked marked columns below found
        (lengths.trans (List.length_map _).symm)
      rw [found, List.tail_cons, List.head?_cons, Option.getD_some] at same
      cases below with
      | nil => cases lengths
      | cons row below =>
          have equal := (List.forall₂_cons.mp same).1
          rw [payload] at equal
          have present := isSome_of_beq formed equal key
          rw [get?_fillRow_of_not_mem absent, (mem_headerOf_iff each perm key).mp inside] at present
          cases present

/-- A record without keys is not read back as one. -/
theorem not_beq_of_unnamed {row : List String} {keys : List String} {first : Record}
    {rest : List Record} (distinct : keys.Nodup)
    (each : ∀ record ∈ first :: rest, Row keys record) (none_ : headerOf (first :: rest) = []) :
    ¬ (FileSource.recordFromRow (CsvCodec.shown (headerOf (first :: rest))) row).beq
      first.payload = true := by
  intro equal
  obtain ⟨fields, payload, perm, -⟩ := each first List.mem_cons_self
  rw [none_, payload] at equal
  have present := isSome_of_beq (perm.nodup_iff.mpr distinct) equal ""
  have unknown := (mem_headerOf_iff each perm "").not.mp (none_ ▸ List.not_mem_nil)
  rw [← present] at unknown
  exact unknown rfl

/-- A table that is written alone keeps its records when it is columnar. -/
theorem holds_table_iff (tabled : sink.format = .csv) (filled : records ≠ [])
    (storable : Storable json csv .csv records) :
    Holds json csv sink (some (csv.write (tableOf json records))) records ↔
      Columnar csv records := by
  unfold Columnar
  by_cases marked : csv.Marked (headerOf records)
  · exact iff_of_false (not_holds_marked tabled filled storable marked) fun kept => kept.2.1 marked
  obtain ⟨keys, distinct, each⟩ := storable.1
  have named := headerOf_perm filled each
  have rows : csv.rows 44 (csv.write (tableOf json records)) = _ :=
    ((reads_table filled storable).back _ _ rfl).unmarked marked
  have read : sink.source.readRecords json csv (some (csv.write (tableOf json records))) =
      .ok (records.map fun record => FileSource.recordFromRow (CsvCodec.shown (headerOf records))
        (CsvCodec.shown (rowOf json record))) := by
    rw [readRecords_table tabled, rows, List.tail_cons, List.map_map, List.map_map]
    rfl
  rw [holds_iff_of_read read, List.forall₂_map_left_iff, List.forall₂_same, and_iff_right marked]
  by_cases none_ : headerOf records = []
  · obtain ⟨first, rest, rfl⟩ := List.exists_cons_of_ne_nil filled
    exact iff_of_false (fun all => not_beq_of_unnamed distinct each none_
      (all first List.mem_cons_self)) fun kept => kept.1 none_
  · rw [and_iff_right none_]
    refine forall₂_congr fun record member => ?_
    have some_ : rowOf json record ≠ [] := by
      intro empty
      have long : (rowOf json record).length = keys.length := (each record member).length_rowOf
      rw [empty, ← named.length_eq] at long
      exact none_ (List.eq_nil_of_length_eq_zero long.symm)
    rw [CsvCodec.shown, if_neg none_, CsvCodec.shown, if_neg some_]
    exact beq_recordFromRow_iff (each record member) distinct named

/-- A single chunk keeps its records, those of CSV when they are columnar. -/
theorem holds_single_iff {content : String} (lawful : json.Lawful) (filled : records ≠ [])
    (storable : Storable json csv sink.format records)
    (rendered : sink.render json csv records = .ok content) :
    Holds json csv sink (some content) records ↔
      (sink.format = .csv → Columnar csv records) := by
  by_cases tabled : sink.format = .csv
  · obtain ⟨_, same, table⟩ := exists_content filled storable
    cases same.symm.trans rendered
    rw [tabled] at storable
    rw [table tabled, holds_table_iff tabled filled storable]
    exact ⟨fun kept _ => kept, fun kept => kept tabled⟩
  · refine iff_of_true ?_ fun isTable => absurd isTable tabled
    rw [holds_iff_of_read (read_plain lawful filled storable tabled rendered)]
    refine List.forall₂_map_left_iff.mpr (List.forall₂_same.mpr fun record member => ?_)
    cases format : sink.format with
    | csv => exact absurd format tabled
    | json =>
        rw [format] at storable
        exact Value.beq_refl (storable.1 record member)
    | jsonl =>
        rw [format] at storable
        exact Value.beq_refl (storable record member).1

end Tables

section Files

variable {json : JsonCodec} {csv : CsvCodec} {sink : FileSink} {records : List Record}
  {calls : List Call} {parts : List Chunk} {file : Option String} {disk : FileDisk}

/-- Without append mode, what is in the file is from one chunk, if anything is. -/
theorem file_replaced (replaces : sink.append = false) :
    parts.foldl (sink.writeChunk json csv) none = none ∨
      parts.foldl (sink.writeChunk json csv) none = some "" ∨
      ∃ chunk ∈ parts, chunk.disk.Serves ∧ ∃ content,
        sink.render json csv chunk.records = .ok content ∧
        parts.foldl (sink.writeChunk json csv) none = some content := by
  induction parts using List.reverseRecOn with
  | nil => exact .inl rfl
  | append_singleton earlier chunk ih =>
      rw [List.foldl_append, List.foldl_cons, List.foldl_nil]
      generalize earlier.foldl (sink.writeChunk json csv) none = file at ih ⊢
      have before : file = none ∨ file = some "" ∨ ∃ other ∈ earlier ++ [chunk],
          other.disk.Serves ∧ ∃ content, sink.render json csv other.records = .ok content ∧
            file = some content :=
        ih.imp_right fun one => one.imp_right fun ⟨other, member, rest⟩ =>
          ⟨other, List.mem_append_left _ member, rest⟩
      unfold writeChunk
      cases rendered : sink.render json csv chunk.records with
      | error error => exact before
      | ok content =>
          dsimp only
          by_cases serves : chunk.disk.Serves
          · refine .inr (.inr ⟨chunk, List.mem_append_right _ List.mem_cons_self, serves, content,
              rendered, ?_⟩)
            rw [writeTo_serves serves, write, replaces, if_neg Bool.false_ne_true]
          · rcases @writeTo_lost sink chunk.disk file content serves with same | emptied
            · rw [same]
              exact before
            · refine .inr (.inl ?_)
              rw [emptied, write, replaces, if_neg Bool.false_ne_true]

/-- In append mode, the texts of the chunks that are not lost follow each other. -/
theorem file_appended (appends : sink.append = true) {content : Chunk → String}
    (renders : ∀ chunk ∈ parts, sink.render json csv chunk.records = .ok (content chunk)) :
    ∃ kept : List Chunk, kept.Sublist parts ∧
      ((∀ chunk ∈ parts, chunk.disk.Serves) → kept = parts) ∧
      (∀ chunk ∈ kept, chunk.disk.Serves) ∧
      ((parts.foldl (sink.writeChunk json csv) none = none ∧ kept = []) ∨
        ∃ text, parts.foldl (sink.writeChunk json csv) none = some text ∧
          text.toList = kept.flatMap fun chunk => (content chunk).toList) := by
  induction parts using List.reverseRecOn with
  | nil => exact ⟨[], .refl _, fun _ => rfl, fun _ member => (nomatch member), .inl ⟨rfl, rfl⟩⟩
  | append_singleton earlier chunk ih =>
      obtain ⟨kept, inside, all, each, found⟩ := ih fun other member =>
        renders other (List.mem_append_left _ member)
      rw [List.foldl_append, List.foldl_cons, List.foldl_nil]
      generalize earlier.foldl (sink.writeChunk json csv) none = file at found ⊢
      have whole : (file.getD "").toList =
          kept.flatMap fun chunk => (content chunk).toList := by
        rcases found with ⟨rfl, rfl⟩ | ⟨text, rfl, same⟩
        · rfl
        · exact same
      unfold writeChunk
      rw [renders chunk (List.mem_append_right _ List.mem_cons_self)]
      dsimp only
      by_cases serves : chunk.disk.Serves
      · refine ⟨kept ++ [chunk], inside.append (.refl _), fun both => ?_, fun other member => ?_,
          .inr ⟨file.getD "" ++ content chunk, ?_, ?_⟩⟩
        · rw [all fun other member => both other (List.mem_append_left _ member)]
        · rcases List.mem_append.mp member with before | last
          · exact each other before
          · exact List.mem_singleton.mp last ▸ serves
        · rw [writeTo_serves serves, write, appends, if_pos rfl]
        · rw [String.toList_append, whole, List.flatMap_append, List.flatMap_singleton]
      · have unserved : ¬ ∀ other ∈ earlier ++ [chunk], other.disk.Serves := fun both =>
          serves (both chunk (List.mem_append_right _ List.mem_cons_self))
        refine ⟨kept, inside.trans (List.sublist_append_left _ _),
          fun both => absurd both unserved, each, ?_⟩
        rcases @writeTo_lost sink chunk.disk file (content chunk) serves with same | opened
        · rw [same]
          exact found
        · refine .inr ⟨file.getD "", ?_, whole⟩
          rw [opened, write, appends, if_pos rfl, String.append_empty]

/-- Of chunks that are not empty, fewer have fewer records. -/
theorem eq_of_sublist {kept : List Chunk} (inside : kept.Sublist parts)
    (filled : ∀ chunk ∈ parts, chunk.records ≠ [])
    (same : (kept.flatMap Chunk.records).length = (parts.flatMap Chunk.records).length) :
    kept = parts := by
  induction inside with
  | slnil => rfl
  | cons chunk rest ih =>
      have some_ := List.length_pos_of_ne_nil (filled chunk List.mem_cons_self)
      have less := (rest.flatMap Chunk.records).length_le
      rw [List.flatMap_cons, List.length_append] at same
      omega
  | cons_cons chunk rest ih =>
      rw [List.flatMap_cons, List.flatMap_cons, List.length_append, List.length_append] at same
      rw [ih (fun other member => filled other (List.mem_cons_of_mem _ member)) (by omega)]

/-- A chunk with all records is the only one. -/
theorem eq_singleton_of_length {chunk : Chunk} (member : chunk ∈ parts)
    (filled : ∀ chunk ∈ parts, chunk.records ≠ [])
    (all : (parts.flatMap Chunk.records).length ≤ chunk.records.length) : parts = [chunk] := by
  have inside : [chunk].Sublist parts := List.singleton_sublist.mpr member
  have least := (inside.flatMap Chunk.records).length_le
  rw [List.flatMap_singleton] at least
  refine (eq_of_sublist inside filled ?_).symm
  rw [List.flatMap_singleton]
  omega

/-- Lines are read back, except those of chunks that are lost. -/
theorem holds_lines_iff (lawful : json.Lawful) (lined : sink.format = .jsonl)
    (appends : sink.append = true) (filled : ∀ chunk ∈ parts, chunk.records ≠ [])
    (some_ : parts ≠ []) (storable : Storable json csv .jsonl (parts.flatMap Chunk.records)) :
    Holds json csv sink (parts.foldl (sink.writeChunk json csv) none)
        (parts.flatMap Chunk.records) ↔ ∀ chunk ∈ parts, chunk.disk.Serves := by
  have renders : ∀ chunk ∈ parts, sink.render json csv chunk.records = .ok
      ("\n".intercalate (chunk.records.map fun record => json.print record.toJson) ++ "\n") := by
    intro chunk _
    unfold render
    rw [lined]
  obtain ⟨kept, inside, all, each, found⟩ := file_appended appends renders
  have within : kept.flatMap Chunk.records ⊆ parts.flatMap Chunk.records :=
    (inside.flatMap Chunk.records).subset
  have read : ∀ {text : String}, (text.toList = kept.flatMap fun chunk => ("\n".intercalate
      (chunk.records.map fun record => json.print record.toJson) ++ "\n").toList) →
      sink.source.readRecords json csv (some text) =
        .ok ((kept.flatMap Chunk.records).map Record.payload) := by
    intro text whole
    unfold FileSource.readRecords source
    rw [lined]
    refine parseJsonl_lines lawful (fun record member => (storable record (within member)).2)
      (whole.trans ?_)
    rw [linesOf, List.map_flatMap, List.flatMap_assoc]
    refine List.flatMap_congr fun chunk member => ?_
    rw [toList_jsonl (filled chunk (inside.subset member))]
    rfl
  rcases found with ⟨absent, none_⟩ | ⟨text, present, whole⟩
  · rw [absent]
    refine iff_of_false ?_ fun serve => some_ ((all serve).symm.trans none_)
    rintro ⟨payloads, missing, -⟩
    cases missing
  · rw [present, holds_iff_of_read (read whole)]
    constructor
    · intro same
      have lengths := same.length_eq
      rw [List.length_map] at lengths
      rw [← eq_of_sublist inside filled lengths]
      exact each
    · intro serve
      rw [all serve, List.forall₂_map_left_iff, List.forall₂_same]
      exact fun record member => Value.beq_refl (storable record member).1

/-- Each table has a row more than records. -/
theorem length_flatMap_tableOf (parts : List Chunk) :
    ((parts.map Chunk.records).flatMap (tableOf json)).length =
      (parts.flatMap Chunk.records).length + parts.length := by
  induction parts with
  | nil => rfl
  | cons chunk rest ih =>
      rw [List.map_cons, List.flatMap_cons, List.length_append, ih, List.flatMap_cons,
        List.length_append, List.length_cons]
      unfold tableOf
      rw [List.length_cons, List.length_map]
      omega

/-- Tables are written one below the other. -/
theorem toList_write (rows : List (List String)) :
    (csv.write rows).toList = rows.flatMap fun row => (csv.writeRow row).toList := by
  unfold CsvCodec.write
  induction rows using List.reverseRecOn with
  | nil => rfl
  | append_singleton above row ih =>
      rw [List.foldl_append, List.foldl_cons, List.foldl_nil, String.toList_append, ih,
        List.flatMap_append, List.flatMap_singleton]

/-- Of tables one below the other, the headers but the first are read as records. -/
theorem length_of_holds_tables (tabled : sink.format = .csv) (appends : sink.append = true)
    (filled : ∀ chunk ∈ parts, chunk.records ≠ [])
    (storable : Storable json csv .csv (parts.flatMap Chunk.records))
    (serve : ∀ chunk ∈ parts, chunk.disk.Serves)
    (unmarked : ¬ csv.Marked (headerOf (parts.flatMap Chunk.records)))
    (holds : Holds json csv sink (parts.foldl (sink.writeChunk json csv) none)
      (parts.flatMap Chunk.records)) : parts.length = 1 := by
  have within : ∀ chunk ∈ parts, ∀ record ∈ chunk.records,
      record ∈ parts.flatMap Chunk.records :=
    fun chunk member record inside => List.mem_flatMap.mpr ⟨chunk, member, inside⟩
  obtain ⟨keys, distinct, each⟩ := storable.1
  have renders : ∀ chunk ∈ parts, sink.render json csv chunk.records =
      .ok (csv.write (tableOf json chunk.records)) := by
    intro chunk member
    unfold render
    rw [tabled]
    exact renderCsv_eq (filled chunk member) fun record inside =>
      each record (within chunk member record inside)
  obtain ⟨kept, -, all, -, found⟩ := file_appended appends renders
  rw [all serve] at found
  rcases found with ⟨absent, -⟩ | ⟨text, present, whole⟩
  · obtain ⟨payloads, missing, -⟩ := holds
    rw [absent] at missing
    cases missing
  · have stacked : text = csv.write ((parts.map Chunk.records).flatMap (tableOf json)) := by
      refine String.ext (whole.trans ?_)
      rw [toList_write, List.flatMap_assoc, List.flatMap_map]
      exact List.flatMap_congr fun chunk _ => toList_write _
    have reads := storable.2 (parts.map Chunk.records) (by
      intro table member
      obtain ⟨chunk, inside, rfl⟩ := List.mem_map.mp member
      exact ⟨filled chunk inside, within chunk inside⟩)
    have total := @length_flatMap_tableOf json parts
    cases parts with
    | nil =>
        cases present
    | cons chunk rest =>
        obtain ⟨header, rows, table⟩ : ∃ header rows,
            ((chunk :: rest).map Chunk.records).flatMap (tableOf json) = header :: rows :=
          ⟨_, _, rfl⟩
        have first : headerOf ((chunk :: rest).flatMap Chunk.records) = header := by
          obtain ⟨record, others, split⟩ :=
            List.exists_cons_of_ne_nil (filled chunk List.mem_cons_self)
          cases table
          rw [List.flatMap_cons, split]
          rfl
        rw [first] at unmarked
        obtain ⟨payloads, read, same⟩ := holds
        have rowsRead := (reads.back header rows table).unmarked unmarked
        rw [present, readRecords_table tabled, stacked, table, rowsRead] at read
        cases read
        have lengths := same.length_eq
        rw [List.length_map, List.tail_cons, List.length_map] at lengths
        rw [table, List.length_cons] at total
        omega

/-- No file holds records that are not sent. -/
theorem ne_nil_of_holds
    (holds : Holds json csv sink (parts.foldl (sink.writeChunk json csv) none) records) :
    parts ≠ [] := by
  rintro rfl
  obtain ⟨payloads, missing, -⟩ := holds
  cases missing

/-- A single chunk that is not lost keeps its records, those of CSV when they are columnar. -/
theorem holds_chunk_iff {chunk : Chunk} (lawful : json.Lawful) (filled : chunk.records ≠ [])
    (storable : Storable json csv sink.format chunk.records) (serves : chunk.disk.Serves) :
    Holds json csv sink (sink.writeChunk json csv none chunk) chunk.records ↔
      (sink.format = .csv → Columnar csv chunk.records) := by
  obtain ⟨content, rendered, -⟩ := exists_content filled storable
  have written : sink.writeChunk json csv none chunk = some content := by
    unfold writeChunk
    rw [rendered]
    dsimp only
    rw [writeTo_serves serves, write, Option.getD_none, String.empty_append, ite_self]
  rw [written, holds_single_iff lawful filled storable rendered]

/-- Without append mode, a file holds all records when a single chunk is written. -/
theorem single_of_holds (lawful : json.Lawful) (replaces : sink.append = false)
    (filled : ∀ chunk ∈ parts, chunk.records ≠ [])
    (storable : Storable json csv sink.format (parts.flatMap Chunk.records))
    (holds : Holds json csv sink (parts.foldl (sink.writeChunk json csv) none)
      (parts.flatMap Chunk.records)) : ∃ chunk, parts = [chunk] ∧ chunk.disk.Serves := by
  have some_ := ne_nil_of_holds holds
  obtain ⟨payloads, read, same⟩ := holds
  rcases @file_replaced json csv sink parts replaces with absent | emptied |
    ⟨chunk, member, serves, content, rendered, present⟩
  · rw [absent] at read
    cases read
  · rw [emptied] at read
    rw [read_empty storable read, List.forall₂_nil_left_iff] at same
    obtain ⟨chunk, rest, split⟩ := List.exists_cons_of_ne_nil some_
    rw [split, List.flatMap_cons, List.append_eq_nil_iff] at same
    exact absurd same.1 (filled chunk (split ▸ List.mem_cons_self))
  · rw [present] at read
    have within : chunk.records ⊆ parts.flatMap Chunk.records :=
      fun record inside => List.mem_flatMap.mpr ⟨chunk, member, inside⟩
    have short := length_read_le lawful (filled chunk member)
      (storable_of_subset within storable) rendered read
    rw [same.length_eq] at short
    exact ⟨chunk, eq_singleton_of_length member filled short, serves⟩

/-- A sink that is built replaces its file, or appends lines or tables. -/
theorem mode_of_build {path : String} {format : Format} {append : Bool}
    (built : build path format append = .ok sink) : sink.format = format ∧
      (sink.append = false ∨ sink.append = true ∧ (format = .jsonl ∨ format = .csv)) := by
  unfold build at built
  split at built
  case isTrue => cases built
  case isFalse allowed =>
    cases built
    refine ⟨rfl, ?_⟩
    cases append with
    | false => exact .inl rfl
    | true => cases format with
      | csv => exact .inr ⟨rfl, .inr rfl⟩
      | json => exact absurd ⟨rfl, rfl⟩ allowed
      | jsonl => exact .inr ⟨rfl, .inl rfl⟩

/-- What is kept is in the file. -/
theorem holds_of_kept (lawful : json.Lawful) (flushed : calls.getLast? = some (.flush disk))
    (storable : Storable json csv sink.format (sent calls)) (kept : Kept csv sink calls) :
    Holds json csv sink (sink.run json csv calls).file (sent calls) := by
  have filled : ∀ chunk ∈ chunks calls, chunk.records ≠ [] :=
    fun chunk member => ne_nil_of_mem_chunksFrom member
  unfold Kept at kept
  rw [← flatMap_chunks flushed] at storable kept ⊢
  rw [file_run]
  generalize chunks calls = parts at filled storable kept ⊢
  obtain ⟨some_, serve, ⟨lined, appends⟩ | ⟨single, columnar⟩⟩ := kept
  · rw [lined] at storable
    refine (holds_lines_iff lawful lined appends filled ?_ storable).mpr serve
    rintro rfl
    exact some_ rfl
  · obtain ⟨chunk, rfl⟩ := List.length_eq_one_iff.mp single
    rw [List.flatMap_singleton] at storable columnar ⊢
    exact (holds_chunk_iff lawful (filled chunk List.mem_cons_self) storable
      (serve chunk List.mem_cons_self)).mpr columnar

/-- What is in the file is kept, where no header can stand for a record. -/
theorem kept_of_holds (lawful : json.Lawful) {path : String} {format : Format} {append : Bool}
    (built : build path format append = .ok sink)
    (flushed : calls.getLast? = some (.flush disk))
    (storable : Storable json csv sink.format (sent calls)) (countable : Countable csv sink calls)
    (holds : Holds json csv sink (sink.run json csv calls).file (sent calls)) :
    Kept csv sink calls := by
  obtain ⟨formatted, mode⟩ := mode_of_build built
  have filled : ∀ chunk ∈ chunks calls, chunk.records ≠ [] :=
    fun chunk member => ne_nil_of_mem_chunksFrom member
  unfold Countable at countable
  unfold Kept
  rw [← flatMap_chunks flushed] at storable countable holds ⊢
  rw [file_run] at holds
  generalize chunks calls = parts at filled storable countable holds ⊢
  have some_ := ne_nil_of_holds holds
  have sends : parts.flatMap Chunk.records ≠ [] := by
    obtain ⟨chunk, rest, split⟩ := List.exists_cons_of_ne_nil some_
    rw [split, List.flatMap_cons]
    exact List.append_ne_nil_of_left_ne_nil (filled chunk (split ▸ List.mem_cons_self)) _
  have one : ∀ chunk, parts = [chunk] → chunk.disk.Serves →
      parts.length = 1 ∧ (sink.format = .csv → Columnar csv (parts.flatMap Chunk.records)) := by
    rintro chunk rfl serves
    rw [List.flatMap_singleton] at storable holds ⊢
    exact ⟨rfl, (holds_chunk_iff lawful (filled chunk List.mem_cons_self) storable serves).mp
      holds⟩
  rcases mode with replaces | ⟨appends, lined | tabled⟩
  · obtain ⟨chunk, single, serves⟩ := single_of_holds lawful replaces filled storable holds
    refine ⟨sends, fun other member => ?_, .inr (one chunk single serves)⟩
    rw [single] at member
    exact List.mem_singleton.mp member ▸ serves
  · have isLines : sink.format = .jsonl := formatted.trans lined
    rw [isLines] at storable
    exact ⟨sends, (holds_lines_iff lawful isLines appends filled some_ storable).mp holds,
      .inl ⟨isLines, appends⟩⟩
  · have isTable : sink.format = .csv := formatted.trans tabled
    rw [isTable] at storable
    obtain ⟨serve, unmarked⟩ := countable isTable appends
    have length := length_of_holds_tables isTable appends filled storable serve unmarked holds
    obtain ⟨chunk, single⟩ := List.length_eq_one_iff.mp length
    exact ⟨sends, serve, .inr (one chunk single (serve chunk (single ▸ List.mem_cons_self)))⟩

/-- **When a file keeps all records that are sent**: nothing is lost, and lines are appended or
a single chunk is written, for CSV in columns. Only of CSV chunks below each other this may be
enough without being needed, as a header can stand for a record that is lost. -/
theorem holds_iff_kept (lawful : json.Lawful) {path : String} {format : Format} {append : Bool}
    (built : build path format append = .ok sink)
    (flushed : calls.getLast? = some (.flush disk))
    (storable : Storable json csv format (sent calls)) :
    (Countable csv sink calls →
      (Holds json csv sink (sink.run json csv calls).file (sent calls) ↔ Kept csv sink calls)) ∧
    (Kept csv sink calls → Holds json csv sink (sink.run json csv calls).file (sent calls)) := by
  rw [← (mode_of_build built).1] at storable
  have enough := holds_of_kept lawful flushed storable
  exact ⟨fun countable => ⟨kept_of_holds lawful built flushed storable countable, enough⟩, enough⟩

end Files

section Approvals

variable {csv : CsvCodec} {sink : FileSink} {parts : List Chunk}

/-- The calls of approvals, each of which sends records to a sink and flushes it. -/
def approvals (parts : List Chunk) : List Call :=
  parts.flatMap fun chunk => chunk.records.map .send ++ [.flush chunk.disk]

/-- The approvals that send something. -/
def sending (parts : List Chunk) : List Chunk :=
  parts.filter fun chunk => decide (chunk.records ≠ [])

/-- Records that are sent wait in the buffer. -/
theorem chunksFrom_sends (buffer records : List Record) (rest : List Call) :
    chunksFrom buffer (records.map .send ++ rest) = chunksFrom (buffer ++ records) rest := by
  induction records generalizing buffer with
  | nil => rw [List.append_nil]; rfl
  | cons record others ih =>
      rw [List.map_cons, List.cons_append, chunksFrom, ih, List.append_assoc]
      rfl

/-- What each approval sends is written alone. -/
theorem chunksFrom_approvals (parts : List Chunk) :
    chunksFrom [] (approvals parts) = (sending parts, []) := by
  induction parts with
  | nil => rfl
  | cons chunk rest ih =>
      unfold approvals sending at ih ⊢
      rw [List.flatMap_cons, List.append_assoc, chunksFrom_sends, List.nil_append,
        List.singleton_append, chunksFrom, ih]
      by_cases none_ : chunk.records = []
      · rw [if_pos none_, List.filter_cons_of_neg]
        exact fun some_ => of_decide_eq_true some_ none_
      · rw [if_neg none_, List.filter_cons_of_pos]
        exact decide_eq_true none_

/-- The last call of approvals is a flush. -/
theorem getLast?_approvals (some_ : parts ≠ []) :
    ∃ disk, (approvals parts).getLast? = some (.flush disk) := by
  obtain ⟨earlier, chunk, rfl⟩ := (List.eq_nil_or_concat' parts).resolve_left some_
  refine ⟨chunk.disk, ?_⟩
  unfold approvals
  rw [List.flatMap_append, List.flatMap_singleton, ← List.append_assoc, List.getLast?_concat]

/-- The records of several approvals are kept where lines are appended and no chunk is lost, and
nowhere else. -/
theorem kept_approvals_iff (several : 1 < (sending parts).length) :
    Kept csv sink (approvals parts) ↔
      sink.format = .jsonl ∧ sink.append = true ∧ ∀ chunk ∈ sending parts, chunk.disk.Serves := by
  have whole := flatMap_chunksFrom [] (approvals parts)
  have written : chunks (approvals parts) = sending parts :=
    congrArg Prod.fst (chunksFrom_approvals parts)
  rw [chunksFrom_approvals, List.append_nil, List.nil_append] at whole
  unfold Kept
  rw [written, ← whole]
  constructor
  · rintro ⟨-, serve, lined | single⟩
    · exact ⟨lined.1, lined.2, serve⟩
    · have one := single.1
      omega
  · rintro ⟨lined, appends, serve⟩
    refine ⟨?_, serve, .inl ⟨lined, appends⟩⟩
    obtain ⟨chunk, rest, split⟩ := List.exists_cons_of_length_pos (Nat.zero_lt_of_lt several)
    have some_ := of_decide_eq_true (List.mem_filter.mp (split ▸ List.mem_cons_self :
      chunk ∈ sending parts)).2
    rw [split, List.flatMap_cons]
    exact List.append_ne_nil_of_left_ne_nil some_ _

end Approvals

namespace Sample

/-- Two approved records, each followed by a flush. -/
def twoApprovals : List Chunk :=
  [⟨[{ id := "r0", timestamp := 0, payload := .bool true, metadata := [] }], .sound⟩,
    ⟨[{ id := "r1", timestamp := 0, payload := .bool false, metadata := [] }], .sound⟩]

/-- Of two approved records, the file has the second one only. -/
theorem approved_replaced : ¬Holds flags rowless replacing
    (replacing.run flags rowless (approvals twoApprovals)).file (sent (approvals twoApprovals)) := by
  have read : replacing.source.readRecords flags rowless
      (replacing.run flags rowless (approvals twoApprovals)).file = .ok [.bool false] := rfl
  rintro ⟨payloads, readToo, same⟩
  cases read.symm.trans readToo
  exact absurd same.length_eq (by decide)

theorem twoApprovals_storable :
    Storable flags rowless .jsonl (sent (approvals twoApprovals)) := by
  intro record member
  rcases List.mem_pair.mp member with rfl | rfl
  · exact ⟨trivial, rfl⟩
  · exact ⟨trivial, rfl⟩

/-- The fields of a row need no quotes. -/
def Unquoted (row : List String) : Prop :=
  row ≠ [] ∧ ∀ field ∈ row, field.toList.all Char.isAlphanum = true

theorem mem_intercalate {fields : List (List Char)} {char : Char}
    (member : char ∈ [','].intercalate fields) : char = ',' ∨ ∃ field ∈ fields, char ∈ field := by
  induction fields with
  | nil => cases member
  | cons field rest ih =>
      cases rest with
      | nil => exact .inr ⟨field, List.mem_cons_self, by simpa using member⟩
      | cons next rest =>
          rw [List.intercalate_cons_cons, List.mem_append, List.mem_append] at member
          rcases member with (inside | comma) | inside
          · exact .inr ⟨field, List.mem_cons_self, inside⟩
          · exact .inl (List.mem_singleton.mp comma)
          · exact (ih inside).imp_right fun ⟨other, present, within⟩ =>
              ⟨other, List.mem_cons_of_mem _ present, within⟩

theorem oneLine_plain {row : List String} (unquoted : Unquoted row) :
    Parsing.OneLine (",".intercalate row).toList := by
  have each : ∀ char ∈ (",".intercalate row).toList, char ≠ '\n' ∧ char ≠ '\r' := by
    intro char member
    rw [String.toList_intercalate] at member
    rcases mem_intercalate member with rfl | ⟨field, inside, within⟩
    · decide
    · obtain ⟨text, present, rfl⟩ := List.mem_map.mp inside
      have simple := List.all_eq_true.mp (unquoted.2 text present) char within
      constructor
      · rintro rfl
        exact absurd simple (by decide)
      · rintro rfl
        exact absurd simple (by decide)
  exact ⟨fun broken => (each _ broken).1 rfl,
    fun ends => (each _ (List.mem_of_getLast? ends)).2 rfl⟩

/-- Rows without quotes are read back. -/
theorem plain_rows {rows : List (List String)} (unquoted : ∀ row ∈ rows, Unquoted row) :
    plain.rows 44 (plain.write rows) = rows := by
  have lines : (plain.write rows).toList =
      (rows.map fun row => (",".intercalate row).toList).flatMap fun line => line ++ ['\n'] := by
    rw [toList_write, List.flatMap_map]
    refine List.flatMap_congr fun row _ => ?_
    show (",".intercalate row ++ "\n").toList = _
    rw [String.toList_append]
    rfl
  show (Parsing.lines (plain.write rows).toList).map _ = rows
  rw [lines, Parsing.lines_flatMap, List.map_map]
  · refine (List.map_congr_left fun row member => ?_).trans (List.map_id _)
    obtain ⟨some_, simple⟩ := unquoted row member
    show ((",".intercalate row).toList.splitOnP (· == ',')).map String.ofList = row
    have fields : (",".intercalate row).toList.splitOn ',' = row.map String.toList := by
      rw [String.toList_intercalate]
      refine List.splitOn_intercalate ',' (fun field inside => ?_) (by simpa using some_)
      obtain ⟨text, present, rfl⟩ := List.mem_map.mp inside
      exact fun comma => absurd (List.all_eq_true.mp (simple text present) ',' comma) (by decide)
    have split : (",".intercalate row).toList.splitOnP (· == ',') =
      (",".intercalate row).toList.splitOn ',' := rfl
    rw [split, fields, List.map_map]
    refine (List.map_congr_left fun text _ => ?_).trans (List.map_id _)
    exact String.ofList_toList
  · intro line member
    obtain ⟨row, inside, rfl⟩ := List.mem_map.mp member
    exact oneLine_plain (unquoted row inside)

/-- Two records with the same columns. -/
def pairs : List Record :=
  [{ id := "r0", timestamp := 0, payload := .object [("a", .string "1"), ("b", .string "2")],
     metadata := [] },
    { id := "r1", timestamp := 0, payload := .object [("a", .string "3"), ("b", .string "4")],
      metadata := [] }]

/-- The rows of tables of these records. -/
theorem rows_pairs {table : List Record} (filled : table ≠ []) (within : table ⊆ pairs) :
    tableOf flags table = ["a", "b"] :: table.map (rowOf flags) ∧
      ∀ row ∈ tableOf flags table, Unquoted row := by
  have named : headerOf table = ["a", "b"] := by
    obtain ⟨record, rest, rfl⟩ := List.exists_cons_of_ne_nil filled
    rcases List.mem_pair.mp (within List.mem_cons_self) with rfl | rfl <;> rfl
  unfold tableOf
  rw [named]
  refine ⟨rfl, fun row member => ?_⟩
  rcases List.mem_cons.mp member with rfl | inside
  · exact ⟨by decide, by decide⟩
  · obtain ⟨record, present, rfl⟩ := List.mem_map.mp inside
    rcases List.mem_pair.mp (within present) with rfl | rfl <;> exact ⟨by decide, by decide⟩

theorem pairs_storable : Storable flags plain .csv pairs := by
  refine ⟨⟨["a", "b"], by decide, fun record member => ?_⟩, fun tables inside => ?_⟩
  · rcases List.mem_pair.mp member with rfl | rfl
    · exact ⟨_, rfl, .refl _, by simp⟩
    · exact ⟨_, rfl, .refl _, by simp⟩
  · have unquoted : ∀ row ∈ tables.flatMap (tableOf flags), Unquoted row := by
      intro row member
      obtain ⟨table, present, within⟩ := List.mem_flatMap.mp member
      exact (rows_pairs (inside table present).1 (inside table present).2).2 row within
    have read := plain_rows unquoted
    refine ⟨fun header rows table => ?_, Nat.le_of_eq (congrArg List.length read)⟩
    rw [table] at read unquoted
    have shown : ∀ row ∈ header :: rows, CsvCodec.shown row = row :=
      fun row member => if_neg (unquoted row member).1
    refine ⟨fun _ => ?_, fun marked => ?_⟩
    · rw [read, shown header List.mem_cons_self, List.map_congr_left fun row member =>
        shown row (List.mem_cons_of_mem _ member), List.map_id']
    · have named : header = ["a", "b"] := by
        cases tables with
        | nil => cases table
        | cons first others =>
            have top := inside first List.mem_cons_self
            rw [List.flatMap_cons, (rows_pairs top.1 top.2).1] at table
            exact (List.cons.inj table).1.symm
      rw [named] at marked
      have first : (plain.writeRow ["a", "b"]).toList.head? = some 'a' := rfl
      cases first.symm.trans marked

/-- The calls of a run that flushes once, in the end. -/
def flushedOnce : List Call := pairs.map .send ++ [.flush .sound]

/-- A sink that appends lines. -/
def appending : FileSink := { path := "approved.jsonl", format := .jsonl, append := true }

/-- The file cannot be opened for the first of two approved records. -/
def firstDenied : List Chunk :=
  [⟨[{ id := "r0", timestamp := 0, payload := .bool true, metadata := [] }],
      { FileDisk.sound with openFile := .error "Permission denied (os error 13)" }⟩,
    ⟨[{ id := "r1", timestamp := 0, payload := .bool false, metadata := [] }], .sound⟩]

/-- Two approvals are not kept in a file that is replaced, nor behind a file that could not be
opened for the first; a table that is written once is kept. -/
theorem approvals_kept :
    (Holds flags rowless replacing (replacing.run flags rowless (approvals twoApprovals)).file
        (sent (approvals twoApprovals)) ↔ Kept rowless replacing (approvals twoApprovals)) ∧
      ¬ Holds flags rowless appending (appending.run flags rowless (approvals firstDenied)).file
        (sent (approvals firstDenied)) ∧
      Holds flags plain tabled (tabled.run flags plain flushedOnce).file (sent flushedOnce) := by
  have replaced := (holds_iff_kept flags_lawful
    (by rfl : build "approved.jsonl" .jsonl false = .ok replacing) (by rfl)
    twoApprovals_storable).1 nofun
  have denied := (holds_iff_kept flags_lawful
    (by rfl : build "approved.jsonl" .jsonl true = .ok appending)
    (by rfl : (approvals firstDenied).getLast? = some (.flush .sound)) twoApprovals_storable).1 nofun
  have once := (holds_iff_kept flags_lawful
    (by rfl : build "pairs.csv" .csv false = .ok tabled)
    (by rfl : flushedOnce.getLast? = some (.flush .sound)) pairs_storable).2
  refine ⟨replaced, fun holds => ?_, once ⟨nofun, ?_, .inr ⟨rfl, fun _ => ?_⟩⟩⟩
  · have serves := (denied.mp holds).2.1 _ List.mem_cons_self
    cases serves.opened
  · intro chunk member
    obtain rfl := List.mem_singleton.mp member
    exact ⟨rfl, rfl, rfl⟩
  · refine ⟨nofun, fun marked => ?_, fun record member => ?_⟩
    · have first : (plain.writeRow ["a", "b"]).toList.head? = some 'a' := rfl
      cases first.symm.trans marked
    · rcases List.mem_pair.mp member with rfl | rfl <;> exact fun _ => rfl

end Sample

end FileSink

end Sohara
