import Sohara.Async.Machine
import Sohara.Runtime.Runner

/-! # The world of a process

The state behind the operations of one process: the locked sections of the
executor, its store handle over a file, and the history of what reached its
transforms and sinks. A host answers for the components, the clock, and the disk.
-/

namespace Sohara

/-- The entries of a state store. -/
abbrev Entries : Type := String → Option Value

/-- What the environment answers: components see the history of their own inputs,
generators and the clock are asked by number. -/
structure Host where
  streams : String → Except Error (List Item)
  transform : String → List Record → Record → Except Error TransformOutcome
  send : String → List Record → Record → Except Error Unit
  flush : String → List Record → Except Error Unit
  draws : Nat → Draws
  uuid : Nat → String
  clock : Nat → Int
  /-- Writing the store file for the given time. -/
  persist : Nat → Except Error Unit
  /-- The iteration order of the state map. -/
  hashOrder : HashOrder

/-- The counters of one step. -/
structure StepStat where
  processed : Nat
  filtered : Nat
  errors : Nat
  deriving DecidableEq, Repr

/-- A recorded runtime error. -/
structure ErrorEvent where
  step : String
  kind : String
  message : String
  deriving DecidableEq, Repr

/-- Maximum number of retained error events. -/
def errorRingCap : Nat := 100

/-- Buffer of a batch node. -/
structure BatchBuffer where
  records : List Record
  since : Option Int

/-- The state of a process. -/
structure World where
  /-- The entries cached by the store handle, when a store is configured. -/
  store : Option Entries
  /-- The content of the store file. -/
  file : Entries
  persists : Nat
  states : Assoc Value
  /-- The groups of every join node. -/
  joins : String → Assoc (List Record)
  batches : String → BatchBuffer
  counters : Counter → Nat
  stepStats : Assoc StepStat
  errorRing : List ErrorEvent
  sinceCheckpoint : Nat
  /-- Every record handed to a transform, with its node. -/
  transformed : List (String × Record)
  /-- Every record handed to a sink, with its node. -/
  sent : List (String × Record)
  /-- The records a sink has accepted since its last flush. -/
  buffered : String → List Record
  /-- The records a sink has written out. -/
  written : String → List Record
  /-- How often ids, draws and the clock have been asked for. -/
  asked : Nat

namespace World

/-- A new process over a store handle, the store file and what its sinks have
written before. -/
def start (store : Option Entries) (file : Entries) (written : String → List Record) : World where
  store := store
  file := file
  persists := 0
  states := []
  joins _ := []
  batches _ := { records := [], since := none }
  counters _ := 0
  stepStats := []
  errorRing := []
  sinceCheckpoint := 0
  transformed := []
  sent := []
  buffered _ := []
  written := written
  asked := 0

/-- The earlier records of one node. -/
def historyOf (id : String) (log : List (String × Record)) : List Record :=
  (log.filter fun entry => entry.1 = id).map (·.2)

/-- Writes the cached entries to the store file. -/
def persist (host : Host) (world : World) (entries : Entries) : Except Error Unit × World :=
  let cached := { world with store := some entries, persists := world.persists + 1 }
  match host.persist world.persists with
  | .ok () => (.ok (), { cached with file := entries })
  | .error error => (.error error, cached)

/-- Adds one to a step's counter. -/
def tick (world : World) (id : String) (field : StatField) : World :=
  let stat := (world.stepStats.get? id).getD { processed := 0, filtered := 0, errors := 0 }
  let stat := match field with
    | .processed => { stat with processed := stat.processed + 1 }
    | .filtered => { stat with filtered := stat.filtered + 1 }
    | .errors => { stat with errors := stat.errors + 1 }
  { world with stepStats := world.stepStats.insert id stat }

/-- Pushes an error event, dropping the oldest when the ring is full. -/
def pushError (world : World) (event : ErrorEvent) : World :=
  let kept := if errorRingCap ≤ world.errorRing.length then world.errorRing.tail
    else world.errorRing
  { world with errorRing := kept ++ [event] }

/-- Hands a record to a sink, which buffers what it accepts. -/
def send (host : Host) (world : World) (sink : String) (record : Record) :
    Except Error Unit × World :=
  let handed := { world with sent := world.sent ++ [(sink, record)] }
  match host.send sink (historyOf sink world.sent) record with
  | .ok () => (.ok (), { handed with
      buffered := Function.update world.buffered sink (world.buffered sink ++ [record]) })
  | .error error => (.error error, handed)

/-- Writes out what a sink has buffered; what a failed write held is lost. -/
def flush (host : Host) (world : World) (sink : String) : Except Error Unit × World :=
  let records := world.buffered sink
  let emptied := { world with buffered := Function.update world.buffered sink [] }
  if records = [] then (.ok (), world)
  else
    match host.flush sink records with
    | .ok () => (.ok (), { emptied with
        written := Function.update world.written sink (world.written sink ++ records) })
    | .error error => (.error error, emptied)

/-- Adds a record to its join group; the group is taken when it is ready. -/
def joinArrive (world : World) (id correlation : String) (mode : JoinMode)
    (expected threshold : Nat) (record : Record) : Option (List Record) × World :=
  let groups := world.joins id
  let group := (groups.get? correlation).getD [] ++ [record]
  let ready := match mode with
    | .any => true
    | .all => decide (expected ≤ group.length)
    | .n => decide (threshold ≤ group.length)
  let left := if ready then [] else group
  (if ready then some group else none,
    { world with joins := Function.update world.joins id (groups.insert correlation left) })

/-- Adds a record to a batch; the batch is taken when it is full or its window is
over. -/
def batchArrive (host : Host) (world : World) (id : String) (size : Option Nat)
    (within : Option Duration) (record : Record) : Option (List Record) × World :=
  let now := host.clock world.asked
  let buffer := world.batches id
  let records := buffer.records ++ [record]
  let sizeHit := size.any fun limit => decide (limit ≤ records.length)
  let windowHit := within.any fun window =>
    buffer.since.any fun since => decide ((window : Int) ≤ now - since)
  let due := sizeHit || windowHit
  let left : BatchBuffer :=
    if due then ⟨[], none⟩ else ⟨records, some (buffer.since.getD now)⟩
  (if due then some records else none,
    { world with asked := world.asked + 1, batches := Function.update world.batches id left })

/-- The state map in its iteration order. -/
def listStates (host : Host) (world : World) : Assoc Value :=
  (host.hashOrder.order (world.states.map Prod.fst)).filterMap fun id =>
    (world.states.get? id).map fun state => (id, state)

/-- The response to each operation, and its effect. -/
def perform (host : Host) : Async.Handler Engine World
  | world, .eval platform ctx expr value =>
      (eval platform (host.draws world.asked) ctx expr [] value,
        { world with asked := world.asked + 1 })
  | world, .count counter =>
      ((), { world with
        counters := Function.update world.counters counter (world.counters counter + 1) })
  | world, .tickStep id field => ((), world.tick id field)
  | world, .recordError step kind message => ((), world.pushError ⟨step, kind, message⟩)
  | world, .hasStore => (world.store.isSome, world)
  | world, .load key => (.ok (world.store.bind fun entries => entries key), world)
  | world, .save key value =>
      match world.store with
      | some entries => world.persist host (Function.update entries key (some value))
      | none => (.ok (), world)
  | world, .delete key =>
      match world.store with
      | some entries => world.persist host (Function.update entries key none)
      | none => (.ok (), world)
  | world, .stream source => (host.streams source, world)
  | world, .transform node record =>
      (host.transform node (historyOf node world.transformed) record,
        { world with transformed := world.transformed ++ [(node, record)] })
  | world, .send sink record => world.send host sink record
  | world, .flush sink => world.flush host sink
  | world, .freshUuid => (host.uuid world.asked, { world with asked := world.asked + 1 })
  | world, .newRecord payload =>
      (⟨host.uuid world.asked, host.clock world.asked, payload, []⟩,
        { world with asked := world.asked + 1 })
  | world, .stateOf id => (world.states.get? id, world)
  | world, .setState id value => ((), { world with states := world.states.insert id value })
  | world, .states => (world.listStates host, world)
  | world, .joinArrive id correlation mode expected threshold record =>
      world.joinArrive id correlation mode expected threshold record
  | world, .batchArrive id size within record => world.batchArrive host id size within record
  | world, .takeBatch id =>
      let left : BatchBuffer := ⟨[], (world.batches id).since⟩
      ((world.batches id).records,
        { world with batches := Function.update world.batches id left })
  | world, .bumpCheckpoint =>
      (world.sinceCheckpoint + 1, { world with sinceCheckpoint := world.sinceCheckpoint + 1 })
  | world, .resetCheckpoint => ((), { world with sinceCheckpoint := 0 })
  | world, .unknownNode _ => ((), world)
  | world, .sleep _ => ((), world)
  | world, .waitUnpaused => ((), world)

/-- What an operation hands to a sink. -/
def handed : Op → List (String × Record)
  | .send sink record => [(sink, record)]
  | _ => []

section Frames

variable (host : Host) (world : World)

/-- A save or a delete touches the store and its file only. -/
theorem perform_write_frame {op : Op} (writes : op.isWrite = true) : ∃ store file persists,
    (perform host world op).2 =
      { world with store := store, file := file, persists := persists } := by
  have persisted : ∀ entries, ∃ store file persists, (world.persist host entries).2 =
      { world with store := store, file := file, persists := persists } := by
    intro entries
    unfold persist
    cases host.persist world.persists <;> exact ⟨_, _, _, rfl⟩
  cases op with
  | save key value =>
      simp only [perform]
      cases world.store with
      | none => exact ⟨_, _, _, rfl⟩
      | some entries => exact persisted _
  | delete key =>
      simp only [perform]
      cases world.store with
      | none => exact ⟨_, _, _, rfl⟩
      | some entries => exact persisted _
  | _ => cases writes

/-- A send touches what sinks have been handed and what they hold only. -/
theorem perform_send_frame (sink : String) (record : Record) : ∃ buffered,
    (perform host world (.send sink record)).2 =
      { world with sent := world.sent ++ [(sink, record)], buffered := buffered } := by
  simp only [perform, send]
  cases host.send sink (historyOf sink world.sent) record <;> exact ⟨_, rfl⟩

/-- A flush touches what sinks hold and what they have written only. -/
theorem perform_flush_frame (sink : String) : ∃ buffered written,
    (perform host world (.flush sink)).2 =
      { world with buffered := buffered, written := written } := by
  simp only [perform, flush]
  split
  · exact ⟨_, _, rfl⟩
  · cases host.flush sink (world.buffered sink) <;> exact ⟨_, _, rfl⟩

/-- Records reach sinks only when they are sent. -/
theorem perform_sent (op : Op) :
    (perform host world op).2.sent = world.sent ++ handed op := by
  have writes : op.isWrite = true → (perform host world op).2.sent = world.sent ++ [] := by
    intro writes
    obtain ⟨_, _, _, same⟩ := perform_write_frame host world writes
    rw [List.append_nil]
    exact (congrArg sent same :)
  cases op with
  | send sink record =>
      obtain ⟨_, same⟩ := perform_send_frame host world sink record
      exact (congrArg sent same :)
  | flush sink =>
      obtain ⟨_, _, same⟩ := perform_flush_frame host world sink
      exact (congrArg sent same).trans (List.append_nil _).symm
  | save key value => exact writes rfl
  | delete key => exact writes rfl
  | _ => exact (List.append_nil _).symm

/-- The entries after an operation. -/
def stored (op : Op) (entries : Entries) : Entries :=
  match op with
  | .save key value => Function.update entries key (some value)
  | .delete key => Function.update entries key none
  | _ => entries

@[simp] theorem persist_store (entries : Entries) :
    (world.persist host entries).2.store = some entries := by
  unfold persist
  cases host.persist world.persists <;> rfl

/-- The cached entries change by saves and deletes only, whether or not the file can
be written. -/
theorem perform_store (op : Op) :
    (perform host world op).2.store = world.store.map (stored op) := by
  cases op with
  | send sink record =>
      obtain ⟨_, same⟩ := perform_send_frame host world sink record
      exact (congrArg store same).trans Option.map_id'.symm
  | save key value =>
      simp only [perform]
      cases present : world.store with
      | none => exact present
      | some entries => exact persist_store host world _
  | delete key =>
      simp only [perform]
      cases present : world.store with
      | none => exact present
      | some entries => exact persist_store host world _
  | flush sink =>
      obtain ⟨_, _, same⟩ := perform_flush_frame host world sink
      exact (congrArg store same).trans Option.map_id'.symm
  | _ => exact Option.map_id'.symm

/-- Entries change only under the key that is written. -/
theorem stored_of_not_writes {op : Op} {key : String} (entries : Entries)
    (silent : Op.writes key op = false) : stored op entries key = entries key := by
  cases op with
  | save name value => exact Function.update_of_ne (Ne.symm (of_decide_eq_false silent)) _ _
  | delete name => exact Function.update_of_ne (Ne.symm (of_decide_eq_false silent)) _ _
  | _ => rfl

/-- A process without a store stays without one. -/
theorem perform_store_none (absent : world.store = none) (op : Op) :
    (perform host world op).2.store = none := by
  rw [perform_store, absent]
  rfl

/-- What an operation adds to a counter. -/
def counted (op : Op) (counter : Counter) : Nat :=
  match op with
  | .count other => if other = counter then 1 else 0
  | _ => 0

/-- Counters only count. -/
theorem perform_counters (op : Op) (counter : Counter) :
    (perform host world op).2.counters counter = world.counters counter + counted op counter := by
  have writes : op.isWrite = true →
      (perform host world op).2.counters counter = world.counters counter := by
    intro writes
    obtain ⟨_, _, _, same⟩ := perform_write_frame host world writes
    exact congrArg (fun after => after.counters counter) same
  cases op with
  | count other =>
      simp only [perform, counted, Function.update_apply, eq_comm (a := counter)]
      split
      · next same => rw [same]
      · rfl
  | send sink record =>
      obtain ⟨_, same⟩ := perform_send_frame host world sink record
      exact congrArg (fun after => after.counters counter) same
  | flush sink =>
      obtain ⟨_, _, same⟩ := perform_flush_frame host world sink
      exact congrArg (fun after => after.counters counter) same
  | save key value => exact writes rfl
  | delete key => exact writes rfl
  | _ => rfl

/-- The response to a save when the file can be written. -/
theorem perform_save_fst (persists : ∀ time, host.persist time = .ok ()) (key : String)
    (value : Value) : (perform host world (.save key value)).1 = .ok () := by
  simp only [perform]
  cases world.store with
  | none => rfl
  | some entries =>
      simp only [persist, persists]
      rfl

theorem perform_delete_fst (persists : ∀ time, host.persist time = .ok ()) (key : String) :
    (perform host world (.delete key)).1 = .ok () := by
  simp only [perform]
  cases world.store with
  | none => rfl
  | some entries =>
      simp only [persist, persists]
      rfl

/-- **Writes go through.** When a handle that is as new as the file is the one to write,
the file changes by that write only. -/
theorem perform_file (persists : ∀ time, host.persist time = .ok ()) (op : Op)
    (fresh : ∀ key, Op.writes key op = true → world.store = some world.file) :
    (perform host world op).2.file = stored op world.file := by
  cases op with
  | send sink record =>
      obtain ⟨_, same⟩ := perform_send_frame host world sink record
      exact (congrArg file same :)
  | save key value =>
      simp only [perform, fresh key (decide_eq_true rfl), persist, persists]
      rfl
  | delete key =>
      simp only [perform, fresh key (decide_eq_true rfl), persist, persists]
      rfl
  | flush sink =>
      obtain ⟨_, _, same⟩ := perform_flush_frame host world sink
      exact (congrArg file same :)
  | _ => rfl

theorem persist_file_cases (entries : Entries) :
    (world.persist host entries).2.file = world.file ∨
      (world.persist host entries).2.file = entries := by
  unfold persist
  cases host.persist world.persists
  · exact .inl rfl
  · exact .inr rfl

/-- The file is left alone or replaced by the cached entries. -/
theorem perform_file_cases (op : Op) : (perform host world op).2.file = world.file ∨
    ∃ entries, world.store = some entries ∧
      (perform host world op).2.file = stored op entries := by
  cases op with
  | send sink record =>
      obtain ⟨_, same⟩ := perform_send_frame host world sink record
      exact .inl (congrArg file same :)
  | save key value =>
      simp only [perform]
      cases present : world.store with
      | none => exact .inl rfl
      | some entries =>
          exact (persist_file_cases host world _).imp_right fun same => ⟨entries, rfl, same⟩
  | delete key =>
      simp only [perform]
      cases present : world.store with
      | none => exact .inl rfl
      | some entries =>
          exact (persist_file_cases host world _).imp_right fun same => ⟨entries, rfl, same⟩
  | flush sink =>
      obtain ⟨_, _, same⟩ := perform_flush_frame host world sink
      exact .inl (congrArg file same :)
  | _ => exact .inl rfl

/-- The accumulated states after an operation. -/
def stated (op : Op) (states : Assoc Value) : Assoc Value :=
  match op with
  | .setState id value => states.insert id value
  | _ => states

/-- States change only when they are set. -/
theorem perform_states (op : Op) : (perform host world op).2.states = stated op world.states := by
  have writes : op.isWrite = true → (perform host world op).2.states = world.states := by
    intro writes
    obtain ⟨_, _, _, same⟩ := perform_write_frame host world writes
    exact (congrArg states same :)
  cases op with
  | send sink record =>
      obtain ⟨_, same⟩ := perform_send_frame host world sink record
      exact (congrArg states same :)
  | flush sink =>
      obtain ⟨_, _, same⟩ := perform_flush_frame host world sink
      exact (congrArg states same :)
  | save key value => exact writes rfl
  | delete key => exact writes rfl
  | _ => rfl

end Frames

end World

end Sohara
