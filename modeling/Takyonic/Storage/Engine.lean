import Takyonic.Storage.Scan
import Takyonic.Storage.TxnWal
import Takyonic.Foundation.Trace

namespace Takyonic

open Foundation Schema

inductive IsolationLevel where
  | snapshot
  | serializable
  deriving DecidableEq, Repr

structure SsiTxnTrack where
  reads : List Key
  doomed : Bool
  deriving DecidableEq, Repr

structure SsiRegistry where
  active : List (Nat × SsiTxnTrack)
  deriving DecidableEq, Repr

namespace SsiRegistry

variable (registry : SsiRegistry)

def register (txnId : Nat) : SsiRegistry :=
  if registry.active.any (·.1 = txnId) then registry else ⟨(txnId, ⟨[], false⟩) :: registry.active⟩

def noteRead (txnId : Nat) (key : Key) : SsiRegistry :=
  ⟨registry.active.map fun (id, track) =>
    (id, if id = txnId then { track with reads := track.reads.insert key } else track)⟩

def isDoomed (txnId : Nat) : Bool :=
  registry.active.any fun (id, track) => id = txnId ∧ track.doomed

def doomConcurrentReaders (writerId : Nat) (writeKeys : List Key) : SsiRegistry :=
  ⟨registry.active.map fun (id, track) =>
    (id, if id ≠ writerId ∧ writeKeys.any (· ∈ track.reads) then { track with doomed := true } else track)⟩

def unregister (txnId : Nat) : SsiRegistry :=
  ⟨registry.active.filter (·.1 ≠ txnId)⟩

end SsiRegistry

/-- A transaction: its snapshot, the keys it has observed, and the writes it buffers. -/
structure Transaction where
  txnId : Nat
  readTs : Nat
  isolation : IsolationLevel
  reads : Std.TreeMap Key Nat
  writes : Std.TreeMap Key (Option Value)
  finished : Bool

/-- What a transaction asks of the store it runs on. -/
structure Reader where
  get : Key → Except TakyonicError (Option Value × Nat)
  scanPrefixKeys : Bytes → Except TakyonicError (List Key)
  tableSchema : String → Except TakyonicError TableSchema

structure Session where
  ssi : SsiRegistry
  txn : Transaction

def Session.observe (session : Session) (key : Key) (seenTs : Nat) : Session where
  ssi := if session.txn.isolation = .serializable then session.ssi.noteRead session.txn.txnId key else session.ssi
  txn := { session.txn with reads := session.txn.reads.insertIfNew key seenTs }

def Session.buffer (session : Session) (key : Key) (op : Option Value) : Session :=
  { session with txn := { session.txn with writes := session.txn.writes.insert key op } }

abbrev TxnM := ExceptT TakyonicError (StateM Session)

def TxnM.ofExcept {α : Type} (answer : Except TakyonicError α) : TxnM α := ExceptT.mk (pure answer)

namespace Transaction

variable (reader : Reader)

def ensureOpen : TxnM Unit := do
  if (← getThe Session).txn.finished then throw (.engine "transaction already finished")

def observe (key : Key) : TxnM (Option Value) := do
  let (value, seenTs) ← TxnM.ofExcept (reader.get key)
  modifyThe Session (·.observe key seenTs)
  return value

def get (key : Key) : TxnM (Option Value) := do
  ensureOpen
  match (← getThe Session).txn.writes[key]? with
  | some op => return op
  | none => observe reader key

def buffer (key : Key) (op : Option Value) : TxnM Unit := do
  ensureOpen
  if ¬ (← getThe Session).txn.reads.contains key then
    let _ ← observe reader key
  modifyThe Session (·.buffer key op)

def put (key : Key) (value : Value) : TxnM Unit := buffer reader key (some value)

def delete (key : Key) : TxnM Unit := buffer reader key none

def overlay (start : Bytes) (writes : List (Key × Option Value)) (keys : List Key) : List Key :=
  writes.foldl (fun keys (key, op) =>
    if ¬ key.startsWith start then keys
    else if op.isSome then if key ∈ keys then keys else keys ++ [key]
    else keys.filter (· ≠ key)) keys

def readRows : List Key → List Record → TxnM (List Record)
  | [], rows => return rows
  | key :: rest, rows => do
    match ← get reader key with
    | some value => do
      let record ← TxnM.ofExcept (Record.decode value)
      readRows rest (rows ++ [record])
    | none => readRows rest rows

def scanTableRecords (table : String) : TxnM (List Record) := do
  ensureOpen
  let _ ← TxnM.ofExcept (reader.tableSchema table)
  let start := dataTablePrefix table
  let keys ← TxnM.ofExcept (reader.scanPrefixKeys start)
  let keys := overlay start (← getThe Session).txn.writes.toList keys
  readRows reader (keys.insertionSort (· ≤ ·)) []

def deleteIndexKeys (table : String) (old : Record) (pk : String) : List IndexDef → TxnM Unit
  | [] => return ()
  | index :: rest => do
    if ¬ index.isVector then
      match old.get index.column with
      | some value => delete reader (indexKey table index.name (indexStoreValue value) pk)
      | none => pure ()
    deleteIndexKeys table old pk rest

def putIndexKeys (table : String) (record : Record) (pk : String) : List IndexDef → TxnM Unit
  | [] => return ()
  | index :: rest => do
    match record.get index.column with
    | none => do
      let column := index.column
      throw (.engine s!"record missing indexed field `{column}`")
    | some value => do
      if ¬ index.isVector then
        put reader (indexKey table index.name (indexStoreValue value) pk) ⟨[]⟩
      putIndexKeys table record pk rest

/-- `put_record` once the primary key is known. -/
def putRow (table : String) (record : Record) (pk : String) (indexes : List IndexDef) : TxnM Unit := do
  let key := dataKey table pk
  match ← get reader key with
  | some value => do
    let old ← TxnM.ofExcept (Record.decode value)
    deleteIndexKeys reader table old pk indexes
  | none => pure ()
  put reader key record.encode
  putIndexKeys reader table record pk indexes

def putRecord (table : String) (record : Record) : TxnM Unit := do
  ensureOpen
  let schema ← TxnM.ofExcept (reader.tableSchema table)
  match record.get schema.primaryKey with
  | none => do
    let primaryKey := schema.primaryKey
    throw (.engine s!"record missing primary key field `{primaryKey}`")
  | some pk => putRow reader table record pk schema.indexes

end Transaction

inductive TxnOp where
  | get (key : Key)
  | put (key : Key) (value : Value)
  | delete (key : Key)
  | putRecord (table : String) (record : Record)
  | scanTableRecords (table : String)
  deriving DecidableEq, Repr

inductive Answer where
  | value (value : Option Value)
  | done
  | rows (records : List Record)
  deriving DecidableEq, Repr

abbrev Reply := Except TakyonicError Answer

def Transaction.perform (reader : Reader) : TxnOp → TxnM Answer
  | .get key => return .value (← get reader key)
  | .put key value => do
    put reader key value
    return .done
  | .delete key => do
    delete reader key
    return .done
  | .putRecord table record => do
    putRecord reader table record
    return .done
  | .scanTableRecords table => return .rows (← scanTableRecords reader table)

open TxnWal

def u64Max : Nat := 2 ^ 64 - 1

structure EpochManager where
  active : List (Nat × Nat)
  nextId : Nat
  deriving DecidableEq, Repr

namespace EpochManager

def begin (epochs : EpochManager) (readTs : Nat) : Nat × EpochManager :=
  (epochs.nextId + 1, ⟨(epochs.nextId + 1, readTs) :: epochs.active, epochs.nextId + 1⟩)

def finish (epochs : EpochManager) (txnId : Nat) : EpochManager :=
  { epochs with active := epochs.active.filter (·.1 ≠ txnId) }

def watermark (epochs : EpochManager) : Option Nat := (epochs.active.map Prod.snd).min?

end EpochManager

structure StorageManager where
  engines : String → Option StorageEngineKind
  btrees : String → Option BTreeStorage

namespace StorageManager

def routerOnly : StorageManager := ⟨fun _ => none, fun _ => none⟩

def registerTable (storage : StorageManager) (schema : TableSchema) : StorageManager where
  engines := Function.update storage.engines schema.name (some schema.storageEngine)
  btrees :=
    if schema.storageEngine = .bTree then
      Function.update storage.btrees schema.name (some ((storage.btrees schema.name).getD BTreeStorage.empty))
    else storage.btrees

def engineKind (storage : StorageManager) (table : String) : StorageEngineKind := (storage.engines table).getD .lsm

def mirror (storage : StorageManager) (table : String) : Option BTreeStorage :=
  if storage.engineKind table = .bTree then storage.btrees table else none

def apply (storage : StorageManager) (table : String) (entry : Entry) : StorageManager :=
  { storage with btrees := Function.update storage.btrees table ((storage.btrees table).map (·.apply entry)) }

end StorageManager

inductive RaftHandle where
  | leader
  | follower (leaderAddress : Option String)
  deriving DecidableEq, Repr

inductive DiskFault where
  | redo (written : Nat)
  | proposal
  | flush
  deriving DecidableEq, Repr

structure Conditions where
  admitted : Bool
  fault : Option DiskFault
  quorum : Except TakyonicError Unit

structure Disk where
  ssts : SstDir
  wal : WalDir
  seqMarker : Option Nat
  txnWal : Option Bytes
  catalog : List TableSchema

structure TakyonicEngine where
  store : Store
  closed : Bool
  txnTracker : EpochManager
  ssi : SsiRegistry
  lastCommit : Key → Option Nat
  schemas : List TableSchema
  storage : StorageManager
  ariesWal : Bytes
  distributedRaft : Option RaftHandle

def Entry.answer : Option Entry → Option Value × Nat
  | some entry => (if entry.tombstone then none else entry.value, entry.seq)
  | none => (none, 0)

def Schema.prefixTable (library : Library) (start : Bytes) : Option String :=
  match String.fromUTF8? ⟨start.toArray⟩ with
  | some _ => ((stripPrefix dataPrefix start).orElse fun _ => stripPrefix idxPrefix start).map fun rest =>
    library.utf8Lossy (rest.takeWhile (· ≠ sep))
  | none => none

namespace TakyonicEngine

variable (library : Library) (engine : TakyonicEngine)

def ensureOpen : Except TakyonicError Unit :=
  if engine.closed then .error (.engine "engine is closed") else .ok ()

def mirrorOf (key : Key) : Option BTreeStorage :=
  (tableFromUserKey library key).bind engine.storage.mirror

def readAt (key : Key) (readTs : Nat) : Option Entry :=
  match engine.mirrorOf library key with
  | some mirror => mirror.getAt key readTs
  | none => engine.store.getAt key readTs

def getAtWithTs (key : Key) (readTs : Nat) : Except TakyonicError (Option Value × Nat) := do
  engine.ensureOpen
  return Entry.answer (engine.readAt library key readTs)

def get (key : Key) : Except TakyonicError (Option Value) :=
  (engine.getAtWithTs library key u64Max).map Prod.fst

def scanPrefixKeys (engine : TakyonicEngine) (start : Bytes) (readTs : Nat) : Except TakyonicError (List Key) := do
  engine.ensureOpen
  match (prefixTable library start).bind engine.storage.mirror with
  | some mirror => return (mirror.scanAt start readTs).map Entry.key
  | none => return engine.store.scanPrefixKeys start readTs

def tableSchema (table : String) : Except TakyonicError TableSchema :=
  match engine.schemas.find? (·.name = table) with
  | some schema => .ok schema
  | none => .error (.engine s!"unknown table `{table}`")

def reader (readTs : Nat) : Reader where
  get key := engine.getAtWithTs library key readTs
  scanPrefixKeys start := engine.scanPrefixKeys library start readTs
  tableSchema := engine.tableSchema

def publishWatermark : TakyonicEngine :=
  let idle := if engine.closed then 0 else engine.store.node.lastApplied + 1
  let watermark := engine.txnTracker.watermark.getD idle
  { engine with store := { engine.store with manager := engine.store.manager.setMvccWatermark watermark } }

def endTransaction (txnId : Nat) : TakyonicEngine :=
  { engine with ssi := engine.ssi.unregister txnId, txnTracker := engine.txnTracker.finish txnId }.publishWatermark

def beginWithIsolation (isolation : IsolationLevel) :
    Except TakyonicError (Transaction × TakyonicEngine) := do
  engine.ensureOpen
  let readTs := engine.store.node.lastApplied
  let (txnId, txnTracker) := engine.txnTracker.begin readTs
  let engine := { engine with txnTracker }.publishWatermark
  let ssi := if isolation = .serializable then engine.ssi.register txnId else engine.ssi
  return (⟨txnId, readTs, isolation, ∅, ∅, false⟩, { engine with ssi })

def noteCommittedKeys (keys : List Key) (commitTs : Nat) : TakyonicEngine :=
  { engine with lastCommit := fun key => if key ∈ keys then some commitTs else engine.lastCommit key }

def maybeFlush (engine : TakyonicEngine) : TakyonicEngine × Except TakyonicError Unit :=
  let (store, result) := engine.store.maybeFlush
  ({ engine with store }, result)

def requireLeader : RaftHandle → Except TakyonicError Unit
  | .leader => .ok ()
  | .follower leaderAddress => .error (.notLeader leaderAddress)

def applyReplicated (command : RaftCommand) : TakyonicEngine × Except TakyonicError Nat :=
  let index := engine.store.node.lastApplied + 1
  match command.toEntries index with
  | .error error => (engine, .error error)
  | .ok entries =>
    let node := (entries.foldl LocalRaftNode.applyEntry engine.store.node).advance index
    let engine := { engine with store := { engine.store with node } }.noteCommittedKeys (entries.map Entry.key) index
    match engine.maybeFlush with
    | (engine, .ok ()) => (engine, .ok index)
    | (engine, .error error) => (engine, .error error)

variable (conditions : Conditions)

def proposeReplicated (raft : RaftHandle) (command : RaftCommand) : TakyonicEngine × Except TakyonicError Nat :=
  match requireLeader raft, conditions.quorum with
  | .error error, _ => (engine, .error error)
  | .ok (), .error error => (engine, .error error)
  | .ok (), .ok () => engine.applyReplicated command

def proposeLocal (command : RaftCommand) (keys : List Key) :
    TakyonicEngine × Except TakyonicError Unit :=
  match engine.store.propose library.xxh3 command with
  | (store, .error error) => ({ engine with store }, .error error)
  | (store, .ok commitTs) => ({ engine with store }.noteCommittedKeys keys commitTs).maybeFlush

def propose (command : RaftCommand) (key : Key) :
    TakyonicEngine × Except TakyonicError Unit :=
  if ¬ conditions.admitted then (engine, .error (.admission "timed out waiting for write admission"))
  else match engine.distributedRaft with
    | some raft =>
      match engine.proposeReplicated conditions raft command with
      | (engine, .error error) => (engine, .error error)
      | (engine, .ok commitTs) =>
        match engine.ensureOpen with
        | .error error => (engine.noteCommittedKeys [key] commitTs, .error error)
        | .ok () => (engine.noteCommittedKeys [key] commitTs).maybeFlush
    | none =>
      match engine.ensureOpen with
      | .error error => (engine, .error error)
      | .ok () => engine.proposeLocal library command [key]

def put (engine : TakyonicEngine) (conditions : Conditions) (key : Key) (value : Value) :
    TakyonicEngine × Except TakyonicError Unit := engine.propose library conditions (.put key value) key

def delete (engine : TakyonicEngine) (conditions : Conditions) (key : Key) :
    TakyonicEngine × Except TakyonicError Unit := engine.propose library conditions (.delete key) key

def mirrorBtreeWrites (writes : List (Key × Option Value)) (commitTs : Nat) :
    TakyonicEngine :=
  { engine with storage := writes.foldl (fun storage op =>
      match tableFromUserKey library op.1 with
      | some table =>
        if storage.engineKind table = .bTree then storage.apply table (RaftCommand.opEntry commitTs op) else storage
      | none => storage) engine.storage }

def firstConflict (txn : Transaction) : Option (Key × Nat) :=
  (txn.reads.keys ++ txn.writes.keys).findSome? fun key =>
    (engine.lastCommit key).bind fun ts => if txn.readTs < ts then some (key, ts) else none

def prepareTxnCommit (txn : Transaction) :
    Except TakyonicError (List (Key × Option Value)) :=
  match engine.firstConflict txn with
  | some (key, ts) =>
    let text := library.debug (library.utf8Lossy key.bytes)
    let readTs := txn.readTs
    .error (.conflict s!"key {text} committed at {ts} > read_ts {readTs}")
  | none =>
    if conditions.admitted then .ok txn.writes.toList
    else .error (.admission "timed out waiting for write admission")

def ssiConflict : TakyonicError := .conflict
  "SSI conflict: concurrent write to a key this transaction read (write-skew / rw-antidependency)"

def logTxnWal (fault : Option DiskFault) (txn : Transaction) :
    TakyonicEngine × Except TakyonicError Unit :=
  let record := committedTxn library.xxh3 (txn.txnId, txn.writes.toList.map (WalRecord.ofWrite library))
  match fault with
  | some (.redo written) => ({ engine with ariesWal := engine.ariesWal ++ record.take written }, .error .io)
  | _ => ({ engine with ariesWal := engine.ariesWal ++ record }, .ok ())

def commitLocal (fault : Option DiskFault) (txn : Transaction)
    (ops : List (Key × Option Value)) : TakyonicEngine × Except TakyonicError Nat :=
  if fault = some .proposal then
    ({ engine with store := { engine.store with
        node := { engine.store.node with nextIndex := engine.store.node.nextIndex + 1 } } }, .error .io)
  else match engine.store.propose library.xxh3 (.txnBatch ops) with
    | (store, .error error) => ({ engine with store }, .error error)
    | (store, .ok commitTs) =>
      let engine := ({ engine with store }.mirrorBtreeWrites library ops commitTs).noteCommittedKeys
        (ops.map Prod.fst) commitTs
      if fault = some .flush then
        ({ engine with store := engine.store.setMemtable Memtable.empty }, .error .io)
      else match engine.maybeFlush with
        | (engine, .error error) => (engine, .error error)
        | (engine, .ok ()) => (engine.endTransaction txn.txnId, .ok commitTs)

def commitTransaction (txn : Transaction) :
    TakyonicEngine × Except TakyonicError Nat :=
  match engine.ensureOpen with
  | .error error => (engine, .error error)
  | .ok () =>
    if txn.writes.isEmpty then (engine.endTransaction txn.txnId, .ok txn.readTs)
    else if txn.isolation = .serializable ∧ engine.ssi.isDoomed txn.txnId then
      (engine.endTransaction txn.txnId, .error ssiConflict)
    else match engine.prepareTxnCommit library conditions txn with
      | .error error => (engine.endTransaction txn.txnId, .error error)
      | .ok ops =>
        let engine := if txn.isolation = .serializable then
            { engine with ssi := engine.ssi.doomConcurrentReaders txn.txnId txn.writes.keys }
          else engine
        match engine.logTxnWal library conditions.fault txn with
        | (engine, .error error) => (engine, .error error)
        | (engine, .ok ()) =>
          match engine.distributedRaft with
          | none => engine.commitLocal library conditions.fault txn ops
          | some raft =>
            match engine.proposeReplicated conditions raft (.txnBatch ops) with
            | (engine, .error error) => (engine.endTransaction txn.txnId, .error error)
            | (engine, .ok commitTs) =>
              (((engine.mirrorBtreeWrites library ops commitTs).noteCommittedKeys
                (ops.map Prod.fst) commitTs).endTransaction txn.txnId, .ok commitTs)

/-- `Transaction::commit` takes the transaction; its drop ends one that failed. -/
def commit (txn : Transaction) :
    TakyonicEngine × Except TakyonicError Nat :=
  if txn.finished then (engine, .error (.engine "transaction already finished"))
  else match engine.commitTransaction library conditions txn with
    | (engine, .error error) => (engine.endTransaction txn.txnId, .error error)
    | done => done

def forceFlush : TakyonicEngine × Except TakyonicError Unit :=
  match engine.ensureOpen with
  | .error error => (engine, .error error)
  | .ok () =>
    let (store, result) := engine.store.flushNode
    ({ engine with store }, result)

def hydrateBtreeFromLsm (table : String) : TakyonicEngine :=
  if engine.storage.engineKind table ≠ .bTree then engine
  else
    let versions := engine.store.collectVersionsPrefix (dataTablePrefix table) ++
      engine.store.collectVersionsPrefix (indexTablePrefix table)
    { engine with storage := versions.foldl (fun storage entry => storage.apply table entry) engine.storage }

def close : TakyonicEngine × Except TakyonicError Unit :=
  if engine.closed then (engine, .ok ())
  else
    let engine := { engine with closed := true }
    match engine.store.flushNode with
    | (store, .error error) => ({ engine with store }, .error error)
    | (store, .ok ()) =>
      let store := { store with
        seqMarker := some store.node.nextIndex
        wal := store.wal.filter (store.walSegment ≤ ·.1) }
      ({ engine with store, ariesWal := header }, .ok ())

def disk : Disk :=
  ⟨engine.store.manager.dir, engine.store.wal, engine.store.seqMarker, some engine.ariesWal, engine.schemas⟩

def defaultLevelCount : Nat := 4

def mount (store : Store) (ariesWal : Bytes) (catalog : List TableSchema) : TakyonicEngine :=
  let engine : TakyonicEngine := {
    store, closed := false, txnTracker := ⟨[], 0⟩, ssi := ⟨[]⟩, lastCommit := fun _ => none, schemas := catalog
    storage := catalog.foldl StorageManager.registerTable StorageManager.routerOnly
    ariesWal, distributedRaft := none }
  (catalog.filter (·.storageEngine = .bTree)).foldl (fun engine schema => engine.hydrateBtreeFromLsm schema.name) engine

def openInner (config : Config) (disk : Disk) : Except TakyonicError TakyonicEngine := do
  let manager ← (SstManager.create defaultLevelCount 1 config.maxSstBytes disk.ssts).recoverExistingSsts
  let recovered ← recoverWal library.xxh3 disk.wal
  let nextSeq := max recovered.nextSeq (disk.seqMarker.getD 0)
  let (batches, txnWal) ← recoverCommitted library.xxh3 disk.txnWal
  let ops := batches.flatMap Prod.snd
  -- the redo numbers every operation twice: once into the memtable, once into the log
  let memtable := (redoEntries nextSeq ops).foldl Memtable.apply recovered.memtable
  let handoff := redoEntries (nextSeq + ops.length) ops
  let wal := recovered.wal.append recovered.walSegment (handoff.flatMap (Wal.encodeRecord library.xxh3))
  let ariesWal ← openLog (if ops = [] then txnWal else some header)
  let node := LocalRaftNode.create memtable (nextSeq + 2 * ops.length)
  let store : Store := ⟨config, node, manager, wal, recovered.walSegment, disk.seqMarker, []⟩
  match (mount store ariesWal disk.catalog).maybeFlush with
  | (engine, .ok ()) => return engine
  | (_, .error error) => throw error

variable {library}

theorem hydrateBtreeFromLsm_eq (table : String) :
    ∃ storage, engine.hydrateBtreeFromLsm table = { engine with storage } := by
  unfold hydrateBtreeFromLsm
  split
  · exact ⟨engine.storage, rfl⟩
  · exact ⟨_, rfl⟩

theorem mount_eq (store : Store) (ariesWal : Bytes) (catalog : List TableSchema) :
    ∃ storage, mount store ariesWal catalog = {
      store, closed := false, txnTracker := ⟨[], 0⟩, ssi := ⟨[]⟩, lastCommit := fun _ => none, schemas := catalog
      storage, ariesWal, distributedRaft := none } := by
  have hydrated : ∀ (tables : List TableSchema) (engine : TakyonicEngine), ∃ storage,
      tables.foldl (fun engine schema => engine.hydrateBtreeFromLsm schema.name) engine = { engine with storage } := by
    intro tables
    induction tables with
    | nil => exact fun engine => ⟨engine.storage, rfl⟩
    | cons schema tables ih =>
      intro engine
      obtain ⟨first, here⟩ := engine.hydrateBtreeFromLsm_eq schema.name
      obtain ⟨storage, rest⟩ := ih { engine with storage := first }
      exact ⟨storage, by rw [List.foldl_cons, here, rest]⟩
  exact hydrated _ _

end TakyonicEngine

/-- A transaction in the hands of a client, with what it has asked and been told. -/
structure Work where
  txn : Transaction
  script : List (TxnOp × Reply)

inductive Outcome where
  | committed (commitTs : Nat)
  | failed (error : TakyonicError)
  | aborted
  deriving DecidableEq, Repr

/-- An acknowledged write: a committed transaction, or a single put or delete as one of one operation. -/
structure Deed where
  commitTs : Nat
  script : List (TxnOp × Reply)
  writes : List (Key × Option Value)

def Deed.entries (deed : Deed) : List Entry := deed.writes.map (RaftCommand.opEntry deed.commitTs)

/-- An engine and its clients. `deeds` are in the order of their acknowledgement, and `mark` is the largest
    watermark a merge has used. -/
structure World where
  engine : TakyonicEngine
  live : List Work
  ended : List (Work × Outcome)
  deeds : List Deed
  mark : Nat

inductive Op where
  | put (conditions : Conditions) (key : Key) (value : Value)
  | delete (conditions : Conditions) (key : Key)
  | begin (isolation : IsolationLevel)
  | perform (txnId : Nat) (op : TxnOp)
  | commit (conditions : Conditions) (txnId : Nat)
  | abort (txnId : Nat)
  | flush
  | background (move : Background)
  | attach (raft : RaftHandle)
  | close
  | reopen

namespace World

variable (library : Library) (world : World)

def history : List Entry := world.deeds.flatMap Deed.entries

def work (txnId : Nat) : Option Work := world.live.find? (·.txn.txnId = txnId)

def write (world : World) (op : TxnOp) (write : Key × Option Value) :
    TakyonicEngine × Except TakyonicError Unit → World
  | (engine, .ok ()) =>
    { world with engine, deeds := world.deeds ++ [⟨engine.store.node.lastApplied, [(op, .ok .done)], [write]⟩] }
  | (engine, .error _) => { world with engine }

def begin (isolation : IsolationLevel) : World :=
  match world.engine.beginWithIsolation isolation with
  | .ok (txn, engine) => { world with engine, live := world.live ++ [⟨txn, []⟩] }
  | .error _ => world

def perform (world : World) (work : Work) (op : TxnOp) : World :=
  let reader := world.engine.reader library work.txn.readTs
  let (reply, session) := (Transaction.perform reader op).run.run ⟨world.engine.ssi, work.txn⟩
  { world with
    engine := { world.engine with ssi := session.ssi }
    live := world.live.map fun other =>
      if other.txn.txnId = work.txn.txnId then ⟨session.txn, work.script ++ [(op, reply)]⟩ else other }

def finish (work : Work) (outcome : Outcome) : World :=
  { world with
    live := world.live.filter (·.txn.txnId ≠ work.txn.txnId)
    ended := world.ended ++ [(work, outcome)] }

def commit (world : World) (conditions : Conditions) (work : Work) : World :=
  match world.engine.commit library conditions work.txn with
  | (engine, .ok commitTs) =>
    let deeds := if work.txn.writes.isEmpty then world.deeds
      else world.deeds ++ [⟨commitTs, work.script, work.txn.writes.toList⟩]
    { world with engine, deeds }.finish work (.committed commitTs)
  | (engine, .error error) => { world with engine }.finish work (.failed error)

def reopen : World :=
  match TakyonicEngine.openInner library world.engine.store.config world.engine.disk with
  | .ok engine => { world with engine, live := [] }
  | .error _ => { world with engine := { world.engine with closed := true }, live := [] }

def step : Op → World
  | .put conditions key value =>
    world.write (.put key value) (key, some value) (world.engine.put library conditions key value)
  | .delete conditions key => world.write (.delete key) (key, none) (world.engine.delete library conditions key)
  | .begin isolation => world.begin isolation
  | .perform txnId op => (world.work txnId).elim world (world.perform library · op)
  | .commit conditions txnId => (world.work txnId).elim world (world.commit library conditions ·)
  | .abort txnId => (world.work txnId).elim world fun work =>
    { world with engine := world.engine.endTransaction work.txn.txnId }.finish work .aborted
  | .flush => { world with engine := world.engine.forceFlush.1 }
  | .background move =>
    { world with
      engine := { world.engine with store := world.engine.store.background move }
      mark := world.engine.store.markAfter world.mark move }
  | .attach raft => { world with engine := { world.engine with distributedRaft := some raft } }
  | .close => { world with engine := world.engine.close.1 }
  | .reopen => world.reopen library

end World

def Store.fresh (config : Config) : Store where
  config := config
  node := LocalRaftNode.create Memtable.empty 1
  manager := SstManager.create TakyonicEngine.defaultLevelCount 1 config.maxSstBytes ⟨[], []⟩
  wal := [(1, Wal.header)]
  walSegment := 1
  seqMarker := none
  jobs := []

def TakyonicEngine.fresh (config : Config) (catalog : List TableSchema) : TakyonicEngine :=
  mount (Store.fresh config) TxnWal.header catalog

def World.fresh (config : Config) (catalog : List TableSchema) : World :=
  ⟨TakyonicEngine.fresh config catalog, [], [], [], 0⟩

end Takyonic
