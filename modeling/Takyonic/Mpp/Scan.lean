import Takyonic.Storage.TransactionFrame
import Takyonic.Foundation.Gather
import Takyonic.Sql.Evaluate

/-! Partitioned tables: which partition a key belongs to, and which ones a predicate can reach. -/

namespace Takyonic

namespace Sql

open Foundation

def compareInts (first : Int) (op : FilterOp) (second : Int) : Bool :=
  match op with
  | .eq => first = second
  | .ne => first ≠ second
  | .gt => first > second
  | .gte => first ≥ second
  | .lt => first < second
  | .lte => first ≤ second

def matchesFilter (record : Record) (filter : Filter) : Bool :=
  match record.get filter.column with
  | none => false
  | some actual =>
    match Schema.parseI64 actual, Schema.parseI64 filter.value with
    | some first, some second => compareInts first filter.op second
    | _, _ => compareTexts actual filter.op filter.value

def keepsRow (schema : TableSchema) (filters : List Filter) (row : Record) : Bool :=
  (row.get schema.primaryKey).isSome && filters.all (matchesFilter row)

/-- `TableScanExec::open` -/
def tableScan (reader : Reader) (table : String) (filters : List Filter) : TxnM (List Record) := do
  let schema ← TxnM.ofExcept (reader.tableSchema table)
  let rows ← Transaction.scanTableRecords reader table
  return rows.filter (keepsRow schema filters)

def filterExec (ctx : ExecutionContext) (predicate : Expression) (rows : List Record) :
    Except TakyonicError (List Record) :=
  filterRows (fun row => evaluateBool ctx row predicate) rows

def filteredScan (reader : Reader) (ctx : ExecutionContext) (table : String) (filters : List Filter)
    (predicate : Option Expression) : TxnM (List Record) := do
  let rows ← tableScan reader table filters
  match predicate with
  | some predicate => TxnM.ofExcept (filterExec ctx predicate rows)
  | none => return rows

def projectRow (ctx : ExecutionContext) (row : Record) :
    List (String × Expression) → Record → Except TakyonicError Record
  | [], out => .ok out
  | (name, expr) :: rest, out => do
    let value ← evaluate ctx row expr
    projectRow ctx row rest (out.set name (valueToField value))

def projectExec (ctx : ExecutionContext) (columns : List (String × Expression)) :
    List Record → Except TakyonicError (List Record)
  | [] => .ok []
  | row :: rest => do
    let first ← projectRow ctx row columns Record.empty
    let others ← projectExec ctx columns rest
    pure (first :: others)

end Sql

open Foundation List
open Sql (Expression)

def hashPartition (library : Library) (key : String) (partitionCount : Nat) : Nat :=
  (library.xxh3 (utf8 key)).toNat % max partitionCount 1

namespace PartitioningStrategy

def column : PartitioningStrategy → Option String
  | .none => Option.none
  | .hash column _ => some column
  | .range column _ => some column

def partitionCount : PartitioningStrategy → Nat
  | .none => 1
  | .hash _ bucketCount => max bucketCount 1
  | .range _ bounds => max bounds.length 1

def rangeBefore (key : String) : List String → Nat → Nat
  | [], position => position
  | bound :: rest, position => if key < bound then position else rangeBefore key rest (position + 1)

def partitionId (library : Library) (strategy : PartitioningStrategy) (key : String) : Nat :=
  match strategy with
  | .none => 0
  | .hash _ bucketCount => hashPartition library key bucketCount
  | .range _ bounds => rangeBefore key bounds.tail 0

end PartitioningStrategy

structure WorkerEndpoint where
  nodeId : Nat
  slot : Nat
  deriving DecidableEq, Repr

def extractPartitionEq (column : String) : Expression → Option String
  | .binaryOp (.column name) .eq (.literal text) => if name = column then some text else none
  | .binaryOp (.literal text) .eq (.column name) => if name = column then some text else none
  | .and left right => (extractPartitionEq column left).or (extractPartitionEq column right)
  | _ => none

/-- The literals of an `OR` of equalities on the partition column. -/
def extractPartitionIn (column : String) : Expression → Option (List String)
  | .or left right => do
    let first ← ((extractPartitionEq column left).map ([·])).or (extractPartitionIn column left)
    let second ← ((extractPartitionEq column right).map ([·])).or (extractPartitionIn column right)
    pure (first ++ second)
  | _ => none

namespace PartitionRouter

variable (library : Library) (workers : List WorkerEndpoint) (schema : TableSchema)

def keyNode (partition : Nat) : Nat :=
  if schema.partitionMap ≠ [] then schema.partitionMap.getD partition (partition + 1)
  else
    match workers.find? (·.slot = partition) with
    | some worker => worker.nodeId
    | none =>
      match workers[partition]? with
      | some worker => worker.nodeId
      | none => partition + 1

def routeKey (key : String) : Nat × Nat :=
  if schema.partitioning = .none then (0, (workers.head?.map WorkerEndpoint.nodeId).getD 1)
  else
    let partition := schema.partitioning.partitionId library key
    (partition, keyNode workers schema partition)

def scanNode (partition : Nat) : Nat :=
  if schema.partitionMap ≠ [] then schema.partitionMap.getD partition (partition + 1)
  else
    match workers.find? (·.slot = partition) with
    | some worker => worker.nodeId
    | none => partition + 1

/-- The loop over the literals of an `OR`. -/
def routeKeys (keys : List String) : List (Nat × Nat) :=
  (keys.map (routeKey library workers schema)).foldl appendNew []

def routeEverywhere : List (Nat × Nat) :=
  (List.range schema.partitioning.partitionCount).map fun partition => (partition, scanNode workers schema partition)

def routePredicate (predicate : Option Expression) : List (Nat × Nat) :=
  let column := schema.partitioning.column.getD ""
  if schema.partitioning = .none then workers.map fun worker => (worker.slot, worker.nodeId)
  else
    match predicate.bind (extractPartitionEq column) with
    | some key => [routeKey library workers schema key]
    | none =>
      match predicate.bind (extractPartitionIn column) with
      | some keys => routeKeys library workers schema keys
      | none => routeEverywhere workers schema

end PartitionRouter

/-- `PartitionPruningRule::prune_workers` -/
def pruneWorkers (library : Library) (workers : List WorkerEndpoint) (schema : TableSchema)
    (predicate : Option Expression) : List (Nat × Nat) :=
  (PartitionRouter.routePredicate library workers schema predicate).map Prod.swap

def pinnedKeys (column : String) (predicate : Option Expression) : Option (List String) :=
  ((predicate.bind (extractPartitionEq column)).map ([·])).or (predicate.bind (extractPartitionIn column))

def timesRouted (library : Library) (workers : List WorkerEndpoint) (schema : TableSchema)
    (predicate : Option Expression) (partition : Nat) : Nat :=
  if schema.partitioning = .none then workers.countP (·.slot = partition)
  else
    match pinnedKeys (schema.partitioning.column.getD "") predicate with
    | some keys => if partition ∈ keys.map (schema.partitioning.partitionId library) then 1 else 0
    | none => if partition < schema.partitioning.partitionCount then 1 else 0

namespace PartitionRouter

variable {library : Library} {workers : List WorkerEndpoint} {schema : TableSchema}

theorem routeKey_eq (partitioned : schema.partitioning ≠ .none) (key : String) :
    routeKey library workers schema key =
      (schema.partitioning.partitionId library key,
        keyNode workers schema (schema.partitioning.partitionId library key)) :=
  if_neg partitioned

theorem routeKeys_count (partitioned : schema.partitioning ≠ .none) (keys : List String) (partition : Nat) :
    ((routeKeys library workers schema keys).map Prod.fst).count partition =
      if partition ∈ keys.map (schema.partitioning.partitionId library) then 1 else 0 := by
  have routed : ∀ target, target ∈ routeKeys library workers schema keys ↔
      ∃ key ∈ keys, target = (schema.partitioning.partitionId library key,
        keyNode workers schema (schema.partitioning.partitionId library key)) := by
    intro target
    simp only [routeKeys, mem_foldl_appendNew, not_mem_nil, false_or, mem_map, routeKey_eq partitioned, eq_comm]
  have distinct : ((routeKeys library workers schema keys).map Prod.fst).Nodup := by
    apply List.Nodup.map_on
    · intro first member second member' same
      obtain ⟨key, _, rfl⟩ := (routed first).mp member
      obtain ⟨key', _, rfl⟩ := (routed second).mp member'
      dsimp only at same
      rw [same]
    · exact nodup_foldl_appendNew _ nodup_nil
  rw [distinct.count]
  have members : partition ∈ (routeKeys library workers schema keys).map Prod.fst ↔
      partition ∈ keys.map (schema.partitioning.partitionId library) := by
    simp only [mem_map, routed]
    constructor
    · rintro ⟨_, ⟨key, member, rfl⟩, rfl⟩
      exact ⟨key, member, rfl⟩
    · rintro ⟨key, member, rfl⟩
      exact ⟨_, ⟨key, member, rfl⟩, rfl⟩
  simp only [members]

theorem routeEverywhere_count (partition : Nat) : ((routeEverywhere workers schema).map Prod.fst).count partition =
    if partition < schema.partitioning.partitionCount then 1 else 0 := by
  have numbered : (routeEverywhere workers schema).map Prod.fst = List.range schema.partitioning.partitionCount := by
    simp only [routeEverywhere, map_map, Function.comp_def, map_id']
  rw [numbered, nodup_range.count]
  simp only [mem_range]

end PartitionRouter

theorem pruneWorkers_count {schema : TableSchema} {predicate : Option Expression} (partition : Nat) :
    ((pruneWorkers library workers schema predicate).map Prod.snd).count partition =
      timesRouted library workers schema predicate partition := by
  have swapped : (pruneWorkers library workers schema predicate).map Prod.snd =
      (PartitionRouter.routePredicate library workers schema predicate).map Prod.fst := by
    simp only [pruneWorkers, map_map, Function.comp_def, Prod.snd_swap]
  rw [swapped]
  unfold PartitionRouter.routePredicate timesRouted pinnedKeys
  dsimp only
  split
  · simp only [Function.comp_def, List.count, countP_map, Bool.beq_eq_decide_eq]
  rename_i partitioned
  cases predicate.bind (extractPartitionEq (schema.partitioning.column.getD "")) with
  | some key => exact PartitionRouter.routeKeys_count partitioned [key] partition
  | none =>
    cases predicate.bind (extractPartitionIn (schema.partitioning.column.getD "")) with
    | some keys => exact PartitionRouter.routeKeys_count partitioned keys partition
    | none => exact PartitionRouter.routeEverywhere_count partition

/-! Distributed scans: the fragments that a scan is cut into, and what the coordinator gathers from workers that
share one engine. -/

open Sql

def Session.fresh : Session where
  ssi := ⟨[]⟩
  txn := { txnId := 0, readTs := 0, isolation := .snapshot, reads := ∅, writes := ∅, finished := false }

open Session

inductive FragmentSpec where
  | partitionedScan (table : String) (partitionId partitionCount : Nat)
  deriving DecidableEq, Repr

namespace MppWorker

variable (library : Library) (reader : Reader)

def tableRows (table : String) : Except TakyonicError (List Record) :=
  ((Transaction.scanTableRecords reader table).exec fresh).1

def rowPartition (schema : TableSchema) (partitionCount : Nat) (row : Record) : Nat :=
  hashPartition library ((row.get schema.primaryKey).getD "") partitionCount

def scanPartition (table : String) (partitionId partitionCount : Nat) : Except TakyonicError (List Record) := do
  let schema ← reader.tableSchema table
  let rows ← tableRows reader table
  pure (rows.filter (rowPartition library schema partitionCount · = partitionId))

def executeFragment : FragmentSpec → Except TakyonicError (List Record)
  | .partitionedScan table partitionId partitionCount =>
    scanPartition library reader table partitionId partitionCount

end MppWorker

namespace Fragmenter

variable (library : Library) (workers : List WorkerEndpoint)

def partitionCount : Nat := max workers.length 1

def scanCount (schema : Option TableSchema) : Nat :=
  match schema with
  | some schema => max (max schema.partitioning.partitionCount (partitionCount workers)) 1
  | none => max (partitionCount workers) 1

def fragmentPartitionedScan (table : String) (schema : Option TableSchema) (predicate : Option Expression) :
    List (Nat × FragmentSpec) :=
  let targets : List (Nat × Nat) := match schema with
    | some schema => pruneWorkers library workers schema predicate
    | none => workers.map fun worker => (worker.nodeId, worker.slot)
  targets.map fun (nodeId, partition) => (nodeId, .partitionedScan table partition (scanCount workers schema))

end Fragmenter

namespace MppCoordinator

variable (library : Library) (workers : List WorkerEndpoint) (reader : Reader)

def dispatchAll : List (Nat × FragmentSpec) → Except TakyonicError (List Record)
  | [] => .ok []
  | (_, fragment) :: rest => do
    let rows ← MppWorker.executeFragment library reader fragment
    let others ← dispatchAll rest
    pure (rows ++ others)

def executeDistributedScan (functions : Functions) (table : String) (predicate : Option Expression) :
    Except TakyonicError (List Record) := do
  let schema ← reader.tableSchema table
  let fragments := Fragmenter.fragmentPartitionedScan library workers table (some schema) predicate
  let rows ← dispatchAll library reader fragments
  match predicate with
  | some predicate => filterExec ⟨functions, []⟩ predicate rows
  | none => pure rows

def localScan (functions : Functions) (table : String) (predicate : Option Expression) :
    Except TakyonicError (List Record) :=
  ((filteredScan reader ⟨functions, []⟩ table [] predicate).exec fresh).1

/-- The test of a `WHERE` clause, if there is one. -/
def rowTest (functions : Functions) (predicate : Option Expression) (row : Record) : Except TakyonicError Bool :=
  match predicate with
  | some predicate => evaluateBool ⟨functions, []⟩ row predicate
  | none => .ok true

variable {library workers reader} {table : String} {schema : TableSchema} {rows : List Record}

theorem dispatchAll_scans {count : Nat} (known : reader.tableSchema table = .ok schema)
    (scanned : MppWorker.tableRows reader table = .ok rows) (targets : List (Nat × Nat)) :
    dispatchAll library reader
        (targets.map fun (nodeId, partition) => (nodeId, .partitionedScan table partition count)) =
      .ok (gather (MppWorker.rowPartition library schema count) (targets.map Prod.snd) rows) := by
  induction targets with
  | nil => rfl
  | cons target rest ih =>
    have here : MppWorker.executeFragment library reader (.partitionedScan table target.2 count) =
        .ok (rows.filter (MppWorker.rowPartition library schema count · = target.2)) := by
      simp only [MppWorker.executeFragment, MppWorker.scanPartition, known, scanned]
      rfl
    simp only [List.map_cons, dispatchAll, here, ih]
    rfl

theorem filterRows_rowTest_none (functions : Functions) (rows : List Record) :
    filterRows (rowTest functions none) rows = .ok rows := by
  rw [filterRows_passes]
  · simp [passes, rowTest]
  · rintro row _ ⟨error, failed⟩
    cases failed

section

variable (functions : Functions) (predicate : Option Expression) (known : reader.tableSchema table = .ok schema)
  (scanned : MppWorker.tableRows reader table = .ok rows)
include functions predicate known scanned

theorem executeDistributedScan_eq :
    executeDistributedScan library workers reader functions table predicate =
      filterRows (rowTest functions predicate)
        (gather (MppWorker.rowPartition library schema (Fragmenter.scanCount workers (some schema)))
          ((pruneWorkers library workers schema predicate).map Prod.snd) rows) := by
  simp only [executeDistributedScan, known, Fragmenter.fragmentPartitionedScan,
    dispatchAll_scans known scanned]
  cases predicate with
  | some predicate => rfl
  | none => exact (filterRows_rowTest_none functions _).symm

theorem localScan_eq :
    localScan reader functions table predicate =
      filterRows (rowTest functions predicate) (rows.filter (keepsRow schema [])) := by
  unfold MppWorker.tableRows at scanned
  rcases run : (Transaction.scanTableRecords reader table).exec fresh with ⟨answer, after⟩
  rw [run] at scanned
  subst scanned
  have kept : (tableScan reader table []).exec fresh = (.ok (rows.filter (keepsRow schema [])), after) := by
    simp only [tableScan, TxnM.exec_bind, TxnM.exec_ofExcept, known, run, TxnM.exec_pure]
  simp only [localScan, filteredScan, TxnM.exec_bind, kept]
  cases predicate with
  | some predicate => rfl
  | none => exact (filterRows_rowTest_none functions _).symm

end

/-- The rows that a distributed scan has to see: those that pass the predicate fall into a bucket that gets one
    fragment, unless they hold no primary key; and if the predicate fails somewhere, it fails on a row that is
    scanned. -/
def Covers (library : Library) (workers : List WorkerEndpoint) (functions : Functions) (schema : TableSchema)
    (predicate : Option Expression) (rows : List Record) : Prop :=
  let test := rowTest functions predicate
  let times (row : Record) := timesRouted library workers schema predicate
    (MppWorker.rowPartition library schema (Fragmenter.scanCount workers (some schema)) row)
  let keyed (row : Record) := (row.get schema.primaryKey).isSome
  ((∃ row ∈ rows, Fails test row ∧ 0 < times row) ↔ ∃ row ∈ rows, Fails test row ∧ keyed row = true) ∧
    ((∀ row ∈ rows, keyed row = true → ¬ Fails test row) → ∀ row ∈ rows, passes test row = true →
      times row = if keyed row then 1 else 0)

theorem executeDistributedScan_agrees_iff (library : Library) (workers : List WorkerEndpoint) (reader : Reader)
    (functions : Functions) (table : String) (schema : TableSchema) (rows : List Record) (predicate : Option Expression)
    (known : reader.tableSchema table = .ok schema) (scanned : MppWorker.tableRows reader table = .ok rows) :
    SameRows (executeDistributedScan library workers reader functions table predicate)
      (localScan reader functions table predicate) ↔ Covers library workers functions schema predicate rows := by
  rw [executeDistributedScan_eq functions predicate known scanned, localScan_eq functions predicate known scanned,
    gather_sameRows_iff]
  have keyed : keepsRow schema [] = fun row => (row.get schema.primaryKey).isSome := by
    funext row
    simp only [keepsRow, List.all_nil, Bool.and_true]
  simp only [keyed, Covers, ← pruneWorkers_count, List.count_pos_iff]

def oneLibrary : Library := { Library.plain with xxh3 := fun _ => 1 }

/-- XXH3 of one to three bytes, with the seed 0. -/
def xxh3Short (bytes : Bytes) : UInt64 :=
  let byte (index : Nat) : UInt64 := (bytes.getD index 0).toUInt64
  let length := bytes.length
  let combined := byte 0 <<< 16 ||| byte (length / 2) <<< 24 ||| byte (length - 1) ||| UInt64.ofNat length <<< 8
  let hash := combined ^^^ 0x87275A9B
  let hash := (hash ^^^ (hash >>> 33)) * 0xC2B2AE3D27D4EB4F
  let hash := (hash ^^^ (hash >>> 29)) * 0x165667B19E3779F9
  hash ^^^ (hash >>> 32)

example : xxh3Short (utf8 "abc") = 0x78AF5F94892F3950 := by decide +kernel

def shortLibrary : Library := { Library.plain with xxh3 := xxh3Short }

def hashedSchema (bucketCount : Nat) : TableSchema :=
  { name := "t", primaryKey := "id", indexes := [], storageEngine := .lsm, partitioning := .hash "id" bucketCount }

def tableReader (schema : TableSchema) (rows : List Record) : Reader where
  get key := .ok ((rows.find? fun row => Schema.dataKey "t" ((row.get "id").getD "") = key).map Record.encode, 0)
  scanPrefixKeys _ := .ok (rows.map fun row => Schema.dataKey "t" ((row.get "id").getD ""))
  tableSchema table := if table = "t" then .ok schema else .error (.engine "unknown table")

def twoWorkers : List WorkerEndpoint := [⟨1, 0⟩, ⟨2, 1⟩]

theorem executeDistributedScan_agrees_filtered :
    let rows : List Record := [⟨[("id", "1"), ("v", "5")]⟩, ⟨[("id", "4"), ("v", "7")]⟩, ⟨[("id", "6"), ("v", "2")]⟩]
    let predicate : Expression := .binaryOp (.column "v") .gt (.literal "3")
    SameRows (executeDistributedScan shortLibrary twoWorkers (tableReader (hashedSchema 2) rows) .plain "t"
      (some predicate)) (localScan (tableReader (hashedSchema 2) rows) .plain "t" (some predicate)) := by
  intro rows predicate
  have tested : ∀ row ∈ rows, ¬ Fails (rowTest .plain (some predicate)) row := by
    have ran : ∀ row ∈ rows, (rowTest .plain (some predicate) row).isOk = true := by decide +kernel
    rintro row member ⟨error, failed⟩
    have answered := ran row member
    rw [failed] at answered
    cases answered
  apply (executeDistributedScan_agrees_iff shortLibrary twoWorkers _ .plain "t" (hashedSchema 2) rows (some predicate)
    (by decide +kernel) (by decide +kernel)).mpr
  constructor
  · exact iff_of_false (fun ⟨row, member, fails, _⟩ => tested row member fails)
      (fun ⟨row, member, fails, _⟩ => tested row member fails)
  · intro _
    decide +kernel

/-- With more workers than buckets the rows are divided by the number of workers and the buckets beyond the
    table's own get no fragment. -/
theorem bucket_without_fragment_lost :
    let reader := tableReader (hashedSchema 1) [⟨[("id", "1")]⟩, ⟨[("id", "4")]⟩]
    executeDistributedScan shortLibrary twoWorkers reader .plain "t" none = .ok [⟨[("id", "1")]⟩] ∧
      localScan reader .plain "t" none = .ok [⟨[("id", "1")]⟩, ⟨[("id", "4")]⟩] := by
  decide +kernel

end MppCoordinator

end Takyonic
