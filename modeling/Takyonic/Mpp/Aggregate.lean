import Takyonic.Mpp.Scan
import Takyonic.Sql.Aggregate

/-! Distributed aggregates: the partial aggregate of each worker's share, and what the coordinator makes of them. -/

namespace Takyonic

open Foundation List Option Sql MppWorker Record Fragmenter

inductive DistAggKind where
  | count
  | sum (column : String)
  | min (column : String)
  | max (column : String)
  | avg (column : String)
  deriving DecidableEq, Repr

namespace DistAggKind

def column : DistAggKind → Option String
  | .count => none
  | .sum column => some column
  | .min column => some column
  | .max column => some column
  | .avg column => some column

def resultName : DistAggKind → String
  | .count => "COUNT(*)"
  | .sum column => "SUM(" ++ column ++ ")"
  | .min column => "MIN(" ++ column ++ ")"
  | .max column => "MAX(" ++ column ++ ")"
  | .avg column => "AVG(" ++ column ++ ")"

end DistAggKind

structure PartialState where
  sum : Int64
  count : Int64
  min : Option Int64
  max : Option Int64
  deriving DecidableEq, Repr

namespace PartialState

def empty : PartialState := ⟨0, 0, none, none⟩

def lower (current : Option Int64) (number : Int64) : Option Int64 :=
  some (match current with
    | some least => if number < least then number else least
    | none => number)

def upper (current : Option Int64) (number : Int64) : Option Int64 :=
  some (match current with
    | some greatest => if greatest < number then number else greatest
    | none => number)

def parse (text : Option String) : Option Int64 := (text.bind Schema.parseI64).map Int64.ofInt

def addRow (agg : DistAggKind) (row : Record) (state : PartialState) : PartialState :=
  match parse (agg.column.bind row.get) with
  | some number => ⟨Sql.saturatingAdd state.sum number, state.count + 1, lower state.min number, upper state.max number⟩
  | none => { state with count := state.count + 1 }

def addPartial (row : Record) (state : PartialState) : PartialState where
  sum := match parse (row.get "partial_sum") with
    | some number => Sql.saturatingAdd state.sum number
    | none => state.sum
  count := match parse (row.get "partial_count") with
    | some number => Sql.saturatingAdd state.count number
    | none => state.count
  min := match parse (row.get "partial_min") with
    | some number => lower state.min number
    | none => state.min
  max := match parse (row.get "partial_max") with
    | some number => upper state.max number
    | none => state.max

end PartialState

def updateGroup (key : String) (step : PartialState → PartialState) :
    List (String × PartialState) → List (String × PartialState)
  | [] => [(key, step .empty)]
  | (known, state) :: rest =>
    if known = key then (known, step state) :: rest else (known, state) :: updateGroup key step rest

def groupRows (step : Record → PartialState → PartialState) (groupColumn : String) (rows : List Record) :
    List (String × PartialState) :=
  rows.foldl (fun groups row => updateGroup ((row.get groupColumn).getD "") (step row) groups) []

def intText (number : Int64) : String := toString number.toInt

def partialRow (groupColumn : String) (agg : DistAggKind) (group : String × PartialState) : Record :=
  let state := group.2
  let base := (Record.empty.set groupColumn group.1).set "partial_count" (intText state.count)
  match agg with
  | .count => base
  | .sum _ => base.set "partial_sum" (intText state.sum)
  | .avg _ => base.set "partial_sum" (intText state.sum)
  | .min _ =>
    match state.min with
    | some least => base.set "partial_min" (intText least)
    | none => base
  | .max _ =>
    match state.max with
    | some greatest => base.set "partial_max" (intText greatest)
    | none => base

def partialAggregate (rows : List Record) (groupColumn : String) (agg : DistAggKind) : List Record :=
  (groupRows (PartialState.addRow agg) groupColumn rows).map (partialRow groupColumn agg)

def finalValue (agg : DistAggKind) (state : PartialState) : String :=
  match agg with
  | .count => intText state.count
  | .sum _ => intText state.sum
  | .min _ => intText (state.min.getD 0)
  | .max _ => intText (state.max.getD 0)
  | .avg _ => if state.count = 0 then "0" else intText (state.sum / state.count)

def finalRow (groupColumn : String) (agg : DistAggKind) (group : String × PartialState) : Record :=
  (Record.empty.set groupColumn group.1).set agg.resultName (finalValue agg group.2)

def mergePartialAggregates (rows : List Record) (groupColumn : String) (agg : DistAggKind) : List Record :=
  let groups := groupRows PartialState.addPartial groupColumn rows
  (groups.insertionSort fun first second => ¬ second.1 < first.1).map (finalRow groupColumn agg)

abbrev ShuffleQueues := Nat → Nat

/-- `DEFAULT_SHUFFLE_BUFFER` -/
def shuffleCapacity : Nat := 64

def shufflePartition (library : Library) (groupColumn : String) (partitionCount : Nat) (row : Record) : Nat :=
  let hash := (library.xxh3 (utf8 ((row.get groupColumn).getD ""))).toBitVec
  (hash.rotateLeft 13).toNat % max partitionCount 1

namespace ShuffleManager

def trySend (capacity queued : Nat) : Option Nat :=
  if queued < max capacity 1 then some (queued + 1) else none

/-- The loop of `push_blocking`, given up after `tries` sends. Nobody fetches before all workers are done, so a buffer
    that is full stays full. -/
def sendRows (capacity queued : Nat) : Nat → Option Nat
  | 0 => none
  | tries + 1 => (trySend capacity queued).or (sendRows capacity queued tries)

def pushBlocking (capacity tries queued : Nat) (batch : List Record) : Option Nat := do
  let queued ← if batch.isEmpty then some queued else sendRows capacity queued tries
  -- the end mark is left out of a full buffer
  some ((trySend capacity queued).getD queued)

variable (capacity tries : Nat)

theorem sendRows_succ (queued : Nat) : sendRows capacity queued (tries + 1) = trySend capacity queued := by
  induction tries with
  | zero => simp [sendRows]
  | succ tries ih =>
    rw [sendRows, ih]
    simp

theorem pushBlocking_succ : pushBlocking capacity (tries + 1) = pushBlocking capacity 1 := by
  funext queued batch
  simp only [pushBlocking, sendRows_succ]

/-- A buffer holds what was pushed, up to its capacity. -/
theorem pushBlocking_eq (level : Nat) (batch : List Record) :
    pushBlocking capacity 1 (min (max capacity 1) level) batch =
      if batch.isEmpty || level < max capacity 1
        then some (min (max capacity 1) (level + if batch.isEmpty then 1 else 2)) else none := by
  simp only [pushBlocking, sendRows_succ, trySend]
  generalize max capacity 1 = bound
  cases batch.isEmpty <;> grind

end ShuffleManager

namespace MppCoordinator

section

variable (push : Nat → List Record → Option Nat) (library : Library) (reader : Reader) (groupColumn table : String)
  (agg : DistAggKind) (partitionCount : Nat)

def batch (rows : List Record) (partition : Nat) : List Record :=
  rows.filter (shufflePartition library groupColumn partitionCount · = partition)

def pushPartials (rows : List Record) (queues : ShuffleQueues) : Option ShuffleQueues :=
  (range partitionCount).foldlM (fun queues partition =>
    (push (queues partition) (batch library groupColumn partitionCount rows partition)).map
      (Function.update queues partition)) queues

def dispatchPushing : List WorkerEndpoint → ShuffleQueues → Option (Except TakyonicError (List Record))
  | [], _ => some (.ok [])
  | worker :: rest, queues =>
    match MppWorker.scanPartition library reader table worker.slot partitionCount with
    | .error error => some (.error error)
    | .ok rows => do
      let share := partialAggregate rows groupColumn agg
      let queues ← pushPartials push library groupColumn partitionCount share queues
      let others ← dispatchPushing rest queues
      some (others.map (share ++ ·))

/-- `execute_distributed_aggregate`, where every worker pushes into the same buffers. -/
def executePushing (workers : List WorkerEndpoint) : Option (Except TakyonicError (List Record)) := do
  let partials ← dispatchPushing push library reader groupColumn table agg (Fragmenter.partitionCount workers) workers
    fun _ => 0
  some (partials.map (mergePartialAggregates · groupColumn agg))

end

def executeDistributedAggregate (library : Library) (workers : List WorkerEndpoint) (reader : Reader)
    (table groupColumn : String) (agg : DistAggKind) : Option (Except TakyonicError (List Record)) :=
  executePushing (ShuffleManager.pushBlocking shuffleCapacity 1) library reader groupColumn table agg workers

end MppCoordinator

/-- The single `GROUP BY` column and aggregate that the coordinator can execute. -/
def extractDistAgg (groupExprs aggrExprs : List Expression) : Option (String × DistAggKind) :=
  match groupExprs, aggrExprs with
  | [.column group], [.aggregateFunction name args _ false _] =>
    let lower := Sql.toAsciiLowercase name
    match args with
    | .column column :: _ =>
      if lower = "count" then some (group, .count)
      else if lower = "sum" then some (group, .sum column)
      else if lower = "min" then some (group, .min column)
      else if lower = "max" then some (group, .max column)
      else if lower = "avg" then some (group, .avg column)
      else none
    | [] => if lower = "count" then some (group, .count) else none
    | _ => none
  | _, _ => none

def distAggTable : LogicalPlan → Option String
  | .select table _ _ => some table
  | .project (.select table _ _) _ => some table
  | .filter (.select table _ _) _ => some table
  | _ => none

def distAggParams (input : LogicalPlan) (groupExprs aggrExprs : List Expression) :
    Option (String × String × DistAggKind) := do
  let table ← distAggTable input
  let (group, agg) ← extractDistAgg groupExprs aggrExprs
  some (table, group, agg)

/-! Distributed aggregates against the local hash aggregate. -/

namespace MppCoordinator

def localInput (reader : Reader) (ctx : ExecutionContext) : LogicalPlan → Except TakyonicError (List Record)
  | .select table filters predicate => ((filteredScan reader ctx table filters predicate).exec Session.fresh).1
  | .project (.select table filters predicate) columns => do
    let rows ← ((filteredScan reader ctx table filters predicate).exec Session.fresh).1
    projectExec ctx columns rows
  | .filter (.select table filters predicate) condition => do
    let rows ← ((filteredScan reader ctx table filters predicate).exec Session.fresh).1
    filterExec ctx condition rows
  | _ => .error (.sql "not the scan of one table")

def localAggregate (reader : Reader) (ctx : ExecutionContext) (input : LogicalPlan)
    (groupExprs aggrExprs : List Expression) : Except TakyonicError (List Record) := do
  let rows ← localInput reader ctx input
  aggregateExec ctx groupExprs aggrExprs rows

end MppCoordinator

theorem updateGroup_ne_nil : updateGroup key step groups ≠ [] := by
  cases groups with
  | nil => exact cons_ne_nil _ _
  | cons group rest =>
    unfold updateGroup
    split
    · exact cons_ne_nil _ _
    · exact cons_ne_nil _ _

variable {groupColumn : String} {rows : List Record} {agg : DistAggKind} {name : String} {args : List Expression}
  {filter : Option Expression} {orderBy : List SortExpr}

theorem groupRows_eq_nil {step : Record → PartialState → PartialState} :
    groupRows step groupColumn rows = [] ↔ rows = [] := by
  unfold groupRows
  constructor
  · intro none_here
    cases rows using List.reverseRecOn with
    | nil => rfl
    | append_singleton rest row =>
      rw [foldl_append] at none_here
      exact absurd none_here updateGroup_ne_nil
  · rintro rfl
    rfl

theorem mergePartialAggregates_eq_nil : mergePartialAggregates rows groupColumn agg = [] ↔ rows = [] := by
  unfold mergePartialAggregates
  rw [map_eq_nil_iff]
  constructor
  · intro none_here
    apply groupRows_eq_nil.mp
    have same := perm_insertionSort (fun first second : String × PartialState => ¬ second.1 < first.1)
      (groupRows PartialState.addPartial groupColumn rows)
    rw [none_here] at same
    exact same.symm.eq_nil
  · rintro rfl
    rfl

theorem partialAggregate_eq_nil : partialAggregate rows groupColumn agg = [] ↔ rows = [] := by
  unfold partialAggregate
  rw [map_eq_nil_iff]
  exact groupRows_eq_nil

namespace MppCoordinator

variable (library : Library) {workers : List WorkerEndpoint} {reader : Reader} {table : String}
  (groupColumn : String)
  (agg : DistAggKind) {schema : TableSchema} {rows : List Record}

def share (library : Library) (schema : TableSchema) (groupColumn : String) (agg : DistAggKind) (partitionCount : Nat)
    (rows : List Record) (worker : WorkerEndpoint) : List Record :=
  partialAggregate (rows.filter (rowPartition library schema partitionCount · = worker.slot)) groupColumn agg

variable {count capacity : Nat} {queues level : ShuffleQueues}

/-- Every batch finds room in its buffer. `level` counts what the workers before have pushed for each partition: an end
    mark, and the batch if there is one. -/
def room (library : Library) (groupColumn : String) (partitionCount capacity : Nat) (level : ShuffleQueues) :
    List (List Record) → Bool
  | [] => true
  | share :: rest =>
    let batch := batch library groupColumn partitionCount share
    (range partitionCount).all (fun partition => (batch partition).isEmpty || level partition < max capacity 1) &&
      room library groupColumn partitionCount capacity
        (fun partition => level partition + if (batch partition).isEmpty then 1 else 2) rest

theorem room_of_nil {shares : List (List Record)} (empty : ∀ share ∈ shares, share = []) :
    room library groupColumn count capacity level shares = true := by
  induction shares generalizing level with
  | nil => rfl
  | cons share rest ih =>
    rw [forall_mem_cons] at empty
    rw [room, ih empty.2, empty.1]
    simp [batch]

theorem pushPartials_eq (tracks : ∀ partition < count, queues partition = min (max capacity 1) (level partition))
    (rows : List Record) :
    let batch := batch library groupColumn count rows
    let pushed := pushPartials (ShuffleManager.pushBlocking capacity 1) library groupColumn count rows queues
    if (range count).all (fun partition => (batch partition).isEmpty || level partition < max capacity 1)
    then ∃ after, pushed = some after ∧ ∀ partition < count, after partition =
      min (max capacity 1) (level partition + if (batch partition).isEmpty then 1 else 2)
    else pushed = none := by
  intro batch pushed
  have loop := @foldlM_update _ _ _ (fun partition queued => ShuffleManager.pushBlocking capacity 1 queued
    (batch partition)) (range count) nodup_range queues
  have step : ∀ partition < count, ShuffleManager.pushBlocking capacity 1 (queues partition) (batch partition) =
      if (batch partition).isEmpty || level partition < max capacity 1
        then some (min (max capacity 1) (level partition + if (batch partition).isEmpty then 1 else 2)) else none := by
    intro partition inside
    rw [tracks partition inside, ShuffleManager.pushBlocking_eq]
  split
  · rename_i fits
    have fits : ∀ partition < count, ((batch partition).isEmpty || level partition < max capacity 1) = true := by
      simpa using fits
    rw [if_pos fun partition member => ?_] at loop
    · refine ⟨_, loop, fun partition inside => ?_⟩
      rw [if_pos (mem_range.mpr inside), step partition inside, if_pos (fits partition inside), getD_some]
    · rw [step partition (mem_range.mp member), if_pos (fits partition (mem_range.mp member))]
      rfl
  · rename_i stuck
    simp only [List.all_eq_true, mem_range, not_forall] at stuck
    obtain ⟨partition, inside, full⟩ := stuck
    rw [if_neg fun fits => ?_] at loop
    · exact loop
    · have sent := fits partition (mem_range.mpr inside)
      rw [step partition inside, if_neg full] at sent
      cases sent

section

variable (known : reader.tableSchema table = .ok schema)
include known

section

variable (scanned : tableRows reader table = .ok rows)
include scanned

theorem scanPartition_eq (partition : Nat) :
    scanPartition library reader table partition count =
      .ok (rows.filter (rowPartition library schema count · = partition)) := by
  simp only [scanPartition, known, scanned]
  rfl

theorem dispatchPushing_eq (tracks : ∀ partition < count, queues partition = min (max capacity 1) (level partition))
    (workers : List WorkerEndpoint) :
    dispatchPushing (ShuffleManager.pushBlocking capacity 1) library reader groupColumn table agg count workers
        queues =
      if room library groupColumn count capacity level
          (workers.map (share library schema groupColumn agg count rows))
        then some (.ok (workers.flatMap (share library schema groupColumn agg count rows))) else none := by
  induction workers generalizing queues level with
  | nil => rfl
  | cons worker rest ih =>
    have pushed := pushPartials_eq library groupColumn tracks
      (share library schema groupColumn agg count rows worker)
    rw [dispatchPushing, scanPartition_eq library known scanned, map_cons, room]
    dsimp only at pushed ⊢
    rw [← share]
    split at pushed
    · rename_i fits
      obtain ⟨after, sent, tracks⟩ := pushed
      rw [fits, Bool.true_and, sent]
      simp only [bind_eq_bind, bind_some]
      rw [ih tracks]
      split <;> rfl
    · rename_i stuck
      rw [pushed, Bool.eq_false_iff.mpr stuck]
      rfl

theorem executePushing_eq (capacity : Nat) (workers : List WorkerEndpoint) :
    let shares := share library schema groupColumn agg (partitionCount workers) rows
    executePushing (ShuffleManager.pushBlocking capacity 1) library reader groupColumn table agg workers =
      if room library groupColumn (partitionCount workers) capacity (fun _ => 0) (workers.map shares)
        then some (.ok (mergePartialAggregates (workers.flatMap shares) groupColumn agg)) else none := by
  have empty : ∀ partition < partitionCount workers, (0 : Nat) = min (max capacity 1) 0 :=
    fun _ _ => (Nat.min_zero _).symm
  intro shares
  rw [executePushing, dispatchPushing_eq library groupColumn agg known scanned empty]
  split <;> rfl

theorem executeDistributedAggregate_cases :
    let all := workers.flatMap (share library schema groupColumn agg (partitionCount workers) rows)
    executeDistributedAggregate library workers reader table groupColumn agg =
        some (.ok (mergePartialAggregates all groupColumn agg)) ∨
      executeDistributedAggregate library workers reader table groupColumn agg = none ∧ all ≠ [] := by
  intro all
  rw [executeDistributedAggregate, executePushing_eq library groupColumn agg known scanned]
  split
  · exact .inl rfl
  · rename_i stuck
    refine .inr ⟨rfl, fun nothing => stuck (room_of_nil library groupColumn ?_)⟩
    simpa [all, flatMap_eq_nil_iff] using nothing

end

end

theorem shares_eq_nil {partitionCount : Nat} :
    workers.flatMap (share library schema groupColumn agg partitionCount rows) = [] ↔
      ∀ row ∈ rows, ∀ worker ∈ workers, worker.slot ≠ rowPartition library schema partitionCount row := by
  simp only [share, flatMap_eq_nil_iff, partialAggregate_eq_nil, filter_eq_nil_iff, decide_eq_true_eq]
  constructor
  · intro apart row inside worker member same
    exact apart worker member row inside same.symm
  · intro apart worker member row inside same
    exact apart row inside worker member same.symm

end MppCoordinator

theorem extractDistAgg_cases {groupExprs aggrExprs : List Expression}
    (extracted : extractDistAgg groupExprs aggrExprs = some (groupColumn, agg)) :
    groupExprs = [.column groupColumn] ∧ ∃ name args filter orderBy,
      aggrExprs = [.aggregateFunction name args filter false orderBy] ∧
      toAsciiLowercase name ∈ ["count", "sum", "min", "max", "avg"] := by
  unfold extractDistAgg at extracted
  split at extracted
  · rename_i group name args filter orderBy
    have named : groupColumn = group ∧ toAsciiLowercase name ∈ ["count", "sum", "min", "max", "avg"] := by grind
    exact ⟨by rw [named.1], name, args, filter, orderBy, rfl, named.2⟩
  · cases extracted

theorem resultName_head (agg : DistAggKind) : agg.resultName.toList.head?.any Char.isUpper = true := by
  cases agg with
  | count => decide
  | _ => simp [DistAggKind.resultName]

section

variable (lower : toAsciiLowercase name ∈ ["count", "sum", "min", "max", "avg"])
include lower

theorem aggrOutputName_head :
    (aggrOutputName (.aggregateFunction name args filter false orderBy)).toList.head?.any Char.isUpper = false := by
  have starts : ∃ rest, aggrOutputName (.aggregateFunction name args filter false orderBy) =
      toAsciiLowercase name ++ rest := by
    unfold aggrOutputName
    dsimp only
    split
    · split
      · exact ⟨"(*)" ++ " filter", String.append_assoc⟩
      · exact ⟨_, by simp only [String.append_assoc]; rfl⟩
    · split
      · exact ⟨"(*)", rfl⟩
      · exact ⟨_, by simp only [String.append_assoc]; rfl⟩
  obtain ⟨rest, same⟩ := starts
  rw [same, String.toList_append]
  have five := lower
  simp only [mem_cons, not_mem_nil, or_false] at five
  rcases five with here | here | here | here | here
  all_goals
    rw [here]
    rfl

theorem resultName_ne : agg.resultName ≠ aggrOutputName (.aggregateFunction name args filter false orderBy) := by
  intro same
  have upper := resultName_head agg
  rw [same, aggrOutputName_head lower] at upper
  cases upper

end

namespace MppCoordinator

theorem finalRow_ne_emitGroup {ctx : ExecutionContext} {expr : Expression} {final : String × PartialState}
    {group : List Sql.Value × List Sql.Accumulator} (shaped : group.2.length = 1)
    (differ : agg.resultName ≠ Sql.aggrOutputName expr) :
    Sql.emitGroup ctx [.column groupColumn] [expr] group ≠ .ok (finalRow groupColumn agg final) := by
  intro same
  obtain ⟨key, accumulators⟩ := group
  obtain ⟨accumulator, rfl⟩ := length_eq_one_iff.mp shaped
  obtain ⟨value, _, same⟩ := bind_eq_ok same
  have fields := Except.ok.inj same
  have wanted : ∀ name,
      (finalRow groupColumn agg final).get name ≠ none ↔ name = groupColumn ∨ name = agg.resultName := by
    intro name
    simp only [finalRow, get_set]
    grind [Record.get, Record.empty]
  have given : ∀ name, (finalRow groupColumn agg final).get name ≠ none ↔
      name = groupColumn ∨ name = Sql.aggrOutputName expr := by
    intro name
    rw [← fields]
    show ((empty.set groupColumn _).set (Sql.aggrOutputName expr) _).get name ≠ none ↔ _
    simp only [get_set]
    grind [Record.get, Record.empty]
  have first := (wanted agg.resultName).symm.trans (given agg.resultName)
  have second := (wanted (Sql.aggrOutputName expr)).symm.trans (given (Sql.aggrOutputName expr))
  grind

/-- The two paths give the same rows exactly when there is nothing to aggregate: no row of the table falls to a
    worker, and no row is left by the `WHERE` clause. -/
theorem executeDistributedAggregate_eq_local_iff (library : Library) (workers : List WorkerEndpoint) (reader : Reader)
    (ctx : ExecutionContext) (input : LogicalPlan) (groupExprs aggrExprs : List Expression)
    (table groupColumn : String) (agg : DistAggKind) (schema : TableSchema) (rows : List Record)
    (dispatched : distAggParams input groupExprs aggrExprs = some (table, groupColumn, agg))
    (planned : ∃ fresh, freshAccumulators ctx aggrExprs = .ok fresh)
    (known : reader.tableSchema table = .ok schema) (scanned : tableRows reader table = .ok rows) :
    executeDistributedAggregate library workers reader table groupColumn agg =
        some (localAggregate reader ctx input groupExprs aggrExprs) ↔
      (∀ row ∈ rows, ∀ worker ∈ workers, worker.slot ≠ rowPartition library schema (partitionCount workers) row) ∧
      localInput reader ctx input = .ok [] := by
  have extracted : extractDistAgg groupExprs aggrExprs = some (groupColumn, agg) := by
    unfold distAggParams at dispatched
    cases found : distAggTable input with
    | none =>
      rw [found] at dispatched
      cases dispatched
    | some source =>
      rw [found] at dispatched
      cases here : extractDistAgg groupExprs aggrExprs with
      | none =>
        rw [here] at dispatched
        cases dispatched
      | some pair =>
        rw [here] at dispatched
        cases dispatched
        rfl
  obtain ⟨rfl, name, args, filter, orderBy, rfl, lower⟩ := extractDistAgg_cases extracted
  rw [← shares_eq_nil library groupColumn agg]
  rcases executeDistributedAggregate_cases library groupColumn agg known scanned with done | ⟨stuck, left⟩
  · rw [done, some_inj]
    constructor
    · intro same
      obtain ⟨fed, given, executed⟩ := bind_eq_ok same.symm
      obtain ⟨empty, members⟩ := aggregateExec_shape (cons_ne_nil _ _) executed
      have nothing : mergePartialAggregates (workers.flatMap (share library schema groupColumn agg
          (partitionCount workers) rows)) groupColumn agg = [] := by
        apply eq_nil_iff_forall_not_mem.mpr
        intro record inside
        obtain ⟨group, shaped, emitted⟩ := members record inside
        obtain ⟨final, _, rfl⟩ := mem_map.mp inside
        exact finalRow_ne_emitGroup shaped (resultName_ne lower) emitted
      rw [empty.mp nothing] at given
      exact ⟨mergePartialAggregates_eq_nil.mp nothing, given⟩
    · rintro ⟨nothing, given⟩
      obtain ⟨fresh, made⟩ := planned
      rw [mergePartialAggregates_eq_nil.mpr nothing]
      unfold localAggregate aggregateExec
      rw [given, made]
      rfl
  · rw [stuck]
    constructor
    · intro same
      cases same
    · rintro ⟨nothing, _⟩
      exact absurd nothing left

def plainSchema : TableSchema := { name := "t", primaryKey := "id", indexes := [], storageEngine := .lsm }

def rowsReader (rows : List Record) : Reader := tableReader plainSchema rows

def sumOfV : Expression := .aggregateFunction "SUM" [.column "v"] none false []

theorem executeDistributedAggregate_eq_local_empty :
    executeDistributedAggregate oneLibrary twoWorkers (rowsReader []) "t" "g" (.sum "v") =
      some (localAggregate (rowsReader []) .plain (.select "t" [] none) [.column "g"] [sumOfV]) :=
  (executeDistributedAggregate_eq_local_iff oneLibrary twoWorkers (rowsReader []) .plain (.select "t" [] none)
    [.column "g"] [sumOfV] "t" "g" (.sum "v") plainSchema [] rfl ⟨_, rfl⟩ (by decide +kernel) (by decide +kernel)).mpr
    ⟨nofun, by decide +kernel⟩

/-- `SELECT g, SUM(v) FROM t WHERE id = '1' GROUP BY g`: the distributed path sums the rows that the clause excludes. -/
theorem where_clause_dropped :
    let rows : List Record := [⟨[("g", "a"), ("id", "1"), ("v", "1")]⟩, ⟨[("g", "a"), ("id", "2"), ("v", "2")]⟩]
    let input : LogicalPlan := .select "t" [] (some (.binaryOp (.column "id") .eq (.literal "1")))
    distAggParams input [.column "g"] [sumOfV] = some ("t", "g", .sum "v") ∧
      executeDistributedAggregate oneLibrary twoWorkers (rowsReader rows) "t" "g" (.sum "v") =
        some (.ok [⟨[("SUM(v)", "3"), ("g", "a")]⟩]) ∧
      localAggregate (rowsReader rows) .plain input [.column "g"] [sumOfV] = .ok [⟨[("g", "a"), ("sum(v)", "1")]⟩] := by
  refine ⟨rfl, ?_, ?_⟩
  · decide +kernel
  · decide +kernel

end MppCoordinator

namespace MppCoordinator

/-- The call returns exactly if every batch that a worker pushes finds fewer batches and end marks of the workers before
    it than the buffer holds. -/
theorem executePushing_returns_iff (capacity : Nat) (workers : List WorkerEndpoint) (library : Library)
    (reader : Reader) (groupColumn table : String) (agg : DistAggKind) :
    (∃ tries result, executePushing (ShuffleManager.pushBlocking capacity (tries + 1)) library reader groupColumn table
      agg workers = some result) ↔
    ∀ schema rows, reader.tableSchema table = .ok schema → tableRows reader table = .ok rows →
      room library groupColumn (partitionCount workers) capacity (fun _ => 0)
        (workers.map (share library schema groupColumn agg (partitionCount workers) rows)) = true := by
  simp only [ShuffleManager.pushBlocking_succ, exists_const]
  constructor
  · rintro ⟨result, returned⟩ schema rows known scanned
    rw [executePushing_eq library groupColumn agg known scanned] at returned
    by_contra stuck
    rw [if_neg stuck] at returned
    cases returned
  · intro fits
    -- a failed scan ends the call at the first worker
    have failed (error : TakyonicError)
        (scan : ∀ slot count, scanPartition library reader table slot count = .error error) :
        ∃ result, executePushing (ShuffleManager.pushBlocking capacity 1) library reader groupColumn table agg workers =
          some result := by
      cases workers with
      | nil => exact ⟨_, rfl⟩
      | cons worker rest => simp [executePushing, dispatchPushing, scan]
    cases known : reader.tableSchema table with
    | error error => exact failed error fun _ _ => by simp only [scanPartition, known]; rfl
    | ok schema =>
      cases scanned : tableRows reader table with
      | error error => exact failed error fun _ _ => by simp only [scanPartition, known, scanned]; rfl
      | ok rows =>
        rw [executePushing_eq library groupColumn agg known scanned, if_pos (fits schema rows known scanned)]
        exact ⟨_, rfl⟩

theorem executePushing_returns_iff_shared :
    let rows : List Record := [⟨[("g", "a"), ("id", "1")]⟩, ⟨[("g", "a"), ("id", "4")]⟩, ⟨[("g", "b"), ("id", "6")]⟩]
    ∃ tries result, executePushing (ShuffleManager.pushBlocking 3 (tries + 1)) shortLibrary (rowsReader rows) "g" "t"
      .count twoWorkers = some result := by
  intro rows
  refine (executePushing_returns_iff 3 twoWorkers shortLibrary (rowsReader rows) "g" "t" .count).mpr ?_
  intro schema stored known scanned
  obtain rfl : plainSchema = schema := Except.ok.inj known
  obtain rfl : rows = stored := Except.ok.inj (Eq.trans (by decide +kernel) scanned)
  decide +kernel

/-- Both workers hold a row of the group `a`, and the first one's batch fills the buffer. -/
theorem second_batch_never_sent :
    let rows : List Record := [⟨[("g", "a"), ("id", "1")]⟩, ⟨[("g", "a"), ("id", "4")]⟩]
    ∀ tries, executePushing (ShuffleManager.pushBlocking 1 tries) shortLibrary (rowsReader rows) "g" "t" .count
      twoWorkers = none := by
  intro rows tries
  cases tries with
  | zero => decide +kernel
  | succ tries =>
    rw [ShuffleManager.pushBlocking_succ]
    decide +kernel

end MppCoordinator

end Takyonic
