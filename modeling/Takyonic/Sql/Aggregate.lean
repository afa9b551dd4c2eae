import Takyonic.Foundation.EquiJoin
import Takyonic.Sql.Evaluate

/-! The hash aggregate: accumulators, groups, and the rows that are emitted for them. -/

namespace Takyonic.Sql

open List Sql.Value

def libraryAggregates : List String :=
  ["JSON_AGG", "JSONB_AGG", "JSON_OBJECT_AGG", "JSONB_OBJECT_AGG", "STRING_AGG", "ARRAY_AGG", "BOOL_AND", "EVERY",
    "BOOL_OR", "BIT_AND", "BIT_OR", "VAR_POP", "VAR_SAMP", "STDDEV_POP", "STDDEV_SAMP", "CORR", "COVAR_POP",
    "COVAR_SAMP", "REGR_SLOPE", "REGR_INTERCEPT", "REGR_R2", "REGR_COUNT", "REGR_AVGX", "REGR_AVGY", "REGR_SXX",
    "REGR_SYY", "REGR_SXY", "MODE", "PERCENTILE_CONT", "PERCENTILE_DISC"]

inductive Accumulator where
  | count (count : Int64) (star : Bool)
  | sum (sum : Int64) (seen : Bool)
  | avg (sum count : Int64)
  | min (current : Option Value)
  | max (current : Option Value)
  | library (name : String) (rows : List (List Value))
  | distinct (inner : Accumulator) (seen : List (List Value))
  | ordered (name : String) (distinct : Bool) (orderAsc : List Bool) (buffered : List (List Value × List Value))
  deriving DecidableEq, Repr

def valueLess (first second : Value) : Bool := compareSqlValues first .lt second

def newBaseAccumulator (name : String) (star : Bool) : Except TakyonicError Accumulator :=
  if name = "COUNT" then .ok (.count 0 star)
  else if name = "SUM" then .ok (.sum 0 false)
  else if name = "AVG" then .ok (.avg 0 0)
  else if name = "MIN" then .ok (.min none)
  else if name = "MAX" then .ok (.max none)
  else if name ∈ libraryAggregates then .ok (.library name [])
  else .error (.sql s!"unsupported aggregate function `{name}`")

def SortExpr.expr : SortExpr → Expression
  | .mk expr _ _ => expr

def SortExpr.asc : SortExpr → Bool
  | .mk _ asc _ => asc

def newAccumulator (functions : Functions) : Expression → Except TakyonicError Accumulator
  | .aggregateFunction name args _ distinct orderBy => do
    let inner ← newBaseAccumulator name args.isEmpty
    if orderBy.isEmpty then pure (if distinct then .distinct inner [] else inner)
    else if name ∈ ["MODE", "PERCENTILE_CONT", "PERCENTILE_DISC"] then pure inner
    else pure (.ordered (if name = "COUNT" ∧ args.isEmpty then "COUNT_STAR" else name) distinct
      (orderBy.map SortExpr.asc) [])
  | _ =>
    let shown := functions.debug ""
    .error (.sql s!"expected AggregateFunction, got {shown}")

namespace Accumulator

def addInt (total : Int64) (value : Value) : Except TakyonicError Int64 := do
  pure (saturatingAdd total (← valueAsI64 value))

def update : Accumulator → List Value → Except TakyonicError Accumulator
  | .count number star, values =>
    if star ∨ values.headD .null ≠ .null then .ok (.count (number + 1) star) else .ok (.count number star)
  | .sum total seen, values =>
    match values.headD .null with
    | .null => .ok (.sum total seen)
    | value => do pure (.sum (← addInt total value) true)
  | .avg total number, values =>
    match values.headD .null with
    | .null => .ok (.avg total number)
    | value => do pure (.avg (← addInt total value) (number + 1))
  | .min current, values =>
    match values.headD .null with
    | .null => .ok (.min current)
    | value =>
      match current with
      | none => .ok (.min (some value))
      | some least => .ok (.min (some (if valueLess value least then value else least)))
  | .max current, values =>
    match values.headD .null with
    | .null => .ok (.max current)
    | value =>
      match current with
      | none => .ok (.max (some value))
      | some greatest => .ok (.max (some (if valueLess greatest value then value else greatest)))
  | .library name rows, values => .ok (.library name (rows ++ [values]))
  | .distinct inner seen, values =>
    if values.any isNull ∨ values ∈ seen then .ok (.distinct inner seen)
    else do pure (.distinct (← update inner values) (values :: seen))
  | .ordered name unique orderAsc buffered, values =>
    .ok (.ordered name unique orderAsc (buffered ++ [([], values)]))

def updateOrdered (accumulator : Accumulator) (values orderKeys : List Value) : Except TakyonicError Accumulator :=
  match accumulator with
  | .ordered name unique orderAsc buffered => .ok (.ordered name unique orderAsc (buffered ++ [(orderKeys, values)]))
  | other => update other values

def updateAll (accumulator : Accumulator) : List (List Value) → Except TakyonicError Accumulator
  | [] => .ok accumulator
  | values :: rest => do updateAll (← update accumulator values) rest

def orderedBefore : List Bool → List Value → List Value → Bool
  | asc, first :: firsts, second :: seconds =>
    match valueOrd first second with
    | .eq => orderedBefore asc.tail firsts seconds
    | .lt => asc.headD true
    | .gt => !asc.headD true
  | _, _, _ => true

def evaluatePlain (functions : Functions) : Accumulator → Except TakyonicError Value
  | .count number _ => .ok (.int number)
  | .sum total seen => .ok (if seen then .int total else .null)
  | .avg total number => .ok (if number = 0 then .null else .int (total / number))
  | .min current => .ok (current.getD .null)
  | .max current => .ok (current.getD .null)
  | .library name rows => functions.aggregate name rows
  | .distinct inner _ => evaluatePlain functions inner
  | .ordered _ _ _ _ => .ok .null

def evaluate (functions : Functions) : Accumulator → Except TakyonicError Value
  | .ordered name unique orderAsc buffered => do
    let rows := (buffered.insertionSort fun first second => orderedBefore orderAsc first.1 second.1).map Prod.snd
    let inner ← if name = "COUNT_STAR" then newBaseAccumulator "COUNT" true else newBaseAccumulator name false
    let filled ← updateAll (if unique then .distinct inner [] else inner) rows
    evaluatePlain functions filled
  | other => evaluatePlain functions other

end Accumulator

def groupOutputName (expr : Expression) (index : Nat) : String :=
  match expr with
  | .column name => name
  | _ => "group_" ++ toString index

def arithSymbol : ArithOp → String
  | .add => "+"
  | .sub => "-"
  | .mul => "*"
  | .div => "/"

def operandName : Expression → String
  | .column name => name
  | .literal text => text
  | _ => "?"

def argumentName : Expression → String
  | .column name => name
  | .literal text => text
  | .arith left op right => operandName left ++ " " ++ arithSymbol op ++ " " ++ operandName right
  | _ => "?"

/-- `aggregate_result_column`, or `aggr` for what is not an aggregate. -/
def aggrOutputName : Expression → String
  | .aggregateFunction name args filter distinct _ =>
    let lower := toAsciiLowercase name
    let base := match args with
      | [] => lower ++ "(*)"
      | arg :: _ => lower ++ (if distinct then "(distinct " else "(") ++ argumentName arg ++ ")"
    if filter.isSome then base ++ " filter" else base
  | _ => "aggr"

section Exec

variable (ctx : ExecutionContext)

def freshAccumulators : List Expression → Except TakyonicError (List Accumulator)
  | [] => .ok []
  | expr :: rest => do
    let first ← newAccumulator ctx.functions expr
    let others ← freshAccumulators rest
    pure (first :: others)

/-- The `FILTER` clause of an aggregate. -/
def wantsRow (row : Record) (filter : Option Expression) : Except TakyonicError Bool :=
  match filter with
  | some predicate => evaluateBool ctx row predicate
  | none => .ok true

def feed (row : Record) (expr : Expression) (accumulator : Accumulator) : Except TakyonicError Accumulator :=
  match expr with
  | .aggregateFunction _ args filter _ orderBy => do
    if ← wantsRow ctx row filter then do
      let values ← evaluateAll ctx row args
      if orderBy.isEmpty then accumulator.update values
      else do
        let keys ← evaluateAll ctx row (orderBy.map SortExpr.expr)
        accumulator.updateOrdered values keys
    else pure accumulator
  | _ => accumulator.update []

def feedAll (row : Record) : List Expression → List Accumulator → Except TakyonicError (List Accumulator)
  | expr :: exprs, accumulator :: accumulators => do
    let first ← feed ctx row expr accumulator
    let others ← feedAll row exprs accumulators
    pure (first :: others)
  | _, accumulators => .ok accumulators

abbrev Groups := List (List Value × List Accumulator)

def Groups.replace (key : List Value) (accumulators : List Accumulator) : Groups → Groups
  | [] => [(key, accumulators)]
  | (known, kept) :: rest =>
    if known = key then (known, accumulators) :: rest else (known, kept) :: Groups.replace key accumulators rest

def groupAccumulators (aggrExprs : List Expression) (groups : Groups) (key : List Value) :
    Except TakyonicError (List Accumulator) :=
  match groups.lookup key with
  | some accumulators => .ok accumulators
  | none => freshAccumulators ctx aggrExprs

def accumulateRow (groupExprs aggrExprs : List Expression) (groups : Groups) (row : Record) :
    Except TakyonicError Groups := do
  let key ← evaluateAll ctx row groupExprs
  let before ← groupAccumulators ctx aggrExprs groups key
  let after ← feedAll ctx row aggrExprs before
  pure (Groups.replace key after groups)

def accumulateRows (groupExprs aggrExprs : List Expression) : List Record → Groups → Except TakyonicError Groups
  | [], groups => .ok groups
  | row :: rest, groups => do
    accumulateRows groupExprs aggrExprs rest (← accumulateRow ctx groupExprs aggrExprs groups row)

def emitAggregates (record : Record) : List Expression → List Accumulator → Except TakyonicError Record
  | expr :: exprs, accumulator :: accumulators => do
    let value ← accumulator.evaluate ctx.functions
    emitAggregates (record.set (aggrOutputName expr) (valueToField value)) exprs accumulators
  | _, _ => .ok record

def emitGroup (groupExprs aggrExprs : List Expression) (group : List Value × List Accumulator) :
    Except TakyonicError Record :=
  let fields := groupExprs.mapIdx fun index expr =>
    (groupOutputName expr index, valueToField (group.1.getD index .null))
  emitAggregates ctx (Record.empty.setAll fields) aggrExprs group.2

def emitGroups (groupExprs aggrExprs : List Expression) : Groups → Except TakyonicError (List Record)
  | [] => .ok []
  | group :: rest => do
    let record ← emitGroup ctx groupExprs aggrExprs group
    let records ← emitGroups groupExprs aggrExprs rest
    pure (record :: records)

def aggregateExec (groupExprs aggrExprs : List Expression) (rows : List Record) :
    Except TakyonicError (List Record) := do
  let fresh ← freshAccumulators ctx aggrExprs
  let groups ← accumulateRows ctx groupExprs aggrExprs rows (if groupExprs.isEmpty then [([], fresh)] else [])
  let sorted := groups.insertionSort fun first second =>
    ¬ (second.1.map toDisplay) < (first.1.map toDisplay)
  emitGroups ctx groupExprs aggrExprs sorted

end Exec

section Shape

variable {ctx : ExecutionContext} {groupExprs aggrExprs : List Expression} {groups after : Groups} {row : Record}
  {rows records : List Record}

theorem Groups.replace_ne_nil : Groups.replace key accumulators groups ≠ [] := by
  cases groups with
  | nil => exact cons_ne_nil _ _
  | cons group rest =>
    unfold Groups.replace
    split
    · exact cons_ne_nil _ _
    · exact cons_ne_nil _ _

theorem Groups.mem_replace {key : List Value} {accumulators : List Accumulator}
    {group : List Value × List Accumulator} (inside : group ∈ Groups.replace key accumulators groups) :
    group.2 = accumulators ∨ group ∈ groups := by
  induction groups with
  | nil => exact .inl (by rw [mem_singleton.mp inside])
  | cons first rest ih =>
    unfold Groups.replace at inside
    split at inside
    · rcases mem_cons.mp inside with rfl | inside
      · exact .inl rfl
      · exact .inr (mem_cons_of_mem _ inside)
    · rcases mem_cons.mp inside with rfl | inside
      · exact .inr mem_cons_self
      · exact (ih inside).imp_right (mem_cons_of_mem _)

theorem freshAccumulators_length {fresh : List Accumulator} (made : freshAccumulators ctx aggrExprs = .ok fresh) :
    fresh.length = aggrExprs.length := by
  induction aggrExprs generalizing fresh with
  | nil =>
    cases made
    rfl
  | cons expr rest ih =>
    obtain ⟨first, _, made⟩ := bind_eq_ok made
    obtain ⟨others, later, made⟩ := bind_eq_ok made
    cases made
    rw [length_cons, ih later, length_cons]

theorem feedAll_length {before after : List Accumulator} (fed : feedAll ctx row aggrExprs before = .ok after) :
    after.length = before.length := by
  induction aggrExprs generalizing before after with
  | nil =>
    cases fed
    rfl
  | cons expr rest ih =>
    cases before with
    | nil =>
      cases fed
      rfl
    | cons accumulator others =>
      obtain ⟨first, _, fed⟩ := bind_eq_ok fed
      obtain ⟨later, rest_fed, fed⟩ := bind_eq_ok fed
      cases fed
      rw [length_cons, ih rest_fed, length_cons]

def Groups.Shaped (aggrExprs : List Expression) (groups : Groups) : Prop :=
  ∀ group ∈ groups, group.2.length = aggrExprs.length

theorem accumulateRow_shaped (shaped : groups.Shaped aggrExprs)
    (done : accumulateRow ctx groupExprs aggrExprs groups row = .ok after) :
    after.Shaped aggrExprs ∧ after ≠ [] := by
  obtain ⟨key, _, done⟩ := bind_eq_ok done
  obtain ⟨before, found, done⟩ := bind_eq_ok done
  obtain ⟨fed, feeding, done⟩ := bind_eq_ok done
  cases done
  refine ⟨?_, Groups.replace_ne_nil⟩
  have started : before.length = aggrExprs.length := by
    unfold groupAccumulators at found
    split at found
    · rename_i accumulators known
      obtain rfl := Except.ok.inj found
      obtain ⟨front, back, split, _⟩ := lookup_eq_some_iff.mp known
      exact shaped (key, accumulators) (by rw [split]; simp)
    · exact freshAccumulators_length found
  intro group inside
  rcases Groups.mem_replace inside with same | inside
  · rw [same, feedAll_length feeding, started]
  · exact shaped group inside

theorem accumulateRows_shaped (shaped : groups.Shaped aggrExprs)
    (done : accumulateRows ctx groupExprs aggrExprs rows groups = .ok after) :
    after.Shaped aggrExprs ∧ (rows ≠ [] ∨ groups ≠ [] → after ≠ []) := by
  induction rows generalizing groups with
  | nil =>
    cases done
    exact ⟨shaped, fun some_rows => some_rows.resolve_left (fun none_here => none_here rfl)⟩
  | cons row rest ih =>
    obtain ⟨next, step, done⟩ := bind_eq_ok done
    obtain ⟨shaped, present⟩ := accumulateRow_shaped shaped step
    obtain ⟨shaped, kept⟩ := ih shaped done
    exact ⟨shaped, fun _ => kept (.inr present)⟩

theorem emitGroups_mem (emitted : emitGroups ctx groupExprs aggrExprs groups = .ok records) :
    records.length = groups.length ∧
      ∀ record ∈ records, ∃ group ∈ groups, emitGroup ctx groupExprs aggrExprs group = .ok record := by
  induction groups generalizing records with
  | nil =>
    cases emitted
    exact ⟨rfl, fun record inside => absurd inside not_mem_nil⟩
  | cons group rest ih =>
    obtain ⟨first, here, emitted⟩ := bind_eq_ok emitted
    obtain ⟨others, later, emitted⟩ := bind_eq_ok emitted
    cases emitted
    obtain ⟨length, members⟩ := ih later
    refine ⟨by rw [length_cons, length, length_cons], ?_⟩
    intro record inside
    rcases mem_cons.mp inside with rfl | inside
    · exact ⟨group, mem_cons_self, here⟩
    · obtain ⟨group, member, made⟩ := members record inside
      exact ⟨group, mem_cons_of_mem _ member, made⟩

theorem aggregateExec_shape (grouped : groupExprs ≠ [])
    (done : aggregateExec ctx groupExprs aggrExprs rows = .ok records) :
    (records = [] ↔ rows = []) ∧ ∀ record ∈ records, ∃ group : List Value × List Accumulator,
      group.2.length = aggrExprs.length ∧ emitGroup ctx groupExprs aggrExprs group = .ok record := by
  obtain ⟨fresh, _, done⟩ := bind_eq_ok done
  obtain ⟨groups, accumulated, done⟩ := bind_eq_ok done
  have start : (if groupExprs.isEmpty then [([], fresh)] else [] : Groups) = [] := by
    simpa using grouped
  rw [start] at accumulated
  obtain ⟨shaped, present⟩ := accumulateRows_shaped (fun group inside => absurd inside not_mem_nil) accumulated
  obtain ⟨length, members⟩ := emitGroups_mem done
  have sorted := perm_insertionSort (fun first second : List Value × List Accumulator =>
    ¬ (second.1.map toDisplay) < (first.1.map toDisplay)) groups
  constructor
  · rw [← length_eq_zero_iff, length, sorted.length_eq, length_eq_zero_iff]
    constructor
    · intro none_here
      by_contra some_rows
      exact present (.inl some_rows) none_here
    · rintro rfl
      cases accumulated
      rfl
  · intro record inside
    obtain ⟨group, member, made⟩ := members record inside
    exact ⟨group, shaped group (sorted.mem_iff.mp member), made⟩

end Shape

end Takyonic.Sql
