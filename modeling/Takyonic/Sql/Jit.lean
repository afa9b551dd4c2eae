import Takyonic.Foundation.Gather
import Takyonic.Sql.Evaluate

/-! The compiler of predicates and scalar expressions: the intermediate code it emits, what that code computes, and
the evaluation of an expression by compiled code where there is some. -/

namespace Takyonic.Sql.Jit

open Foundation Sql.Value

inductive IrType where
  | i8
  | i64
  | f64
  deriving DecidableEq, Repr

def IrType.Carrier : IrType → Type
  | .i8 => Bool
  | .i64 => Int64
  | .f64 => Float

inductive IntCC where
  | equal
  | notEqual
  | signedGreaterThan
  | signedGreaterThanOrEqual
  | signedLessThan
  | signedLessThanOrEqual
  deriving DecidableEq, Repr

inductive Bitwise where
  | band
  | bor
  | bxor
  deriving DecidableEq, Repr

inductive Ir : IrType → Type where
  | iconst (number : Int64) : Ir .i64
  | f64const (number : Float) : Ir .f64
  | load (slot : Nat) : Ir .i64
  | icmp (cond : IntCC) (left right : Ir .i64) : Ir .i8
  | select (cond : Ir .i8) (yes no : Ir .i64) : Ir .i64
  | bitwise (op : Bitwise) (left right : Ir .i64) : Ir .i64
  | integer (op : ArithOp) (left right : Ir .i64) : Ir .i64
  | floating (op : ArithOp) (left right : Ir .f64) : Ir .f64
  | bitcast (value : Ir .f64) : Ir .i64
  | after (first next : Ir .i64) : Ir .i64
  | fcvtFromSint (value : Ir .i64) : Ir .f64

def IntCC.test : IntCC → Int64 → Int64 → Bool
  | .equal, left, right => left = right
  | .notEqual, left, right => left ≠ right
  | .signedGreaterThan, left, right => right < left
  | .signedGreaterThanOrEqual, left, right => right ≤ left
  | .signedLessThan, left, right => left < right
  | .signedLessThanOrEqual, left, right => left ≤ right

def Bitwise.apply : Bitwise → Int64 → Int64 → Int64
  | .band, left, right => left &&& right
  | .bor, left, right => left ||| right
  | .bxor, left, right => left ^^^ right

/-- `iadd`, `isub` and `imul` wrap; `sdiv` traps on zero and on the quotient that does not fit. -/
def machineArith (op : ArithOp) (left right : Int64) : Option Int64 :=
  match op with
  | .add => some (left + right)
  | .sub => some (left - right)
  | .mul => some (left * right)
  | .div => if right = 0 ∨ left = Int64.minValue ∧ right = -1 then none else some (left / right)

def machineFloat (op : ArithOp) (left right : Float) : Float :=
  match op with
  | .add => left + right
  | .sub => left - right
  | .mul => left * right
  | .div => left / right

@[simp] def Ir.run (slots : List Int64) : {type : IrType} → Ir type → Option type.Carrier
  | _, .iconst number => some number
  | _, .f64const number => some number
  | _, .load slot => slots[slot]?
  | _, .icmp cond left right => do pure (cond.test (← run slots left) (← run slots right))
  | _, .select cond yes no => do
    let chosen ← run slots cond
    let first ← run slots yes
    let second ← run slots no
    pure (bif chosen then first else second)
  | _, .bitwise op left right => do pure (op.apply (← run slots left) (← run slots right))
  | _, .integer op left right => do machineArith op (← run slots left) (← run slots right)
  | _, .floating op left right => do pure (machineFloat op (← run slots left) (← run slots right))
  | _, .bitcast value => do pure (Float.toBits (← run slots value)).toInt64
  | _, .after first next => do
    let _ ← run slots first
    run slots next
  | _, .fcvtFromSint value => do pure (floatOfInt (Int64.toInt (← run slots value)))

def selectBool (cond : Ir .i8) : Ir .i64 := .select cond (.iconst 1) (.iconst 0)

def boolFromI64 (value : Ir .i64) : Ir .i64 := selectBool (.icmp .notEqual value (.iconst 0))

def asTruth (asBool : Bool) (value : Ir .i64) : Ir .i64 := if asBool then boolFromI64 value else value

def truthSlot (truth : Bool) : Int64 := if truth then 1 else 0

def literalSlot : Value → Option Int64
  | .int number => some number
  | .bool truth => some (truthSlot truth)
  | .float number => some number.toBits.toInt64
  | .null => some 0
  | .string _ => none

def literalToIr (value : Value) (asBool : Bool) : Option (Ir .i64) :=
  ((literalSlot value).map .iconst).map (asTruth asBool)

def conditionOf : FilterOp → IntCC
  | .eq => .equal
  | .ne => .notEqual
  | .gt => .signedGreaterThan
  | .gte => .signedGreaterThanOrEqual
  | .lt => .signedLessThan
  | .lte => .signedLessThanOrEqual

def columnSlot (columns : List String) (name : String) : Option Nat := columns.zipIdx.reverse.lookup name

def exprNeedsFloat : Expression → Bool
  | .literal text => isFloat (fromText text)
  | .arith left _ right => exprNeedsFloat left || exprNeedsFloat right
  | .binaryOp left _ right => exprNeedsFloat left || exprNeedsFloat right
  | .and left right => exprNeedsFloat left || exprNeedsFloat right
  | .or left right => exprNeedsFloat left || exprNeedsFloat right
  | _ => false

/-- The loop over the items of an `IN` list, which skips those that are NULL. -/
def lowerItems (value : Ir .i64) : List Value → Ir .i64 → Option (Ir .i64)
  | [], acc => some acc
  | .null :: rest, acc => lowerItems value rest acc
  | item :: rest, acc => do
    let slot ← literalSlot item
    lowerItems value rest (.bitwise .bor acc (selectBool (.icmp .equal value (.iconst slot))))

section Lowering

variable (columns : List String)

mutual

/-- `lower_expr`; nothing where the interpreter has to take over. -/
@[simp] def lowerExpr : Expression → Bool → Option (Ir .i64)
  | .column name, asBool => ((columnSlot columns name).map .load).map (asTruth asBool)
  | .literal text, asBool => literalToIr (fromText text) asBool
  | .binaryOp left op right, _ => do
    let first ← lowerExpr left false
    let second ← lowerExpr right false
    pure (selectBool (.icmp (conditionOf op) first second))
  | .and left right, _ => do
    let first ← lowerExpr left true
    let second ← lowerExpr right true
    pure (boolFromI64 (.bitwise .band first second))
  | .or left right, _ => do
    let first ← lowerExpr left true
    let second ← lowerExpr right true
    pure (boolFromI64 (.bitwise .bor first second))
  | .arith left op right, asBool =>
    Option.map (asTruth asBool)
      (if exprNeedsFloat left || exprNeedsFloat right then do
        let first ← lowerAsF64 left (lowerExpr left false)
        let second ← lowerAsF64 right (lowerExpr right false)
        pure (.bitcast (.floating op first second))
      else do
        let first ← lowerExpr left false
        let second ← lowerExpr right false
        pure (.integer op first second))
  | .inList expr list negated, _ => do
    let value ← lowerExpr expr false
    let acc ← lowerItems value list (.iconst 0)
    pure (.after value (if negated then .bitwise .bxor acc (.iconst 1) else acc))
  | _, _ => none

/-- `lower_as_f64`, given the expression lowered as an integer. -/
def lowerAsF64 : Expression → Option (Ir .i64) → Option (Ir .f64)
  | .literal text, _ =>
    match fromText text with
    | .float number => some (.f64const number)
    | .int number => some (.fcvtFromSint (.iconst number))
    | _ => none
  | .column name, _ => do pure (.fcvtFromSint (.load (← columnSlot columns name)))
  | .arith left op right, _ => do
    let first ← lowerAsF64 left (lowerExpr left false)
    let second ← lowerAsF64 right (lowerExpr right false)
    pure (.floating op first second)
  | _, lowered => lowered.map .fcvtFromSint

end

end Lowering

/-- Whether an item of an `IN` list has a slot. -/
def isNumericItem : Value → Bool
  | .string _ => false
  | _ => true

def isJitCompilable : Expression → Bool
  | .column _ => true
  | .literal text => !(fromText text).isString
  | .binaryOp left _ right => isJitCompilable left && isJitCompilable right
  | .and left right => isJitCompilable left && isJitCompilable right
  | .or left right => isJitCompilable left && isJitCompilable right
  | .arith left _ right => isJitCompilable left && isJitCompilable right
  | .inList expr list _ => isJitCompilable expr && list.all isNumericItem
  | _ => false

mutual

def walkCols : Expression → List String
  | .column name => [name]
  | .binaryOp left _ right => walkCols left ++ walkCols right
  | .and left right => walkCols left ++ walkCols right
  | .or left right => walkCols left ++ walkCols right
  | .arith left _ right => walkCols left ++ walkCols right
  | .like expr pattern _ _ _ _ => walkCols expr ++ walkCols pattern
  | .similarTo expr pattern _ _ => walkCols expr ++ walkCols pattern
  | .regexMatch expr pattern _ _ => walkCols expr ++ walkCols pattern
  | .atTimeZone timestamp timeZone => walkCols timestamp ++ walkCols timeZone
  | .case whenThen elseResult => walkCases whenThen ++ walkElse elseResult
  | .isNull expr _ => walkCols expr
  | .isBoolTest expr _ _ => walkCols expr
  | .cast expr _ _ => walkCols expr
  | .not expr => walkCols expr
  | .nullIf left right => walkCols left ++ walkCols right
  | .isDistinctFrom left right _ => walkCols left ++ walkCols right
  | .quantifiedCmp left _ right _ => walkCols left ++ walkCols right
  | .scalarFunction _ args => walkAll args
  | .aggregateFunction _ args _ _ _ => walkAll args
  | .inList expr _ _ => walkCols expr
  | _ => []

def walkAll : List Expression → List String
  | [] => []
  | expr :: rest => walkCols expr ++ walkAll rest

def walkCases : List (Expression × Expression) → List String
  | [] => []
  | (cond, result) :: rest => walkCols cond ++ walkCols result ++ walkCases rest

def walkElse : Option Expression → List String
  | none => []
  | some expr => walkCols expr

end

def collectJitColumns (expr : Expression) : List String :=
  ((walkCols expr).insertionSort (· ≤ ·)).destutter (· ≠ ·)

def packCell (row : Record) (name : String) : Int64 :=
  match (row.get name).map fromText with
  | some (.int number) => number
  | some (.float number) => number.toBits.toInt64
  | some (.bool truth) => truthSlot truth
  | some .null => 0
  | none => 0
  | some (.string text) => ((Schema.parseI64 text).map Int64.ofInt).getD 0

def packRow (row : Record) (columns : List String) : List Int64 := columns.map (packCell row)

structure CompiledFn where
  columns : List String
  code : Ir .i64
  isPredicate : Bool

def compileInner (expr : Expression) (columns : List String) (isPredicate : Bool) : Option CompiledFn :=
  if isJitCompilable expr then (lowerExpr columns expr isPredicate).map fun code => ⟨columns, code, isPredicate⟩
  else none

def compileScalar (expr : Expression) (columns : List String) : Option CompiledFn := compileInner expr columns false

def compilePredicate (expr : Expression) (columns : List String) : Option CompiledFn := compileInner expr columns true

def CompiledFn.call (compiled : CompiledFn) (row : Record) : Option Int64 :=
  compiled.code.run (packRow row compiled.columns)

abbrev Outcome (α : Type) := Option (Except TakyonicError α)

def evaluateJitOrInterp (compiled : Option CompiledFn) (ctx : ExecutionContext) (row : Record) (expr : Expression) :
    Outcome Value :=
  match compiled with
  | some fn => (fn.call row).map fun raw => .ok (if fn.isPredicate then .bool (raw ≠ 0) else .int raw)
  | none => some (evaluate ctx row expr)

def evaluateBoolJitOrInterp (compiled : Option CompiledFn) (ctx : ExecutionContext) (row : Record)
    (expr : Expression) : Outcome Bool :=
  match compiled with
  | some fn => (fn.call row).map fun raw => .ok (raw ≠ 0)
  | none => some (evaluateBool ctx row expr)

/-! What the compiled code of an expression leaves, in terms of what the code of its operands leaves. -/

open Option Ir Int64

def machineFinds (slot : Int64) (list : List Value) : Bool :=
  list.any fun item => item ≠ .null ∧ literalSlot item = some slot

def machine (row : Record) (columns : List String) (expr : Expression) (asBool : Bool) : Option Int64 :=
  (lowerExpr columns expr asBool).bind fun code => code.run (packRow row columns)

def machineF64 (row : Record) (columns : List String) (expr : Expression) : Option Float :=
  (lowerAsF64 columns expr (lowerExpr columns expr false)).bind fun code => code.run (packRow row columns)

def converted (slot : Int64) : Float := floatOfInt slot.toInt

section Machine

variable (row : Record) (columns : List String) {slots : List Int64} {slot : Int64} {list : List Value}
  {expr : Expression} {name : String}

theorem run_selectBool (slots : List Int64) (cond : Ir .i8) :
    (selectBool cond).run slots = (cond.run slots).map truthSlot := by
  rw [selectBool, Ir.run]
  cases cond.run slots with
  | none => rfl
  | some truth => cases truth <;> rfl

theorem run_boolFromI64 (slots : List Int64) (value : Ir .i64) :
    (boolFromI64 value).run slots = (value.run slots).map fun raw : Int64 => truthSlot (raw ≠ 0) := by
  rw [boolFromI64, run_selectBool, Ir.run]
  cases value.run slots <;> rfl

theorem bind_run_two {type type' : IrType} {build : Ir type → Ir type → Ir type'}
    {combine : type.Carrier → type.Carrier → Option type'.Carrier}
    (combines : ∀ first second, (build first second).run slots =
      (first.run slots).bind fun left => (second.run slots).bind fun right => combine left right)
    (first second : Option (Ir type)) :
    (do let left ← first; let right ← second; pure (build left right) : Option (Ir type')).bind (·.run slots) =
      (first.bind (·.run slots)).bind fun left => (second.bind (·.run slots)).bind fun right =>
        combine left right := by
  cases first with
  | none => rfl
  | some code =>
    cases second with
    | none => exact (bind_fun_none (code.run slots)).symm
    | some code' => exact combines code code'

theorem machine_binaryOp (left : Expression) (op : FilterOp) (right : Expression) (asBool : Bool) :
    machine row columns (.binaryOp left op right) asBool =
      (machine row columns left false).bind fun first => (machine row columns right false).bind fun second =>
        some (truthSlot ((conditionOf op).test first second)) := by
  apply bind_run_two
  intro first second
  rw [run_selectBool, Ir.run]
  cases first.run (packRow row columns) <;> cases second.run (packRow row columns) <;> rfl

theorem machine_and (left right : Expression) (asBool : Bool) :
    machine row columns (.and left right) asBool =
      (machine row columns left true).bind fun first => (machine row columns right true).bind fun second =>
        some (truthSlot (first &&& second ≠ 0)) := by
  apply bind_run_two
  intro first second
  rw [run_boolFromI64, Ir.run]
  cases first.run (packRow row columns) <;> cases second.run (packRow row columns) <;> rfl

theorem machine_or (left right : Expression) (asBool : Bool) :
    machine row columns (.or left right) asBool =
      (machine row columns left true).bind fun first => (machine row columns right true).bind fun second =>
        some (truthSlot (first ||| second ≠ 0)) := by
  apply bind_run_two
  intro first second
  rw [run_boolFromI64, Ir.run]
  cases first.run (packRow row columns) <;> cases second.run (packRow row columns) <;> rfl

theorem machine_arith {left right : Expression} (leftWhole : exprNeedsFloat left = false)
    (rightWhole : exprNeedsFloat right = false) (op : ArithOp) :
    machine row columns (.arith left op right) false =
      (machine row columns left false).bind fun first => (machine row columns right false).bind fun second =>
        machineArith op first second := by
  have plain : asTruth false = id := rfl
  rw [machine, lowerExpr, leftWhole, rightWhole, plain, map_id]
  apply bind_run_two
  intro first second
  rw [Ir.run]
  cases first.run (packRow row columns) <;> cases second.run (packRow row columns) <;> rfl

theorem machineF64_arith (left : Expression) (op : ArithOp) (right : Expression) :
    machineF64 row columns (.arith left op right) =
      (machineF64 row columns left).bind fun first => (machineF64 row columns right).bind fun second =>
        some (machineFloat op first second) := by
  apply bind_run_two
  intro first second
  rw [Ir.run]
  cases first.run (packRow row columns) <;> cases second.run (packRow row columns) <;> rfl

theorem machine_arith_floats {left right : Expression} (floats : (exprNeedsFloat left || exprNeedsFloat right) = true)
    (op : ArithOp) :
    machine row columns (.arith left op right) false =
      (machineF64 row columns left).bind fun first => (machineF64 row columns right).bind fun second =>
        some (machineFloat op first second).toBits.toInt64 := by
  have plain : asTruth false = id := rfl
  rw [machine, lowerExpr, if_pos floats, plain, map_id]
  apply bind_run_two
  intro first second
  rw [Ir.run, Ir.run]
  cases first.run (packRow row columns) <;> cases second.run (packRow row columns) <;> rfl

theorem machineF64_converted
    (lowered : lowerAsF64 columns expr (lowerExpr columns expr false) =
      (lowerExpr columns expr false).map .fcvtFromSint) :
    machineF64 row columns expr = (machine row columns expr false).map converted := by
  rw [machineF64, lowered, machine]
  cases lowerExpr columns expr false with
  | none => rfl
  | some code =>
    change (fcvtFromSint code).run _ = (code.run _).map converted
    rw [Ir.run]
    cases code.run (packRow row columns) <;> rfl

theorem truthSlot_or (first second : Bool) : truthSlot first ||| truthSlot second = truthSlot (first || second) := by
  cases first <;> cases second <;> rfl

theorem run_lowerItems {value : Ir .i64} (left : value.run slots = some slot) (numeric : list.all isNumericItem)
    {acc : Ir .i64} {seen : Bool} (start : acc.run slots = some (truthSlot seen)) :
    (lowerItems value list acc).bind (·.run slots) = some (truthSlot (seen || machineFinds slot list)) := by
  induction list generalizing acc seen with
  | nil => simpa [lowerItems, machineFinds] using start
  | cons item rest ih =>
    have others : rest.all isNumericItem := by simp_all
    have slotted (wanted : Int64) (known : literalSlot item = some wanted) (some : item ≠ .null)
        (next : lowerItems value (item :: rest) acc =
          lowerItems value rest (.bitwise .bor acc (selectBool (.icmp .equal value (.iconst wanted))))) :
        (lowerItems value (item :: rest) acc).bind (·.run slots) =
          Option.some (truthSlot (seen || machineFinds slot (item :: rest))) := by
      have step : (bitwise .bor acc (selectBool (.icmp .equal value (.iconst wanted)))).run slots =
          Option.some (truthSlot (seen || decide (slot = wanted))) := by
        rw [Ir.run, run_selectBool, Ir.run, left, start, ← truthSlot_or]
        rfl
      have found : decide (item ≠ .null ∧ literalSlot item = Option.some slot) = decide (slot = wanted) := by
        simp [known, some, eq_comm]
      rw [next, ih others step, Bool.or_assoc, ← found]
      rfl
    cases item with
    | null => exact ih others start
    | string text => simp [isNumericItem] at numeric
    | int number => exact slotted number rfl (by simp) rfl
    | float number => exact slotted _ rfl (by simp) rfl
    | bool truth => exact slotted _ rfl (by simp) rfl

theorem lowerItems_string {value acc : Ir .i64} (text : ¬ list.all isNumericItem) :
    lowerItems value list acc = none := by
  induction list generalizing acc with
  | nil => simp at text
  | cons item rest ih =>
    cases item with
    | null => exact ih (by simpa [isNumericItem] using text)
    | string text => rfl
    | int number => exact ih (by simpa [isNumericItem] using text)
    | float number => exact ih (by simpa [isNumericItem] using text)
    | bool truth => exact ih (by simpa [isNumericItem] using text)

theorem machine_inList (expr : Expression) (list : List Value) (negated asBool : Bool) :
    machine row columns (.inList expr list negated) asBool = (machine row columns expr false).bind fun slot =>
      if list.all isNumericItem then some (truthSlot (machineFinds slot list != negated)) else none := by
  rw [machine, machine, lowerExpr]
  cases lowerExpr columns expr false with
  | none => rfl
  | some value =>
    change ((lowerItems value list (.iconst 0)).bind fun acc =>
      some (after value (if negated then .bitwise .bxor acc (.iconst 1) else acc))).bind (·.run (packRow row columns)) =
        (value.run (packRow row columns)).bind _
    by_cases numeric : list.all isNumericItem
    · simp only [numeric]
      cases run : value.run (packRow row columns) with
      | none =>
        cases lowerItems value list (.iconst 0)
        all_goals
          simp [run]
          rfl
      | some slot =>
        have start : (iconst 0).run (packRow row columns) = some (truthSlot false) := rfl
        obtain ⟨acc, items, loop⟩ := bind_eq_some_iff.mp (run_lowerItems run numeric start)
        cases negated with
        | false =>
          simp only [items, bind_some, Ir.run, run, Bool.bne_false]
          exact loop
        | true =>
          rw [items]
          change (after value (.bitwise .bxor acc (.iconst 1))).run _ = some (truthSlot (_ != true))
          rw [Ir.run, run, Ir.run, loop]
          cases machineFinds slot list <;> rfl
    · simp only [numeric, lowerItems_string numeric]
      exact (bind_fun_none _).symm

theorem truthSlot_ne_zero (truth : Bool) : truthSlot (decide (truthSlot truth ≠ 0)) = truthSlot truth := by
  cases truth <;> rfl

theorem run_map_asTruth (lowered : Option (Ir .i64)) :
    (lowered.map (asTruth true)).bind (·.run slots) =
      ((lowered.map (asTruth false)).bind (·.run slots)).map fun slot : Int64 => truthSlot (slot ≠ 0) := by
  cases lowered with
  | none => rfl
  | some value => exact run_boolFromI64 slots value

theorem machine_truth (expr : Expression) :
    machine row columns expr true = (machine row columns expr false).map fun slot => truthSlot (slot ≠ 0) := by
  cases expr with
  | column name => exact run_map_asTruth _
  | literal text => exact run_map_asTruth _
  | arith left op right => exact run_map_asTruth _
  | binaryOp left op right =>
    rw [machine_binaryOp, machine_binaryOp]
    cases machine row columns left false <;> cases machine row columns right false
    all_goals first | rfl | exact congrArg some (truthSlot_ne_zero _).symm
  | and left right =>
    rw [machine_and, machine_and]
    cases machine row columns left true <;> cases machine row columns right true
    all_goals first | rfl | exact congrArg some (truthSlot_ne_zero _).symm
  | or left right =>
    rw [machine_or, machine_or]
    cases machine row columns left true <;> cases machine row columns right true
    all_goals first | rfl | exact congrArg some (truthSlot_ne_zero _).symm
  | inList expr list negated =>
    rw [machine_inList, machine_inList]
    cases machine row columns expr false <;> cases list.all isNumericItem
    all_goals first | rfl | exact congrArg some (truthSlot_ne_zero _).symm
  | _ => rfl

theorem mem_collectJitColumns (member : name ∈ walkCols expr) : name ∈ collectJitColumns expr := by
  rw [collectJitColumns, mem_destutter]
  exact (List.mem_insertionSort (· ≤ ·)).mpr member

variable {columns}

theorem columnSlot_of_mem (member : name ∈ columns) :
    ∃ index, columnSlot columns name = some index ∧ columns[index]? = some name := by
  obtain ⟨place, found⟩ := List.mem_iff_getElem?.mp member
  have listed : (name, place) ∈ columns.zipIdx.reverse := by simpa [List.mem_zipIdx_iff_getElem?] using found
  cases looked : columns.zipIdx.reverse.lookup name with
  | none =>
    have absent := List.lookup_eq_none_iff.mp looked (name, place) listed
    simp at absent
  | some index =>
    obtain ⟨before, after, split, -⟩ := List.lookup_eq_some_iff.mp looked
    have kept : (name, index) ∈ columns.zipIdx.reverse := by simp [split]
    exact ⟨index, looked, by simpa [List.mem_zipIdx_iff_getElem?] using kept⟩

theorem machine_column (member : name ∈ columns) :
    machine row columns (.column name) false = some (packCell row name) := by
  obtain ⟨index, slot, place⟩ := columnSlot_of_mem member
  rw [machine, lowerExpr, slot]
  change (packRow row columns)[index]? = _
  rw [packRow, List.getElem?_map, place]
  rfl

end Machine

/-! Where a single operation gives the same on the machine as in the interpreter. -/

/-- What stands for a value in a register: its bits if it is a float, and 0 if it is no value. -/
def slotOf : Value → Option Int64
  | .string text => if text = "" then some 0 else none
  | value => literalSlot value

def numberOf : Value → Option Float
  | .float number => some number
  | value => (slotOf value).map converted

def agreedSlot (value : Value) : Option Value := if (slotOf value).isSome then some value else none

def agreedNumber (value : Value) : Option Value := do
  if numberOf value = some (converted (← slotOf value)) then some value else none

def agreedCompare (left : Value) (op : FilterOp) (right : Value) : Option Value := do
  let first ← slotOf left
  let second ← slotOf right
  let answer := (conditionOf op).test first second
  if left.isNull || right.isNull then if answer then none else some .null
  else
    let number ← left.asF64
    let number' ← right.asF64
    if compareFloats number op number' = answer then some (.bool answer) else none

def agreedLogic (op : Bool → Bool → Bool) (answer left right : Value) : Option Value := do
  let first ← slotOf left
  let second ← slotOf right
  if op left.isTruthy right.isTruthy = op (first ≠ 0) (second ≠ 0) then some answer else none

def wholeResult (first : Int64) (op : ArithOp) (second : Int64) : Option Value :=
  match op with
  | .add => some (.int (clampInt64 (first.toInt + second.toInt)))
  | .sub => some (.int (clampInt64 (first.toInt - second.toInt)))
  | .mul => some (.int (clampInt64 (first.toInt * second.toInt)))
  | .div => if second = 0 ∨ first = minValue ∧ second = -1 then none else some (.int (first / second))

def floatResult (first : Float) (op : ArithOp) (second : Float) : Option Value :=
  if op = .div ∧ second == 0 then none else some (.float (machineFloat op first second))

/-- The value of an arithmetic expression, where it is one. -/
def arithValue (left : Value) (op : ArithOp) (right : Value) : Option Value :=
  if left = .null ∨ right = .null then some .null
  else if left.isNull || right.isNull then none
  else if isFloat left || isFloat right then do floatResult (← left.asF64) op (← right.asF64)
  else do wholeResult (← slotOf left) op (← slotOf right)

def agreedIntegers (left : Value) (op : ArithOp) (right : Value) : Option Value := do
  let slot ← machineArith op (← slotOf left) (← slotOf right)
  (arithValue left op right).filter (slotOf · = some slot)

def agreedFloats {γ : Type} [DecidableEq γ] (stands : Value → Option γ) (leave : Float → γ) (left : Value)
    (op : ArithOp) (right : Value) : Option Value := do
  let number := machineFloat op (← numberOf left) (← numberOf right)
  (arithValue left op right).filter (stands · = some (leave number))

def agreedInList (value : Value) (list : List Value) (negated : Bool) : Option Value := do
  let found := machineFinds (← slotOf value) list
  if !list.all isNumericItem then none
  else if value.isNull then if found = negated then some .null else none
  else if list.any fun item => !item.isNull && valuesEqual value item then
    if found then some (.bool !negated) else none
  else if list.any isNull then if found = negated then some .null else none
  else if found then none else some (.bool negated)

/-- The value of an expression, if the machine has left what stands for it. -/
def meet {γ : Type} [DecidableEq γ] (stands : Value → Option γ) (answer : Except TakyonicError Value)
    (left : Option γ) : Option Value :=
  left.bind fun slot => answer.toOption.filter (stands · = some slot)

section Steps

variable {left right value : Value} {first second slot : Int64}

theorem meet_ok {γ : Type} [DecidableEq γ] (stands : Value → Option γ) (value : Value) (slot : γ) :
    meet stands (.ok value) (some slot) = if stands value = some slot then some value else none := by
  by_cases same : stands value = some slot
  · simp [meet, same, Except.toOption]
  · simp [meet, same, Except.toOption]

theorem meet_eq_some {γ : Type} [DecidableEq γ] {stands : Value → Option γ} {answer : Except TakyonicError Value}
    {left : Option γ} :
    meet stands answer left = some value ↔
      answer = .ok value ∧ ∃ slot, stands value = some slot ∧ left = some slot := by
  cases answer with
  | error reason => cases left <;> simp [meet, Except.toOption]
  | ok result =>
    cases left with
    | none => simp [meet]
    | some slot =>
      rw [meet_ok]
      grind

theorem known_of_slot (stands : slotOf value = some slot) (known : value.isNull = false) :
    value.isString = false ∧ value.asF64.isSome = true := by
  cases value with
  | null => cases known
  | string text =>
    have empty : ¬ text = "" := by simpa [Value.isNull] using known
    simp [slotOf, empty] at stands
  | _ => exact ⟨rfl, rfl⟩

theorem agreedCompare_eq (leftStands : slotOf left = some first) (rightStands : slotOf right = some second)
    (op : FilterOp) :
    agreedCompare left op right =
      meet slotOf (.ok (if left.isNull || right.isNull then .null else .bool (compareSqlValues left op right)))
        (some (truthSlot ((conditionOf op).test first second))) := by
  rw [agreedCompare, leftStands, rightStands]
  simp only [bind_eq_bind, bind_some]
  by_cases null : (left.isNull || right.isNull) = true
  · rw [if_pos null, if_pos null]
    cases (conditionOf op).test first second <;> rfl
  obtain ⟨known, known'⟩ : left.isNull = false ∧ right.isNull = false := by simpa using null
  obtain ⟨plain, some⟩ := known_of_slot leftStands known
  obtain ⟨plain', some'⟩ := known_of_slot rightStands known'
  obtain ⟨number, isNumber⟩ := isSome_iff_exists.mp some
  obtain ⟨number', isNumber'⟩ := isSome_iff_exists.mp some'
  have compared : compareSqlValues left op right = compareFloats number op number' := by
    simp [compareSqlValues, isNumber, isNumber', plain]
  rw [if_neg null, if_neg null, compared, isNumber, isNumber', bind_some, bind_some]
  cases compareFloats number op number' <;> cases (conditionOf op).test first second <;> rfl

theorem slotOf_and (left right : Value) :
    slotOf (sqlAnd3vl left right) = some (truthSlot (left.isTruthy && right.isTruthy)) := by
  rw [← isTruthy_and, sqlAnd3vl]
  split <;> rfl

theorem slotOf_or (left right : Value) :
    slotOf (sqlOr3vl left right) = some (truthSlot (left.isTruthy || right.isTruthy)) := by
  rw [← isTruthy_or, sqlOr3vl]
  split <;> rfl

theorem agreedLogic_eq (leftStands : slotOf left = some first) (rightStands : slotOf right = some second)
    {op : Bool → Bool → Bool} {answer : Value}
    (stands : slotOf answer = some (truthSlot (op left.isTruthy right.isTruthy))) :
    agreedLogic op answer left right =
      meet slotOf (.ok answer) (some (truthSlot (op (first ≠ 0) (second ≠ 0)))) := by
  rw [agreedLogic, leftStands, rightStands, meet_ok, stands]
  simp only [bind_eq_bind, bind_some]
  cases op left.isTruthy right.isTruthy <;> cases op (first ≠ 0) (second ≠ 0) <;> rfl

theorem cases_of_slot (stands : (slotOf value).isSome) :
    value = .null ∨ value = .string "" ∨ (∃ number, value = .int number) ∨ (∃ number, value = .float number) ∨
      ∃ truth, value = .bool truth := by
  cases value with
  | string text =>
    by_cases empty : text = ""
    · simp [empty]
    · simp [slotOf, empty] at stands
  | _ => simp

theorem toOption_floatArith (first : Float) (op : ArithOp) (second : Float) :
    (floatArith first op second).toOption = floatResult first op second := by
  cases op with
  | div => cases zero : second == 0 <;> simp [floatArith, floatResult, machineFloat, zero, Except.toOption]
  | _ => rfl

theorem toOption_intArith (first : Int64) (op : ArithOp) (second : Int64) :
    (intArith first op second).toOption = wholeResult first op second := by
  cases op with
  | div =>
    by_cases zero : second = 0
    · simp [intArith, wholeResult, zero, Except.toOption]
    · by_cases overflow : first = minValue ∧ second = -1
      · simp [intArith, wholeResult, overflow, Except.toOption]
      · simp [intArith, wholeResult, zero, overflow, Except.toOption]
  | _ => rfl

theorem arithValue_eq (functions : Functions) (leftStands : (slotOf left).isSome)
    (rightStands : (slotOf right).isSome) (op : ArithOp) :
    arithValue left op right = (evalArith functions left op right).toOption := by
  have nothing : (Value.string "").asF64 = none := by decide +kernel
  have nothing' : Schema.parseI64 "" = none := by decide
  have plain {value : Value} (stands : (slotOf value).isSome) : intervalOf value = none := by
    rcases cases_of_slot stands with rfl | rfl | ⟨number, rfl⟩ | ⟨number, rfl⟩ | ⟨truth, rfl⟩ <;> rfl
  have ends : intervalArith functions left op right = none := by
    simp [intervalArith, plain leftStands, plain rightStands]
  rw [arithValue, evalArith]
  rcases cases_of_slot leftStands with rfl | rfl | ⟨number, rfl⟩ | ⟨number, rfl⟩ | ⟨truth, rfl⟩ <;>
    rcases cases_of_slot rightStands with rfl | rfl | ⟨number', rfl⟩ | ⟨number', rfl⟩ | ⟨truth', rfl⟩
  all_goals
    simp [isNull, isFloat, slotOf, literalSlot, coerceF64, valueAsI64, nothing, nothing', truthSlot,
      ← toOption_floatArith, ← toOption_intArith]
  all_goals rfl

theorem agreedInList_eq (stands : slotOf value = some slot) (list : List Value) (negated : Bool) :
    agreedInList value list negated = meet slotOf (.ok (evalInList value list negated))
      (if list.all isNumericItem then some (truthSlot (machineFinds slot list != negated)) else none) := by
  rw [agreedInList, stands]
  simp only [bind_eq_bind, bind_some]
  cases list.all isNumericItem with
  | false => rfl
  | true =>
    rw [if_pos rfl, evalInList]
    generalize machineFinds slot list = found
    cases value.isNull <;> cases list.any fun item => !item.isNull && valuesEqual value item <;>
      cases list.any isNull <;> cases found <;> cases negated <;> rfl

end Steps

end Takyonic.Sql.Jit
