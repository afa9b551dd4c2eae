import Takyonic.Foundation.Decimal
import Takyonic.Sql.Plan
import Takyonic.Storage.Schema

/-! SQL values: how a text becomes one, and how they are compared, combined and stored. -/

namespace Takyonic.Sql

open Foundation Sql.Value Int64

/-- The functions of SQL texts, vectors and documents that expressions call. -/
structure Functions where
  sqlLikeMatch : String → String → Bool → Option Char → Bool
  sqlSimilarToMatch : String → String → Option Char → Except TakyonicError Bool
  regexpLike : String → String → Option String → Except TakyonicError Bool
  atTimeZone : String → String → Except TakyonicError String
  addSecsToTimestampText : String → Int64 → Except TakyonicError String
  parseJson : String → Except String String
  parseVector : String → Except TakyonicError (List UInt32)
  distance : DistanceMetric → List UInt32 → List UInt32 → Except TakyonicError Float
  rowToJsonObject : List (String × Value) → String
  scalarFunction : String → List Value → Except TakyonicError Value
  aggregate : String → List (List Value) → Except TakyonicError Value
  debug : String → String

def Functions.plain : Functions where
  sqlLikeMatch text pattern _ _ := text = pattern
  sqlSimilarToMatch text pattern _ := .ok (text = pattern)
  regexpLike text pattern _ := .ok (text = pattern)
  atTimeZone text _ := .ok text
  addSecsToTimestampText text _ := .ok text
  parseJson text := .ok text
  parseVector _ := .ok []
  distance _ _ _ := .ok 0
  rowToJsonObject _ := ""
  scalarFunction _ _ := .ok .null
  aggregate _ _ := .ok .null
  debug text := text

def toAsciiLowercase (text : String) : String := String.ofList (text.toList.map Char.toLower)

namespace Value

def fromText (text : String) : Value :=
  match Schema.parseI64 text with
  | some number => .int (ofInt number)
  | none =>
    match parseFloat text with
    | some number =>
      if text.toList.any (fun char => char = '.' ∨ char = 'e' ∨ char = 'E') then .float number else word
    | none => word
where
  word : Value :=
    let lower := toAsciiLowercase text
    if lower = "true" ∨ lower = "t" then .bool true
    else if lower = "false" ∨ lower = "f" then .bool false
    else .string text

def boolText (truth : Bool) : String := if truth then "true" else "false"

def toDisplay : Value → String
  | .null => ""
  | .int number => toString number.toInt
  | .float number => floatToString number
  | .string text => text
  | .bool truth => boolText truth

def isTruthy : Value → Bool
  | .null => false
  | .bool truth => truth
  | .int number => number ≠ 0
  | .float number => number != 0
  | .string text => text ≠ "" ∧ text ≠ "0" ∧ text ≠ "false"

def isNull : Value → Bool
  | .null => true
  | .string text => text = ""
  | _ => false

def isString : Value → Bool
  | .string _ => true
  | _ => false

def asF64 : Value → Option Float
  | .null => none
  | .int number => some (floatOfInt number.toInt)
  | .float number => some number
  | .string text => parseFloat text
  | .bool truth => some (if truth then 1 else 0)

end Value

/-- `f64::EPSILON` -/
def epsilon : Float := Float.ofBits 0x3CB0000000000000

def compareFloats (first : Float) (op : FilterOp) (second : Float) : Bool :=
  match op with
  | .eq => (first - second).abs < epsilon
  | .ne => (first - second).abs ≥ epsilon
  | .gt => first > second
  | .gte => first ≥ second
  | .lt => first < second
  | .lte => first ≤ second

def compareTexts (first : String) (op : FilterOp) (second : String) : Bool :=
  match op with
  | .eq => first = second
  | .ne => first ≠ second
  | .gt => second < first
  | .gte => ¬ first < second
  | .lt => first < second
  | .lte => ¬ second < first

def compareSqlValues (left : Value) (op : FilterOp) (right : Value) : Bool :=
  match left.asF64, right.asF64 with
  | some first, some second =>
    if left.isString && right.isString then compareTexts left.toDisplay op right.toDisplay
    else compareFloats first op second
  | _, _ => compareTexts left.toDisplay op right.toDisplay

def valuesEqual (left right : Value) : Bool := compareSqlValues left .eq right

def valueOrd (left right : Value) : Ordering :=
  if compareSqlValues left .lt right then .lt
  else if compareSqlValues left .gt right then .gt
  else .eq

def threeValuedBool (value : Value) : Option Bool := if value.isNull then none else some value.isTruthy

def sqlAnd3vl (left right : Value) : Value :=
  match threeValuedBool left, threeValuedBool right with
  | some false, _ => .bool false
  | _, some false => .bool false
  | some true, some true => .bool true
  | _, _ => .null

def sqlOr3vl (left right : Value) : Value :=
  match threeValuedBool left, threeValuedBool right with
  | some true, _ => .bool true
  | _, some true => .bool true
  | some false, some false => .bool false
  | _, _ => .null

theorem isTruthy_of_isNull {value : Value} (null : value.isNull = true) : value.isTruthy = false := by
  cases value with
  | null => rfl
  | string text =>
    have empty : text = "" := by simpa [isNull] using null
    rw [empty]
    rfl
  | _ => cases null

theorem isTruthy_and (left right : Value) : (sqlAnd3vl left right).isTruthy = (left.isTruthy && right.isTruthy) := by
  have falsy := @isTruthy_of_isNull left
  have falsy' := @isTruthy_of_isNull right
  grind [sqlAnd3vl, threeValuedBool, isTruthy]

theorem isTruthy_or (left right : Value) : (sqlOr3vl left right).isTruthy = (left.isTruthy || right.isTruthy) := by
  have falsy := @isTruthy_of_isNull left
  have falsy' := @isTruthy_of_isNull right
  grind [sqlOr3vl, threeValuedBool, isTruthy]

def intervalMarker : String := "__ivl:"

def encodeIntervalSecs (secs : Int64) : String := intervalMarker ++ toString secs.toInt

def decodeIntervalSecs (text : String) : Option Int64 :=
  if intervalMarker.toList.isPrefixOf text.toList then
    (Schema.parseI64 (String.ofList (text.toList.drop intervalMarker.length))).map ofInt
  else none

def twoDigits (number : Nat) : String := if number < 10 then "0" ++ toString number else toString number

def formatIntervalSecs (secs : Int64) : String :=
  let total := secs.toInt.natAbs
  let days := total / 86400
  let months := days / 30
  let days := days % 30
  let rest := total % 86400
  let hours := rest / 3600
  let mins := rest % 3600 / 60
  let seconds := rest % 60
  let parts := if months = 0 then [] else [toString months ++ if months = 1 then " mon" else " mons"]
  let parts := if days = 0 then parts else parts ++ [toString days ++ if days = 1 then " day" else " days"]
  let parts := if 0 < hours ∨ 0 < mins ∨ 0 < seconds ∨ parts = [] then
      parts ++ [twoDigits hours ++ ":" ++ twoDigits mins ++ ":" ++ twoDigits seconds]
    else parts
  let body := " ".intercalate parts
  if secs.toInt < 0 then "-" ++ body else body

def valueToField : Value → String
  | .null => ""
  | .int number => toString number.toInt
  | .float number => floatToString number
  | .string text =>
    match decodeIntervalSecs text with
    | some secs => formatIntervalSecs secs
    | none => text
  | .bool truth => boolText truth

def valueAsI64 : Value → Except TakyonicError Int64
  | .int number => .ok number
  | .float number => .ok (floatToInt64 truncated number)
  | .string text =>
    match Schema.parseI64 text with
    | some number => .ok (ofInt number)
    | none => .error (.sql s!"cannot cast `{text}` to integer for aggregate")
  | .bool truth => .ok (if truth then 1 else 0)
  | .null => .error (.sql "NULL cannot be coerced to integer")

def saturatingAdd (first second : Int64) : Int64 := clampInt64 (first.toInt + second.toInt)

def saturatingSub (first second : Int64) : Int64 := clampInt64 (first.toInt - second.toInt)

def saturatingMul (first second : Int64) : Int64 := clampInt64 (first.toInt * second.toInt)

def intervalOf : Value → Option Int64
  | .string text => decodeIntervalSecs text
  | _ => none

variable (functions : Functions)

/-- The arms of `eval_arith` in which an operand is an interval. -/
def intervalArith (left : Value) (op : ArithOp) (right : Value) :
    Option (Except TakyonicError Value) :=
  let shifted (text : String) (delta : Int64) : Except TakyonicError Value :=
    (functions.addSecsToTimestampText text delta).map .string
  let scaled (secs : Int64) (factor : Float) : Value :=
    .string (encodeIntervalSecs (floatToInt64 roundedHalfUp (floatOfInt secs.toInt * factor)))
  match intervalOf left, intervalOf right, op with
  | some first, some second, .add => some (.ok (.string (encodeIntervalSecs (saturatingAdd first second))))
  | some first, some second, .sub => some (.ok (.string (encodeIntervalSecs (saturatingSub first second))))
  | some _, some _, _ => some (.error (.sql "INTERVAL * / INTERVAL is not supported"))
  | some secs, none, .mul =>
    match right.asF64 with
    | some factor => some (.ok (scaled secs factor))
    | none => some (.error (.sql "INTERVAL * requires a number"))
  | none, some secs, .mul =>
    match left.asF64 with
    | some factor => some (.ok (scaled secs factor))
    | none => some (.error (.sql "INTERVAL * requires a number"))
  | some secs, none, .div =>
    match right.asF64 with
    | some divisor =>
      if divisor == 0 then some (.error (.sql "division by zero"))
      else some (.ok (.string (encodeIntervalSecs (floatToInt64 roundedHalfUp (floatOfInt secs.toInt / divisor)))))
    | none => some (.error (.sql "INTERVAL / requires a number"))
  | some delta, none, .add => some (shifted right.toDisplay delta)
  | none, some delta, .add => some (shifted left.toDisplay delta)
  | none, some delta, .sub => some (shifted left.toDisplay (-delta))
  | some _, none, .sub => some (.error (.sql "INTERVAL - timestamp is not supported (use timestamp - INTERVAL)"))
  | _, _, _ => none

def isFloat : Value → Bool
  | .float _ => true
  | _ => false

def coerceF64 (value : Value) : Except TakyonicError Float :=
  match value.asF64 with
  | some number => .ok number
  | none => do
    let shown := functions.debug value.toDisplay
    .error (.sql s!"cannot coerce String({shown}) for arithmetic")

def floatArith (first : Float) (op : ArithOp) (second : Float) : Except TakyonicError Value :=
  match op with
  | .add => .ok (.float (first + second))
  | .sub => .ok (.float (first - second))
  | .mul => .ok (.float (first * second))
  | .div => if second == 0 then .error (.sql "division by zero") else .ok (.float (first / second))

def intArith (first : Int64) (op : ArithOp) (second : Int64) : Except TakyonicError Value :=
  match op with
  | .add => .ok (.int (saturatingAdd first second))
  | .sub => .ok (.int (saturatingSub first second))
  | .mul => .ok (.int (saturatingMul first second))
  | .div =>
    if second = 0 then .error (.sql "division by zero")
    else if first = minValue ∧ second = -1 then .error (.engine "attempt to divide with overflow")
    else .ok (.int (first / second))

def evalArith (left : Value) (op : ArithOp) (right : Value) : Except TakyonicError Value :=
  if left = .null ∨ right = .null then .ok .null
  else
    match intervalArith functions left op right with
    | some answer => answer
    | none =>
      if isFloat left || isFloat right then do
        let first ← coerceF64 functions left
        let second ← coerceF64 functions right
        floatArith first op second
      else do
        let first ← valueAsI64 left
        let second ← valueAsI64 right
        intArith first op second

/-- `cast_sql_value`; a failed cast is no value under `TRY_CAST`. -/
def castSqlValue (value : Value) (target : CastTarget) (tryCast : Bool) :
    Except TakyonicError Value :=
  let hard (message : String) : Except TakyonicError Value :=
    if tryCast then .ok .null else .error (.sql message)
  let display := value.toDisplay
  if value.isNull then .ok .null
  else
    match target with
    | .text => .ok (.string display)
    | .int =>
      match value.asF64.filter Float.isFinite with
      | some number => .ok (.int (floatToInt64 truncated number))
      | none =>
        match Schema.parseI64 display with
        | some number => .ok (.int (ofInt number))
        | none => hard s!"cannot cast `{display}` to INT"
    | .float =>
      match value.asF64 with
      | some number => .ok (.float number)
      | none => hard s!"cannot cast `{display}` to FLOAT"
    | .bool =>
      match value with
      | .string text => do
        let lower := toAsciiLowercase text
        if lower ∈ ["true", "t", "1", "yes", "y", "on"] then .ok (.bool true)
        else if lower ∈ ["false", "f", "0", "no", "n", "off"] then .ok (.bool false)
        else hard s!"cannot cast `{lower}` to BOOL"
      | other => .ok (.bool other.isTruthy)
    | .json =>
      match functions.parseJson display with
      | .ok text => .ok (.string text)
      | .error reason => hard s!"cannot cast to JSON/JSONB: {reason}"

def evalLikeAny (text : String) (patterns : List Value) (caseInsensitive : Bool)
    (escape : Option Char) : Option Bool :=
  if patterns.any fun pattern =>
      !pattern.isNull && functions.sqlLikeMatch text (valueToField pattern) caseInsensitive escape then some true
  else if patterns.any isNull then none
  else some false

def evalQuantifiedCmp (left : Value) (op : FilterOp) (elems : List Value) (quantifier : Quantifier) : Value :=
  let known := if left.isNull then [] else (elems.filter (!·.isNull)).map (compareSqlValues left op)
  let unknown := known.length ≠ elems.length
  match quantifier with
  | .any => if true ∈ known then .bool true else if unknown then .null else .bool false
  | .all => if false ∈ known then .bool false else if unknown then .null else .bool true

def evalInList (value : Value) (list : List Value) (negated : Bool) : Value :=
  if value.isNull then .null
  else if list.any fun item => !item.isNull && valuesEqual value item then .bool !negated
  else if list.any isNull then .null
  else .bool negated

example : [("1", "1.0"), ("t", "1"), ("a", "b"), ("01", "1")].map (fun (left, right) =>
      valuesEqual (fromText left) (fromText right)) = [true, true, false, true] := by
  decide +kernel

end Takyonic.Sql
