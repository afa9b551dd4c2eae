import Takyonic.Sql.Value

/-! The scalar evaluator: an expression over a row and the bound parameters. -/

namespace Takyonic.Sql

open Foundation Sql.Value

structure ExecutionContext where
  functions : Functions
  params : List Value

def ExecutionContext.plain : ExecutionContext := ⟨.plain, []⟩

def ExecutionContext.param (ctx : ExecutionContext) (index : Nat) : Except TakyonicError Value :=
  match ctx.params[index]? with
  | some value => .ok value
  | none =>
    let number := index + 1
    let count := ctx.params.length
    .error (.sql s!"parameter ${number} not bound (have {count} params)")

/-- The characters that `str::trim` takes off. -/
def isWhiteSpace (char : Char) : Bool :=
  let code := char.toNat
  (9 ≤ code ∧ code ≤ 13) ∨ (0x2000 ≤ code ∧ code ≤ 0x200A) ∨
    code ∈ [0x20, 0x85, 0xA0, 0x1680, 0x2028, 0x2029, 0x202F, 0x205F, 0x3000]

def trim (text : List Char) : List Char :=
  ((text.dropWhile isWhiteSpace).reverse.dropWhile isWhiteSpace).reverse

def parseArrayDisplayElements (text : String) : Except TakyonicError (List Value) :=
  let body := trim text.toList
  match body, body.getLast? with
  | '[' :: rest, some ']' =>
    if rest = [']'] then .ok []
    else .ok ((rest.dropLast.splitOn ',').map fun part => fromText (String.ofList (trim part)))
  | _, _ =>
    let shown := String.ofList body
    .error (.sql s!"not an array value: `{shown}`")

def arrayOfValue (value : Value) : Except TakyonicError (List Value) :=
  if value.isNull then .ok [] else parseArrayDisplayElements value.toDisplay

def negateKnown (negated : Bool) (value : Value) : Value :=
  match value with
  | .bool truth => .bool (if negated then !truth else truth)
  | other => other

def boolTest (test : BoolTest) (value : Value) : Bool :=
  match test with
  | .true => threeValuedBool value = some true
  | .false => threeValuedBool value = some false
  | .unknown => threeValuedBool value = none

def isDistinct (left right : Value) : Bool :=
  match left.isNull, right.isNull with
  | true, true => false
  | true, false => true
  | false, true => true
  | false, false => !valuesEqual left right

def arrayElement (elements : List Value) (index : Value) : Except TakyonicError Value :=
  if index.isNull then .ok .null
  else
    match index.asF64 with
    | none => .error (.sql "array subscript must be numeric")
    | some number =>
      let position := (floatToInt64 truncated number).toInt
      if position < 1 then .ok .null else .ok (elements.getD (position.toNat - 1) .null)

def subqueryError : TakyonicError := .sql ("subquery expression must be rewritten before scalar evaluate " ++
  "(uncorrelated → InList/Literal; use Filter open / SemiJoin)")

def rowToJsonKeys (args : List Expression) : List String :=
  args.mapIdx fun index arg =>
    match arg with
    | .column name => name
    | _ => "f" ++ toString (index + 1)

section Evaluator

variable (ctx : ExecutionContext) (row : Record)

/-- The text that `evaluate_as_vector` parses, given the value of the expression. -/
def vectorText (expr : Expression) (value : Except TakyonicError Value) : Except TakyonicError String :=
  match expr with
  | .array _ => do
    match ← value with
    | .string text => pure text
    | other => pure (valueToField other)
  | .literal text => .ok text
  | .column name =>
    match row.get name with
    | some text => .ok text
    | none => .error (.sql s!"column `{name}` not found")
  | _ => do pure (valueToField (← value))

def evalRowToJson (args : List Expression) (values : List Value) : Value :=
  let fields := if args.isEmpty then row.fields.map fun (name, text) => (name, fromText text)
    else (rowToJsonKeys args).zip values
  .string (ctx.functions.rowToJsonObject fields)

mutual

def evaluate : Expression → Except TakyonicError Value
  | .column name =>
    match row.get name with
    | some text => .ok (fromText text)
    | none => .error (.sql s!"column `{name}` not found")
  | .outerRef name =>
    match row.get name with
    | some text => .ok (fromText text)
    | none => .error (.sql s!"outer reference `{name}` not found on current row")
  | .literal text => .ok (fromText text)
  | .parameter index => ctx.param index
  | .binaryOp left op right => do
    let first ← evaluate left
    let second ← evaluate right
    if first.isNull || second.isNull then pure .null
    else pure (.bool (compareSqlValues first op second))
  | .and left right => do
    let first ← evaluate left
    let second ← evaluate right
    pure (sqlAnd3vl first second)
  | .or left right => do
    let first ← evaluate left
    let second ← evaluate right
    pure (sqlOr3vl first second)
  | .arith left op right => do
    let first ← evaluate left
    let second ← evaluate right
    evalArith ctx.functions first op second
  | .aggregateFunction name _ _ _ _ =>
    .error (.sql s!"aggregate `{name}` cannot be evaluated as a scalar expression")
  | .inSubquery _ _ _ _ _ => .error subqueryError
  | .exists _ _ _ => .error subqueryError
  | .scalarSubquery _ _ _ => .error subqueryError
  | .inList expr list negated => do pure (evalInList (← evaluate expr) list negated)
  | .vectorDistance left right metric => do
    let first ← ctx.functions.parseVector (← vectorText row left (evaluate left))
    let second ← ctx.functions.parseVector (← vectorText row right (evaluate right))
    pure (.float (← ctx.functions.distance metric first second))
  | .array items => do
    let values ← evaluateAll items
    pure (.string ("[" ++ ",".intercalate (values.map valueToField) ++ "]"))
  | .arrayIndex array index => do
    let elements ← evalArrayElements array (evaluate array)
    arrayElement elements (← evaluate index)
  | .like expr pattern caseInsensitive negated any escape => do
    let value ← evaluate expr
    if value.isNull then pure .null
    else if any then do
      let elements ← evalArrayElements pattern (evaluate pattern)
      match evalLikeAny ctx.functions (valueToField value) elements caseInsensitive escape with
      | some truth => pure (negateKnown negated (.bool truth))
      | none => pure .null
    else do
      let second ← evaluate pattern
      if second.isNull then pure .null
      else pure (negateKnown negated (.bool
        (ctx.functions.sqlLikeMatch (valueToField value) (valueToField second) caseInsensitive escape)))
  | .similarTo expr pattern negated escape => do
    let first ← evaluate expr
    let second ← evaluate pattern
    if first.isNull || second.isNull then pure .null
    else do
      let matched ← ctx.functions.sqlSimilarToMatch (valueToField first) (valueToField second) escape
      pure (negateKnown negated (.bool matched))
  | .regexMatch expr pattern caseInsensitive negated => do
    let first ← evaluate expr
    let second ← evaluate pattern
    if first.isNull || second.isNull then pure .null
    else do
      let flags := if caseInsensitive then some "i" else none
      let matched ← ctx.functions.regexpLike (valueToField first) (valueToField second) flags
      pure (negateKnown negated (.bool matched))
  | .atTimeZone timestamp timeZone => do
    let first ← evaluate timestamp
    let second ← evaluate timeZone
    if first.isNull || second.isNull then pure .null
    else do pure (.string (← ctx.functions.atTimeZone (valueToField first) (valueToField second)))
  | .case whenThen elseResult => evaluateCase whenThen (evaluateElse elseResult)
  | .isNull expr negated => do pure (negateKnown negated (.bool (← evaluate expr).isNull))
  | .isBoolTest expr test negated => do pure (negateKnown negated (.bool (boolTest test (← evaluate expr))))
  | .isDistinctFrom left right negated => do
    let first ← evaluate left
    let second ← evaluate right
    pure (negateKnown negated (.bool (isDistinct first second)))
  | .quantifiedCmp left op right quantifier => do
    let value ← evaluate left
    let elements ← evalArrayElements right (evaluate right)
    pure (evalQuantifiedCmp value op elements quantifier)
  | .coalesce args => evaluateCoalesce args
  | .cast expr target tryCast => do castSqlValue ctx.functions (← evaluate expr) target tryCast
  | .nullIf left right => do
    let first ← evaluate left
    let second ← evaluate right
    if valuesEqual first second then pure .null else pure first
  | .scalarFunction name args => do
    let values ← evaluateAll args
    if name = "ROW_TO_JSON" then pure (evalRowToJson ctx row args values)
    else ctx.functions.scalarFunction name values
  | .not expr => do
    let value ← evaluate expr
    if value.isNull then pure .null else pure (.bool !value.isTruthy)

def evaluateAll : List Expression → Except TakyonicError (List Value)
  | [] => .ok []
  | expr :: rest => do
    let value ← evaluate expr
    let values ← evaluateAll rest
    pure (value :: values)

def evalArrayElements : Expression → Except TakyonicError Value → Except TakyonicError (List Value)
  | .array items, _ => evaluateAll items
  | .scalarFunction name [first, second], value =>
    if name = "ARRAY_CAT" then do
      let elements ← evalArrayElements first (evaluate first)
      let others ← evalArrayElements second (evaluate second)
      pure (elements ++ others)
    else value >>= arrayOfValue
  | _, value => value >>= arrayOfValue

def evaluateCase : List (Expression × Expression) → Except TakyonicError Value → Except TakyonicError Value
  | [], otherwise => otherwise
  | (cond, result) :: rest, otherwise => do
    if (← evaluate cond).isTruthy then evaluate result else evaluateCase rest otherwise

def evaluateElse : Option Expression → Except TakyonicError Value
  | none => .ok .null
  | some expr => evaluate expr

def evaluateCoalesce : List Expression → Except TakyonicError Value
  | [] => .ok .null
  | expr :: rest => do
    let value ← evaluate expr
    if value.isNull then evaluateCoalesce rest else pure value

end

def evaluateBool (expr : Expression) : Except TakyonicError Bool :=
  (evaluate ctx row expr).map isTruthy

end Evaluator

end Takyonic.Sql
