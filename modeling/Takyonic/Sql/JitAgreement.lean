import Takyonic.Sql.Jit

/-! Where the compiled code and the interpreter give the same answer. -/

namespace Takyonic.Sql.Jit

open Foundation Option Sql.Value

inductive Register where
  | whole
  | float
  deriving DecidableEq, Repr

section Agreed

variable (row : Record)

mutual

/-- The value of an expression on a row, where each step of the machine gives what the step of the interpreter does. -/
def agreedWhole : Expression → Option Value
  | .column name => do agreedSlot (fromText (← row.get name))
  | .literal text => if (fromText text).isString then none else some (fromText text)
  | .binaryOp left op right => do agreedCompare (← agreedWhole left) op (← agreedWhole right)
  | .and left right => do
    let first ← agreedWhole left
    let second ← agreedWhole right
    agreedLogic and (sqlAnd3vl first second) first second
  | .or left right => do
    let first ← agreedWhole left
    let second ← agreedWhole right
    agreedLogic or (sqlOr3vl first second) first second
  | .arith left op right =>
    if exprNeedsFloat left || exprNeedsFloat right then do
      let first ← agreedFloat left (agreedWhole left)
      let second ← agreedFloat right (agreedWhole right)
      agreedFloats slotOf (·.toBits.toInt64) first op second
    else do agreedIntegers (← agreedWhole left) op (← agreedWhole right)
  | .inList expr list negated => do agreedInList (← agreedWhole expr) list negated
  | _ => none

def agreedFloat : Expression → Option Value → Option Value
  | .literal text, _ =>
    match fromText text with
    | .float number => some (.float number)
    | .int number => some (.int number)
    | _ => none
  | .arith left op right, _ => do
    let first ← agreedFloat left (agreedWhole left)
    let second ← agreedFloat right (agreedWhole right)
    agreedFloats numberOf id first op second
  | _, known => do agreedNumber (← known)

end

def agreed : Register → Expression → Option Value
  | .whole, expr => agreedWhole row expr
  | .float, expr => agreedFloat row expr (agreedWhole row expr)

end Agreed

mutual

def belowWhole : Expression → List (Register × Expression)
  | .binaryOp left _ right => (.whole, left) :: belowWhole left ++ (.whole, right) :: belowWhole right
  | .and left right => (.whole, left) :: belowWhole left ++ (.whole, right) :: belowWhole right
  | .or left right => (.whole, left) :: belowWhole left ++ (.whole, right) :: belowWhole right
  | .arith left _ right =>
    if exprNeedsFloat left || exprNeedsFloat right then
      (.float, left) :: belowFloat left (belowWhole left) ++ (.float, right) :: belowFloat right (belowWhole right)
    else (.whole, left) :: belowWhole left ++ (.whole, right) :: belowWhole right
  | .inList expr _ _ => (.whole, expr) :: belowWhole expr
  | _ => []

def belowFloat : Expression → List (Register × Expression) → List (Register × Expression)
  | .literal _, _ => []
  | .arith left _ right, _ =>
    (.float, left) :: belowFloat left (belowWhole left) ++ (.float, right) :: belowFloat right (belowWhole right)
  | expr, known => (.whole, expr) :: known

end

def below : Register → Expression → List (Register × Expression)
  | .whole, expr => belowWhole expr
  | .float, expr => belowFloat expr (belowWhole expr)

/-- An expression and those that its code computes on the way, each with where it is left. -/
def parts (register : Register) (expr : Expression) : List (Register × Expression) :=
  (register, expr) :: below register expr

theorem compiled_induction {motive : Expression → Prop} (column : ∀ name, motive (.column name))
    (literal : ∀ text, motive (.literal text))
    (binaryOp : ∀ left op right, motive left → motive right → motive (.binaryOp left op right))
    (and : ∀ left right, motive left → motive right → motive (.and left right))
    (or : ∀ left right, motive left → motive right → motive (.or left right))
    (arith : ∀ left op right, motive left → motive right → motive (.arith left op right))
    (inList : ∀ expr list negated, motive expr → motive (.inList expr list negated))
    (other : ∀ expr, (∀ columns asBool, lowerExpr columns expr asBool = none) →
      (∀ columns known, lowerAsF64 columns expr known = known.map .fcvtFromSint) →
      (∀ row, agreedWhole row expr = none) → (∀ row known, agreedFloat row expr known = known.bind agreedNumber) →
      belowWhole expr = [] → (∀ known, belowFloat expr known = (.whole, expr) :: known) → motive expr)
    (expr : Expression) : motive expr := by
  induction expr using isJitCompilable.induct with
  | case1 name => exact column name
  | case2 text => exact literal text
  | case3 left op right first second => exact binaryOp left op right first second
  | case4 left right first second => exact and left right first second
  | case5 left right first second => exact or left right first second
  | case6 left op right first second => exact arith left op right first second
  | case7 expr list negated inner => exact inList expr list negated inner
  | case8 expr notColumn notLiteral notCompare notAnd notOr notArith notIn =>
    cases expr with
    | column name => exact (notColumn name rfl).elim
    | literal text => exact (notLiteral text rfl).elim
    | binaryOp left op right => exact (notCompare left op right rfl).elim
    | and left right => exact (notAnd left right rfl).elim
    | or left right => exact (notOr left right rfl).elim
    | arith left op right => exact (notArith left op right rfl).elim
    | inList expr list negated => exact (notIn expr list negated rfl).elim
    | _ =>
      exact other _ (fun _ _ => rfl) (fun _ _ => rfl) (fun _ => rfl) (fun _ _ => rfl) rfl (fun _ => rfl)

section Agreement

variable (ctx : ExecutionContext) (row : Record) (columns : List String)

def met : Register → Expression → Option Value
  | .whole, expr => meet slotOf (evaluate ctx row expr) (machine row columns expr false)
  | .float, expr => meet numberOf (evaluate ctx row expr) (machineF64 row columns expr)

def standsFor (part : Register × Expression) : Bool := (met ctx row columns part.1 part.2).isSome

/-- What is agreed on is what both sides answer, if they do for all that the code computes on the way. -/
def Exact (register : Register) (expr : Expression) : Prop :=
  agreed row register expr =
    if (below register expr).all (standsFor ctx row columns) then met ctx row columns register expr else none

variable {ctx row columns} {register under : Register} {node left right expr : Expression} {value value' : Value}

theorem Exact.leaf (shape : below register expr = [])
    (answered : agreed row register expr = met ctx row columns register expr) :
    Exact ctx row columns register expr := by
  rw [Exact, shape, answered]
  rfl

theorem Exact.unary {step : Value → Option Value} (operand : Exact ctx row columns under expr)
    (shape : below register node = parts under expr)
    (computed : agreed row register node = (agreed row under expr).bind step)
    (answered : ∀ value, met ctx row columns under expr = some value → step value = met ctx row columns register node) :
    Exact ctx row columns register node := by
  rw [Exact, computed, operand, shape, parts, List.all_cons, standsFor]
  cases (below under expr).all (standsFor ctx row columns) <;> cases known : met ctx row columns under expr
  all_goals simp
  exact answered _ known

theorem Exact.binary {step : Value → Value → Option Value} (first : Exact ctx row columns under left)
    (second : Exact ctx row columns under right)
    (shape : below register node = parts under left ++ parts under right)
    (computed : agreed row register node =
      (agreed row under left).bind fun value => (agreed row under right).bind (step value))
    (answered : ∀ value value', met ctx row columns under left = some value →
      met ctx row columns under right = some value' → step value value' = met ctx row columns register node) :
    Exact ctx row columns register node := by
  rw [Exact, computed, first, second, shape, List.all_append, parts, parts, List.all_cons, List.all_cons, standsFor,
    standsFor]
  cases (below under left).all (standsFor ctx row columns) <;>
    cases (below under right).all (standsFor ctx row columns) <;>
    cases known : met ctx row columns under left <;> cases known' : met ctx row columns under right
  all_goals simp
  exact answered _ _ known known'

theorem evaluate_both (step : Value → Value → Except TakyonicError Value) (first : evaluate ctx row left = .ok value)
    (second : evaluate ctx row right = .ok value') :
    (evaluate ctx row left >>= fun first => evaluate ctx row right >>= fun second => step first second) =
      step value value' := by
  rw [first, second]
  rfl

theorem exact_column {name : String} (member : name ∈ columns) :
    agreed row .whole (.column name) = met ctx row columns .whole (.column name) := by
  rw [met, machine_column row member, agreed, agreedWhole, evaluate]
  cases cell : row.get name with
  | none => rfl
  | some text =>
    change agreedSlot (fromText text) = meet slotOf (.ok (fromText text)) _
    rw [meet_ok, agreedSlot, packCell, cell, map_some]
    cases fromText text with
    | string text =>
      by_cases empty : text = ""
      · subst empty
        decide
      · simp [slotOf, empty]
    | _ => simp [slotOf, literalSlot]

theorem exact_literal (text : String) :
    agreed row .whole (.literal text) = met ctx row columns .whole (.literal text) := by
  have left : machine row columns (.literal text) false = literalSlot (fromText text) := by
    rw [machine, lowerExpr, literalToIr]
    cases literalSlot (fromText text) <;> rfl
  rw [met, left, agreed, agreedWhole]
  change _ = meet slotOf (.ok (fromText text)) _
  cases fromText text with
  | string text => rfl
  | _ => simp [meet_ok, slotOf, literalSlot, isString]

theorem exact_literal_float (text : String) :
    agreed row .float (.literal text) = met ctx row columns .float (.literal text) := by
  rw [met, agreed, machineF64, lowerAsF64, agreedFloat]
  change _ = meet numberOf (.ok (fromText text)) _
  cases fromText text with
  | float number => exact (if_pos rfl).symm.trans (meet_ok numberOf (.float number) number).symm
  | int number => exact (if_pos rfl).symm.trans (meet_ok numberOf (.int number) (converted number)).symm
  | _ => rfl

theorem exact_binaryOp (op : FilterOp) (first : met ctx row columns .whole left = some value)
    (second : met ctx row columns .whole right = some value') :
    agreedCompare value op value' = met ctx row columns .whole (.binaryOp left op right) := by
  obtain ⟨evaluated, slot, stands, ran⟩ := meet_eq_some.mp first
  obtain ⟨evaluated', slot', stands', ran'⟩ := meet_eq_some.mp second
  have answer : evaluate ctx row (.binaryOp left op right) =
      .ok (if value.isNull || value'.isNull then .null else .bool (compareSqlValues value op value')) := by
    refine (evaluate_both _ evaluated evaluated').trans ?_
    split <;> rfl
  rw [met, answer, machine_binaryOp, ran, ran', agreedCompare_eq stands stands']
  rfl

theorem exact_logic {op : Bool → Bool → Bool} {answer : Value → Value → Value}
    (first : met ctx row columns .whole left = some value) (second : met ctx row columns .whole right = some value')
    (slots : slotOf (answer value value') = some (truthSlot (op value.isTruthy value'.isTruthy)))
    (evaluated : evaluate ctx row node =
      evaluate ctx row left >>= fun first => evaluate ctx row right >>= fun second => .ok (answer first second))
    (lowered : ∀ first second, machine row columns left true = some (truthSlot first) →
      machine row columns right true = some (truthSlot second) →
        machine row columns node false = some (truthSlot (op first second))) :
    agreedLogic op (answer value value') value value' = met ctx row columns .whole node := by
  obtain ⟨here, slot, stands, ran⟩ := meet_eq_some.mp first
  obtain ⟨there, slot', stands', ran'⟩ := meet_eq_some.mp second
  rw [met, evaluated, evaluate_both (fun first second => .ok (answer first second)) here there,
    lowered _ _ (by rw [machine_truth, ran]; rfl) (by rw [machine_truth, ran']; rfl),
    agreedLogic_eq stands stands' slots]

theorem exact_integers (op : ArithOp) (whole : (exprNeedsFloat left || exprNeedsFloat right) = false)
    (first : met ctx row columns .whole left = some value) (second : met ctx row columns .whole right = some value') :
    agreedIntegers value op value' = met ctx row columns .whole (.arith left op right) := by
  obtain ⟨evaluated, slot, stands, ran⟩ := meet_eq_some.mp first
  obtain ⟨evaluated', slot', stands', ran'⟩ := meet_eq_some.mp second
  have answer : evaluate ctx row (.arith left op right) = evalArith ctx.functions value op value' :=
    evaluate_both _ evaluated evaluated'
  obtain ⟨plain, plain'⟩ := Bool.or_eq_false_iff.mp whole
  rw [met, answer, machine_arith row columns plain plain', ran, ran', agreedIntegers, stands, stands',
    arithValue_eq ctx.functions (by simp [stands]) (by simp [stands'])]
  rfl

theorem slotOf_of_numberOf {number : Float} (stands : numberOf value = some number) : (slotOf value).isSome := by
  cases value with
  | string text =>
    rw [numberOf, map_eq_some_iff] at stands
    · obtain ⟨slot, known, -⟩ := stands
      rw [known]
      rfl
    · simp
  | _ => rfl

theorem exact_floats {γ : Type} [DecidableEq γ] {stands : Value → Option γ} {leave : Float → γ} {op : ArithOp}
    {left' : Option γ} (first : met ctx row columns .float left = some value)
    (second : met ctx row columns .float right = some value')
    (lowered : left' = (machineF64 row columns left).bind fun first => (machineF64 row columns right).bind fun second =>
      some (leave (machineFloat op first second))) :
    agreedFloats stands leave value op value' = meet stands (evaluate ctx row (.arith left op right)) left' := by
  obtain ⟨evaluated, number, known, ran⟩ := meet_eq_some.mp first
  obtain ⟨evaluated', number', known', ran'⟩ := meet_eq_some.mp second
  have answer : evaluate ctx row (.arith left op right) = evalArith ctx.functions value op value' :=
    evaluate_both _ evaluated evaluated'
  rw [lowered, answer, ran, ran', agreedFloats, known, known',
    arithValue_eq ctx.functions (slotOf_of_numberOf known) (slotOf_of_numberOf known')]
  rfl

theorem exact_inList (list : List Value) (negated : Bool) (operand : met ctx row columns .whole expr = some value) :
    agreedInList value list negated = met ctx row columns .whole (.inList expr list negated) := by
  obtain ⟨evaluated, slot, stands, ran⟩ := meet_eq_some.mp operand
  have answer : evaluate ctx row (.inList expr list negated) = .ok (evalInList value list negated) := by
    change (evaluate ctx row expr >>= fun first => _) = _
    rw [evaluated]
    rfl
  rw [met, answer, machine_inList, ran, agreedInList_eq stands]
  rfl

theorem exact_converted (exact : Exact ctx row columns .whole expr)
    (lowered : lowerAsF64 columns expr (lowerExpr columns expr false) =
      (lowerExpr columns expr false).map .fcvtFromSint)
    (computed : agreed row .float expr = (agreed row .whole expr).bind agreedNumber)
    (shape : below .float expr = parts .whole expr) : Exact ctx row columns .float expr := by
  apply exact.unary shape computed
  intro value known
  obtain ⟨evaluated, slot, stands, ran⟩ := meet_eq_some.mp known
  rw [met, evaluated, machineF64_converted row columns lowered, ran, map_some, meet_ok, agreedNumber, stands]
  rfl

def Covers (columns : List String) (expr : Expression) : Prop := ∀ name ∈ walkCols expr, name ∈ columns

theorem Covers.operands (covers : ∀ name ∈ walkCols left ++ walkCols right, name ∈ columns) :
    Covers columns left ∧ Covers columns right :=
  ⟨fun name member => covers name (List.mem_append_left _ member),
    fun name member => covers name (List.mem_append_right _ member)⟩

theorem exact_of_covers (expr : Expression) (covers : Covers columns expr) :
    Exact ctx row columns .whole expr ∧ Exact ctx row columns .float expr := by
  induction expr using compiled_induction with
  | column name =>
    have exact : Exact ctx row columns .whole (.column name) :=
      .leaf rfl (exact_column (covers name (by simp [walkCols])))
    refine ⟨exact, exact_converted exact ?_ rfl rfl⟩
    rw [lowerAsF64, lowerExpr]
    cases columnSlot columns name <;> rfl
  | literal text => exact ⟨.leaf rfl (exact_literal text), .leaf rfl (exact_literal_float text)⟩
  | binaryOp left op right ihLeft ihRight =>
    obtain ⟨coversLeft, coversRight⟩ := Covers.operands covers
    have exact : Exact ctx row columns .whole (.binaryOp left op right) :=
      .binary (ihLeft coversLeft).1 (ihRight coversRight).1 rfl rfl fun _ _ => exact_binaryOp op
    exact ⟨exact, exact_converted exact rfl rfl rfl⟩
  | and left right ihLeft ihRight =>
    obtain ⟨coversLeft, coversRight⟩ := Covers.operands covers
    have exact : Exact ctx row columns .whole (.and left right) :=
      .binary (ihLeft coversLeft).1 (ihRight coversRight).1 rfl rfl fun first second known known' =>
        exact_logic known known' (slotOf_and first second) rfl fun one two ran ran' => by
          rw [machine_and, ran, ran']
          cases one <;> cases two <;> rfl
    exact ⟨exact, exact_converted exact rfl rfl rfl⟩
  | or left right ihLeft ihRight =>
    obtain ⟨coversLeft, coversRight⟩ := Covers.operands covers
    have exact : Exact ctx row columns .whole (.or left right) :=
      .binary (ihLeft coversLeft).1 (ihRight coversRight).1 rfl rfl fun first second known known' =>
        exact_logic known known' (slotOf_or first second) rfl fun one two ran ran' => by
          rw [machine_or, ran, ran']
          cases one <;> cases two <;> rfl
    exact ⟨exact, exact_converted exact rfl rfl rfl⟩
  | arith left op right ihLeft ihRight =>
    obtain ⟨coversLeft, coversRight⟩ := Covers.operands covers
    obtain ⟨wholeLeft, floatLeft⟩ := ihLeft coversLeft
    obtain ⟨wholeRight, floatRight⟩ := ihRight coversRight
    constructor
    · cases floats : exprNeedsFloat left || exprNeedsFloat right with
      | false =>
        apply wholeLeft.binary wholeRight (by rw [below, belowWhole, floats]; rfl)
          (by rw [agreed, agreedWhole, floats]; rfl)
        exact fun _ _ => exact_integers op floats
      | true =>
        apply floatLeft.binary floatRight (by rw [below, belowWhole, floats]; rfl)
          (by rw [agreed, agreedWhole, floats]; rfl)
        exact fun _ _ first second => exact_floats first second (machine_arith_floats row columns floats op)
    · apply floatLeft.binary floatRight rfl rfl
      exact fun _ _ first second => exact_floats first second (machineF64_arith row columns left op right)
  | inList expr list negated ih =>
    have exact : Exact ctx row columns .whole (.inList expr list negated) :=
      (ih covers).1.unary rfl rfl fun _ => exact_inList list negated
    exact ⟨exact, exact_converted exact rfl rfl rfl⟩
  | other expr lowered lowered' none converted leaf shape =>
    have idle : machine row columns expr false = Option.none := by rw [machine, lowered]; rfl
    have exact : Exact ctx row columns .whole expr :=
      .leaf leaf ((none row).trans (by rw [met, idle]; rfl))
    exact ⟨exact, exact_converted exact (lowered' columns _) (converted row _) (shape _)⟩

end Agreement

theorem compilable_of_lowered {columns : List String} (expr : Expression) :
    (∀ asBool, (lowerExpr columns expr asBool).isSome → isJitCompilable expr = true) ∧
      ((lowerAsF64 columns expr (lowerExpr columns expr false)).isSome → isJitCompilable expr = true) := by
  have operands {type : IrType} {α : Type} (first second : Option (Ir type)) (build : Ir type → Ir type → α) :
      (do let left ← first; let right ← second; pure (build left right) : Option α).isSome =
        (first.isSome && second.isSome) := by
    cases first <;> cases second <;> rfl
  induction expr using compiled_induction with
  | column name => exact ⟨fun _ _ => rfl, fun _ => rfl⟩
  | literal text =>
    rw [isJitCompilable, lowerAsF64]
    simp only [lowerExpr, literalToIr]
    cases fromText text <;> simp [literalSlot, isString]
  | binaryOp left op right ihLeft ihRight | and left right ihLeft ihRight | or left right ihLeft ihRight =>
    simp only [isJitCompilable, lowerAsF64, lowerExpr, isSome_map, operands]
    grind
  | arith left op right ihLeft ihRight =>
    simp only [isJitCompilable, lowerAsF64, lowerExpr, isSome_map, apply_ite isSome, operands]
    grind
  | inList expr list negated ih =>
    simp only [isJitCompilable, lowerAsF64, lowerExpr, isSome_map]
    by_cases numeric : list.all isNumericItem
    · cases here : lowerExpr columns expr false <;> simp_all
    · cases lowerExpr columns expr false <;> simp [lowerItems_string numeric]
  | other expr lowered lowered' none converted leaf shape => simp [lowered', lowered]

section Results

variable (ctx : ExecutionContext) (row : Record) (expr : Expression)

def PredicateAgrees : Prop :=
  evaluateBoolJitOrInterp (compilePredicate expr (collectJitColumns expr)) ctx row expr =
    some (evaluateBool ctx row expr)

def ScalarAgrees : Prop :=
  evaluateJitOrInterp (compileScalar expr (collectJitColumns expr)) ctx row expr = some (evaluate ctx row expr)

variable {row expr}

theorem call_of_machine {slot : Int64} {isPredicate : Bool}
    (ran : machine row (collectJitColumns expr) expr isPredicate = some slot) :
    ∃ fn, compileInner expr (collectJitColumns expr) isPredicate = some fn ∧ fn.isPredicate = isPredicate ∧
      fn.call row = some slot := by
  obtain ⟨code, lowered, run⟩ := bind_eq_some_iff.mp ran
  refine ⟨⟨collectJitColumns expr, code, isPredicate⟩, ?_, rfl, run⟩
  rw [compileInner, if_pos ((compilable_of_lowered expr).1 isPredicate (by rw [lowered]; rfl)), lowered]
  rfl

end Results

end Takyonic.Sql.Jit
