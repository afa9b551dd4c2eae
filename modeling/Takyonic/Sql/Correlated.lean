import Takyonic.Sql.Evaluate

/-! `WHERE` clauses with correlated subqueries. -/

namespace Takyonic.Sql

structure Subqueries where
  rows : LogicalPlan → Record → Except TakyonicError (List Record)
  column : LogicalPlan → String → Record → Except TakyonicError (List Value)

section

variable (queries : Subqueries) (ctx : ExecutionContext) (row : Record)

def evaluateValueCorrelated : Expression → Except TakyonicError Value
  | .scalarSubquery subquery valueColumn true => do
    let list ← queries.column subquery valueColumn row
    if 1 < list.length then throw (.sql "scalar subquery returned more than one row")
    pure (list.headD .null)
  | other => evaluate ctx row other

def evaluateBoolCorrelated : Expression → Except TakyonicError Bool
  | .and left right => do
    if ← evaluateBoolCorrelated left then evaluateBoolCorrelated right else pure false
  | .or left right => do
    if ← evaluateBoolCorrelated left then pure true else evaluateBoolCorrelated right
  | .not expr => do pure !(← evaluateBoolCorrelated expr)
  | .exists subquery negated true => do
    let exist := !(← queries.rows subquery row).isEmpty
    pure (if negated then !exist else exist)
  | .inSubquery expr subquery valueColumn negated true => do
    let needle ← evaluate ctx row expr
    if needle.isNull then pure false
    else
      let list ← queries.column subquery valueColumn row
      pure (if list.any fun value => !value.isNull && valuesEqual needle value then !negated
        else if list.any Value.isNull then false
        else negated)
  | .binaryOp left op right => do
    let first ← evaluateValueCorrelated queries ctx row left
    let second ← evaluateValueCorrelated queries ctx row right
    pure (!(first.isNull || second.isNull) && compareSqlValues first op second)
  | other => evaluateBool ctx row other

def truth : Expression → Value
  | .and left right => sqlAnd3vl (truth left) (truth right)
  | .or left right => sqlOr3vl (truth left) (truth right)
  | .not expr => if (truth expr).isNull then .null else .bool !(truth expr).isTruthy
  | expr =>
    let value : Except TakyonicError Value := do
      match expr with
      | .exists subquery negated true => pure (.bool (negated == (← queries.rows subquery row).isEmpty))
      | .inSubquery expr subquery valueColumn negated true =>
        let needle ← evaluate ctx row expr
        let list ← queries.column subquery valueColumn row
        -- Nothing is in an empty list, not even NULL.
        pure (if list.isEmpty then .bool negated else evalInList needle list negated)
      | .binaryOp left op right =>
        let first ← evaluateValueCorrelated queries ctx row left
        let second ← evaluateValueCorrelated queries ctx row right
        pure (if first.isNull || second.isNull then .null else .bool (compareSqlValues first op second))
      | other => evaluate ctx row other
    value.toOption.getD .null

def reached : Expression → List Expression
  | .and left right => .and left right :: (reached left ++
    if evaluateBoolCorrelated queries ctx row left = .ok true then reached right else [])
  | .or left right => .or left right :: (reached left ++
    if evaluateBoolCorrelated queries ctx row left = .ok false then reached right else [])
  | .not expr => .not expr :: reached expr
  | other => [other]

/-- No `NOT` that is evaluated stands over UNKNOWN, and no `NOT IN` looks for NULL in an empty list. -/
def Definite : Expression → Prop
  | .and left right => Definite left ∧ ((truth queries ctx row left).isTruthy = true → Definite right)
  | .or left right => Definite left ∧ ((truth queries ctx row left).isTruthy = false → Definite right)
  | .not expr => (truth queries ctx row expr).isNull = false ∧ Definite expr
  | .inSubquery expr subquery valueColumn true true => ∀ needle, evaluate ctx row expr = .ok needle →
    needle.isNull = true → queries.column subquery valueColumn row ≠ .ok []
  | _ => True

def Keeps (expr : Expression) : Prop :=
  evaluateBoolCorrelated queries ctx row expr = .ok (truth queries ctx row expr).isTruthy

variable {queries ctx row}

theorem self_mem_reached (expr : Expression) : expr ∈ reached queries ctx row expr := by
  fun_cases reached <;> exact List.mem_cons_self

theorem keeps_iff {expr : Expression} {result : Bool}
    (evaluated : evaluateBoolCorrelated queries ctx row expr = .ok result) :
    Keeps queries ctx row expr ↔ result = (truth queries ctx row expr).isTruthy := by
  rw [Keeps, evaluated, Except.ok.injEq]

theorem short_circuit_iff {expr left right : Expression} {first : Bool} (go : Bool)
    (parts : reached queries ctx row expr = expr :: (reached queries ctx row left ++
      if evaluateBoolCorrelated queries ctx row left = .ok go then reached queries ctx row right else []))
    (here : evaluateBoolCorrelated queries ctx row left = .ok first)
    (run : evaluateBoolCorrelated queries ctx row expr =
      if first = go then evaluateBoolCorrelated queries ctx row right else .ok !go)
    (value : (truth queries ctx row expr).isTruthy = if (truth queries ctx row left).isTruthy = go
      then (truth queries ctx row right).isTruthy else !go)
    (ihLeft : (∀ part ∈ reached queries ctx row left, Keeps queries ctx row part) ↔ Definite queries ctx row left)
    (ihRight : first = go → ((∀ part ∈ reached queries ctx row right, Keeps queries ctx row part) ↔
      Definite queries ctx row right)) :
    (∀ part ∈ reached queries ctx row expr, Keeps queries ctx row part) ↔
      Definite queries ctx row left ∧
        ((truth queries ctx row left).isTruthy = go → Definite queries ctx row right) := by
  simp only [parts, List.forall_mem_cons, List.forall_mem_append, here, Except.ok.injEq]
  rw [← ihLeft, and_left_comm]
  apply and_congr_right
  intro keeps
  have left_eq := (keeps_iff here).mp (keeps left (self_mem_reached left))
  rw [Keeps, run, value, ← left_eq]
  by_cases goes : first = go
  · rw [if_pos goes, if_pos goes, if_pos goes, ← ihRight goes]
    exact ⟨fun both _ => both.2, fun right => ⟨right goes _ (self_mem_reached _), right goes⟩⟩
  · simp [goes]

theorem not_keeps_iff {expr : Expression} (keeps : Keeps queries ctx row expr) :
    Keeps queries ctx row (.not expr) ↔ (truth queries ctx row expr).isNull = false := by
  have unknown : (truth queries ctx row expr).isNull = true → (truth queries ctx row expr).isTruthy = false := by
    cases truth queries ctx row expr <;> simp +contextual [Value.isNull, Value.isTruthy]
  rw [Keeps, evaluateBoolCorrelated, keeps, truth]
  show Except.ok _ = _ ↔ _
  rw [Except.ok.injEq]
  cases null : (truth queries ctx row expr).isNull with
  | true =>
    rw [unknown null]
    decide
  | false => simp [Value.isTruthy]

/-- Every part of a predicate that is evaluated, the predicate itself among them, is kept on the rows on which it is
    TRUE, exactly if it is definite. -/
theorem evaluateBoolCorrelated_truth_iff (expr : Expression) (result : Bool)
    (evaluated : evaluateBoolCorrelated queries ctx row expr = .ok result) :
    (∀ part ∈ reached queries ctx row expr, Keeps queries ctx row part) ↔ Definite queries ctx row expr := by
  fun_induction evaluateBoolCorrelated queries ctx row expr generalizing result with
  | case1 left right ihLeft ihRight =>
    obtain ⟨first, here, evaluated⟩ := bind_eq_ok evaluated
    -- `AND` comes to its right operand if the left one is true, `OR` if it is false.
    refine short_circuit_iff true (by rw [reached]) here ?_ ?_ (ihLeft first here) fun goes => ?_
    · rw [evaluateBoolCorrelated, here]
      rfl
    · rw [truth, isTruthy_and]
      cases (truth queries ctx row left).isTruthy <;> rfl
    · subst goes
      exact ihRight result evaluated
  | case2 left right ihLeft ihRight =>
    obtain ⟨first, here, evaluated⟩ := bind_eq_ok evaluated
    refine short_circuit_iff false (by rw [reached]) here ?_ ?_ (ihLeft first here) fun goes => ?_
    · rw [evaluateBoolCorrelated, here]
      cases first <;> rfl
    · rw [truth, isTruthy_or]
      cases (truth queries ctx row left).isTruthy <;> rfl
    · subst goes
      exact ihRight result evaluated
  | case3 expr ih =>
    obtain ⟨value, here, evaluated⟩ := bind_eq_ok evaluated
    have keeps := ih value here
    rw [reached, List.forall_mem_cons, keeps, Definite, and_congr_left_iff]
    intro definite
    exact not_keeps_iff (keeps.mpr definite expr (self_mem_reached expr))
  | case4 subquery negated =>
    have keeps : Keeps queries ctx row (.exists subquery negated true) ↔ _ := keeps_iff evaluated
    obtain ⟨rows, here, evaluated⟩ := bind_eq_ok evaluated
    cases evaluated
    simp only [reached, Definite, List.forall_mem_singleton, iff_true, keeps, truth, here]
    cases negated <;> cases rows <;> rfl
  | case5 expr subquery valueColumn negated =>
    have keeps : Keeps queries ctx row (.inSubquery expr subquery valueColumn negated true) ↔ _ := keeps_iff evaluated
    obtain ⟨needle, here, evaluated⟩ := bind_eq_ok evaluated
    simp only [reached, List.forall_mem_singleton, keeps, truth, here]
    cases null : needle.isNull with
    | true =>
      rw [null] at evaluated
      cases evaluated
      have definite : Definite queries ctx row (.inSubquery expr subquery valueColumn negated true) ↔
          (negated = true → queries.column subquery valueColumn row ≠ .ok []) := by
        cases negated <;> simp [Definite, here, null]
      rw [definite]
      cases listed : queries.column subquery valueColumn row with
      | error _ => exact iff_of_true rfl (by simp)
      | ok list =>
        cases list with
        | nil =>
          cases negated with
          | false => exact iff_of_true rfl (by simp)
          | true => exact iff_of_false Bool.false_ne_true (by simp)
        | cons value rest =>
          refine iff_of_true ?_ (by simp)
          show false = (evalInList needle (value :: rest) negated).isTruthy
          rw [evalInList, if_pos null]
          rfl
    | false =>
      rw [null] at evaluated
      obtain ⟨list, listed, evaluated⟩ := bind_eq_ok evaluated
      cases evaluated
      have definite : Definite queries ctx row (.inSubquery expr subquery valueColumn negated true) := by
        cases negated <;> simp [Definite, here, null]
      rw [listed, iff_true_right definite]
      cases list with
      | nil => rfl
      | cons value rest =>
        show _ = (evalInList needle (value :: rest) negated).isTruthy
        grind [evalInList, Value.isTruthy]
  | case6 left op right =>
    have keeps : Keeps queries ctx row (.binaryOp left op right) ↔ _ := keeps_iff evaluated
    obtain ⟨first, here, evaluated⟩ := bind_eq_ok evaluated
    obtain ⟨second, there, evaluated⟩ := bind_eq_ok evaluated
    cases evaluated
    simp only [reached, Definite, List.forall_mem_singleton, iff_true, keeps, truth, here, there]
    show _ = (if first.isNull || second.isNull then Value.null else .bool _).isTruthy
    cases first.isNull || second.isNull <;> rfl
  | case7 other =>
    have parts : reached queries ctx row other = [other] := by rw [reached] <;> assumption
    have definite : Definite queries ctx row other := by
      rw [Definite] <;> grind
    have value : truth queries ctx row other = (evaluate ctx row other).toOption.getD .null := by grind [truth]
    have keeps : Keeps queries ctx row other ↔ _ := keeps_iff (by rw [evaluateBoolCorrelated] <;> assumption)
    rw [parts, List.forall_mem_singleton, keeps, value, iff_true_right definite]
    rw [evaluateBool] at evaluated
    cases here : evaluate ctx row other with
    | error _ =>
      rw [here] at evaluated
      cases evaluated
    | ok value =>
      rw [here] at evaluated
      cases evaluated
      rfl

end

def noRows : Subqueries := ⟨fun _ _ => .ok [], fun _ _ _ => .ok []⟩

def oneOrder : Subqueries where
  rows _ row := .ok [row]
  column _ name _ := .ok (if name = "total" then [.int 7] else [.null, .int 1])

theorem evaluateBoolCorrelated_truth_iff_skipped :
    let plan := LogicalPlan.values [] []
    let differs : Expression := .not (.binaryOp (.scalarSubquery plan "total" true) .eq (.literal "5"))
    let listed : Expression := .inSubquery (.column "id") plan "customer" false true
    let unknown : Expression := .not (.binaryOp (.literal "") .eq (.literal "1"))
    Keeps oneOrder .plain ⟨[("id", "1")]⟩ (.or (.and differs listed) unknown) := by
  intro plan differs listed unknown
  have definite : Definite oneOrder .plain ⟨[("id", "1")]⟩ (.or (.and differs listed) unknown) := by
    refine ⟨⟨⟨by decide +kernel, trivial⟩, fun _ => trivial⟩, fun skipped => ?_⟩
    -- The left operand is TRUE, so the `NOT` over UNKNOWN is not evaluated.
    exact absurd skipped (by decide +kernel)
  exact (evaluateBoolCorrelated_truth_iff _ true (by decide +kernel)).mpr definite _ (self_mem_reached _)

theorem not_unknown_kept :
    let filter : Expression := .not (.binaryOp (.scalarSubquery (.values [] []) "v" true) .eq (.literal "1"))
    evaluateBoolCorrelated noRows .plain ⟨[]⟩ filter = .ok true ∧ truth noRows .plain ⟨[]⟩ filter = .null := by
  decide +kernel

end Takyonic.Sql
