import Takyonic.Foundation.EquiJoin
import Takyonic.Foundation.Gather
import Takyonic.Sql.Evaluate

/-! Inner equi-joins: the nested loop, the hash join and the merge join. -/

namespace Takyonic.Sql

open Foundation List Sql.Value Function

def combineRows (left right : Record) : Record := (Record.empty.setAll left.fields).setAll right.fields

section Executors

variable (ctx : ExecutionContext)

def innerLoop (condition : Expression) (outer : Record) : List Record → Except TakyonicError (List Record)
  | [] => .ok []
  | inner :: rest => do
    let combined := combineRows outer inner
    let matched ← evaluateBool ctx combined condition
    let later ← innerLoop condition outer rest
    pure (if matched then combined :: later else later)

def nestedLoopJoin (condition : Expression) (right : List Record) : List Record → Except TakyonicError (List Record)
  | [] => .ok []
  | outer :: rest => do
    let here ← innerLoop ctx condition outer right
    let later ← nestedLoopJoin condition right rest
    pure (here ++ later)

def buildSide (buildKey : Expression) :
    List Record → List (Value × List Record) → Except TakyonicError (List (Value × List Record))
  | [], table => .ok table
  | row :: rest, table => do
    let key ← evaluate ctx row buildKey
    buildSide buildKey rest (if key = .null then table else pushBucket key row table)

def probeSide (probeKey : Expression) (table : List (Value × List Record)) :
    List Record → Except TakyonicError (List Record)
  | [] => .ok []
  | row :: rest => do
    let key ← evaluate ctx row probeKey
    let found := if key = .null then [] else bucket table key
    let later ← probeSide probeKey table rest
    pure (found.map (combineRows · row) ++ later)

def hashJoin (buildKey probeKey : Expression) (build probe : List Record) : Except TakyonicError (List Record) := do
  let table ← buildSide ctx buildKey build []
  probeSide ctx probeKey table probe

def loadRun (key : Expression) (runKey : Value) : List Record → Except TakyonicError (List Record × List Record)
  | [] => .ok ([], [])
  | row :: rest => do
    if (← evaluate ctx row key) = runKey then do
      let (run, later) ← loadRun key runKey rest
      pure (row :: run, later)
    else pure ([], row :: rest)

def crossRuns (left right : List Record) : List Record := left.flatMap fun first => right.map (combineRows first)

def mergeLoop (leftKey rightKey : Expression) : Nat → List Record → List Record → Except TakyonicError (List Record)
  | fuel + 1, first :: left, second :: right => do
    let firstKey ← evaluate ctx first leftKey
    let secondKey ← evaluate ctx second rightKey
    if firstKey = .null then mergeLoop leftKey rightKey fuel left (second :: right)
    else if secondKey = .null then mergeLoop leftKey rightKey fuel (first :: left) right
    else
      match valueOrd firstKey secondKey with
      | .lt => mergeLoop leftKey rightKey fuel left (second :: right)
      | .gt => mergeLoop leftKey rightKey fuel (first :: left) right
      | .eq => do
        let (leftRun, leftRest) ← loadRun ctx leftKey firstKey left
        let (rightRun, rightRest) ← loadRun ctx rightKey secondKey right
        let later ← mergeLoop leftKey rightKey fuel leftRest rightRest
        pure (crossRuns (first :: leftRun) (second :: rightRun) ++ later)
  | _, _, _ => .ok []

def mergeJoin (leftKey rightKey : Expression) (left right : List Record) : Except TakyonicError (List Record) :=
  mergeLoop ctx leftKey rightKey (left.length + right.length) left right

end Executors

def numeric (left right : Value) : Bool :=
  left.asF64.isSome && right.asF64.isSome && !(left.isString && right.isString)

theorem valueOrd_text {left right : Value} (texts : numeric left right = false) :
    valueOrd left right = cmp left.toDisplay right.toDisplay := by
  have compared : ∀ op, compareSqlValues left op right = compareTexts left.toDisplay op right.toDisplay := by
    intro op
    unfold compareSqlValues
    unfold numeric at texts
    split
    · rename_i here there
      simp_all
    · rfl
  simp [valueOrd, compared, compareTexts, cmp, cmpUsing]

theorem valueOrd_swap (first second : Value) : valueOrd second first = (valueOrd first second).swap := by
  cases compared : numeric first second with
  | false =>
    have back : numeric second first = false := by grind [numeric]
    rw [valueOrd_text compared, valueOrd_text back, cmp_swap]
  | true =>
    have numbers : first.asF64.isSome ∧ second.asF64.isSome ∧ (first.isString && second.isString) = false := by
      grind [numeric]
    simp only [Option.isSome_iff_exists] at numbers
    obtain ⟨⟨number, here⟩, ⟨number', there⟩, kinds⟩ := numbers
    have kinds' : (second.isString && first.isString) = false := by rwa [Bool.and_comm]
    simp only [valueOrd, compareSqlValues, kinds, compareFloats]
    have once : number < number' → ¬ number' < number := float_lt_asymm
    by_cases below : number < number' <;> by_cases above : number' < number <;> simp_all

instance : Std.OrientedCmp valueOrd := ⟨valueOrd_swap _ _⟩

theorem fromText_ne_null (text : String) : fromText text ≠ .null := by
  unfold fromText
  split
  · exact nofun
  have word : fromText.word text ≠ .null := by
    unfold fromText.word
    dsimp only
    split
    · exact nofun
    · split
      · exact nofun
      · exact nofun
  split
  · split
    · exact nofun
    · exact word
  · exact word

def columnValue (name : String) (row : Record) : Value := fromText ((row.get name).getD "")

variable {row : Record} {name l r name' : String}

theorem evaluate_column {ctx : ExecutionContext} (present : (row.get name).isSome) :
    evaluate ctx row (.column name) = .ok (columnValue name row) := by
  obtain ⟨text, found⟩ := Option.isSome_iff_exists.mp present
  simp [evaluate, columnValue, found]

def sqlMatch (left right : Value) : Bool := !left.isNull && !right.isNull && compareSqlValues left .eq right

section Plain

variable {ctx : ExecutionContext} {left right : List Record} {leftColumn rightColumn : String}

theorem buildSide_eq (present : ∀ row ∈ left, (row.get leftColumn).isSome) (table : List (Value × List Record)) :
    buildSide ctx (.column leftColumn) left table =
      .ok (left.foldl (fun table row => pushBucket (columnValue leftColumn row) row table) table) := by
  induction left generalizing table with
  | nil => rfl
  | cons row rest ih =>
    unfold buildSide
    rw [evaluate_column (present row mem_cons_self)]
    have known : columnValue leftColumn row ≠ .null := fromText_ne_null _
    rw [foldl_cons, ← ih fun row inside => present row (mem_cons_of_mem _ inside)]
    simp only [bind, Except.bind, known, if_false]

theorem probeSide_eq (present : ∀ row ∈ right, (row.get rightColumn).isSome) (table : List (Value × List Record)) :
    probeSide ctx (.column rightColumn) table right =
      .ok (right.flatMap fun row => (bucket table (columnValue rightColumn row)).map (combineRows · row)) := by
  induction right with
  | nil => rfl
  | cons row rest ih =>
    unfold probeSide
    rw [evaluate_column (present row mem_cons_self), ih fun row inside => present row (mem_cons_of_mem _ inside)]
    have known : columnValue rightColumn row ≠ .null := fromText_ne_null _
    simp only [bind, Except.bind, known, if_false, pure, Except.pure, flatMap_cons]

theorem hashJoin_eq (present : ∀ row ∈ left, (row.get leftColumn).isSome)
    (present' : ∀ row ∈ right, (row.get rightColumn).isSome) :
    hashJoin ctx (.column leftColumn) (.column rightColumn) left right = .ok (right.flatMap fun row =>
      (left.filter (columnValue leftColumn · = columnValue rightColumn row)).map (combineRows · row)) := by
  unfold hashJoin
  rw [buildSide_eq present]
  show probeSide ctx _ _ right = _
  rw [probeSide_eq present']
  simp only [bucket_foldl]

theorem loadRun_eq {key : Value} (present : ∀ row ∈ left, (row.get leftColumn).isSome) :
    loadRun ctx (.column leftColumn) key left =
      .ok (left.takeWhile (columnValue leftColumn · = key), left.dropWhile (columnValue leftColumn · = key)) := by
  induction left with
  | nil => rfl
  | cons row rest ih =>
    unfold loadRun
    rw [evaluate_column (present row mem_cons_self), ih fun row inside => present row (mem_cons_of_mem _ inside)]
    by_cases same : columnValue leftColumn row = key
    · simp [bind, Except.bind, pure, Except.pure, same]
    · simp [bind, Except.bind, pure, Except.pure, same]

theorem crossRuns_eq (left right : List Record) :
    crossRuns left right = (pairsWhere (fun _ _ => true) left right).map fun pair => combineRows pair.1 pair.2 := by
  simp [crossRuns, pairsWhere, map_flatMap, comp_def]

theorem mergeLoop_eq (fuel : Nat) : ∀ left right : List Record, (∀ row ∈ left, (row.get leftColumn).isSome) →
    (∀ row ∈ right, (row.get rightColumn).isSome) →
    mergeLoop ctx (.column leftColumn) (.column rightColumn) fuel left right =
      .ok ((mergePairs valueOrd (columnValue leftColumn) (columnValue rightColumn) fuel left right).map fun pair =>
        combineRows pair.1 pair.2) := by
  induction fuel with
  | zero => exact fun _ _ _ _ => rfl
  | succ fuel ih =>
    intro left right present present'
    cases left with
    | nil => rfl
    | cons first left =>
      cases right with
      | nil => rfl
      | cons second right =>
        have known : columnValue leftColumn first ≠ .null := fromText_ne_null _
        have known' : columnValue rightColumn second ≠ .null := fromText_ne_null _
        have later : ∀ row ∈ left, (row.get leftColumn).isSome :=
          fun row inside => present row (mem_cons_of_mem _ inside)
        have later' : ∀ row ∈ right, (row.get rightColumn).isSome :=
          fun row inside => present' row (mem_cons_of_mem _ inside)
        unfold mergeLoop mergePairs
        simp only [evaluate_column (present first mem_cons_self), evaluate_column (present' second mem_cons_self),
          bind, Except.bind, known, known']
        cases valueOrd (columnValue leftColumn first) (columnValue rightColumn second) with
        | lt => exact ih left (second :: right) later present'
        | gt => exact ih (first :: left) right present later'
        | eq =>
          rw [loadRun_eq later, loadRun_eq later']
          dsimp only
          rw [ih _ _ (fun row inside => later row ((dropWhile_suffix _).subset inside))
            (fun row inside => later' row ((dropWhile_suffix _).subset inside))]
          rw [map_append, crossRuns_eq]
          rfl

end Plain

/-- What is said of the inputs of a join on `leftColumn = rightColumn`: every row has its column, and a name once. -/
structure JoinInputs (leftColumn rightColumn : String) (left right : List Record) : Prop where
  leftColumn : ∀ row ∈ left, (row.get leftColumn).isSome
  rightColumn : ∀ row ∈ right, (row.get rightColumn).isSome
  leftDistinct : ∀ row ∈ left, row.Distinct
  rightDistinct : ∀ row ∈ right, row.Distinct

def joined (l r : String) (row row' : Record) : Bool :=
  sqlMatch (columnValue l (combineRows row row')) (columnValue r (combineRows row row'))

variable {row' outer : Record} {left right : List Record}

theorem get_combineRows (distinct : row.Distinct) (distinct' : row'.Distinct) (name : String) :
    (combineRows row row').get name = (row'.get name).or (row.get name) := by
  unfold combineRows
  rw [Record.get_setAll _ distinct', Record.get_setAll _ distinct]
  show (row'.get name).or ((row.get name).or none) = _
  rw [Option.or_none]

theorem combineRows_comm (distinct : row.Distinct) (distinct' : row'.Distinct)
    (agree : ∀ field ∈ row.fields, ∀ text ∈ row'.get field.1, text = field.2) :
    combineRows row row' = combineRows row' row := by
  have ascending (first second : Record) : Record.Ascending (combineRows first second).fields :=
    Record.ascending_setAll _ (Record.ascending_setAll _ Pairwise.nil)
  apply congrArg Record.mk
  apply Record.eq_of_lookup (ascending _ _) (ascending _ _)
  intro name
  show (combineRows row row').get name = (combineRows row' row).get name
  rw [get_combineRows distinct distinct', get_combineRows distinct' distinct]
  cases here : row.get name with
  | none => rw [Option.or_none, Option.none_or]
  | some text =>
    cases there : row'.get name with
    | none => rw [Option.or_none, Option.none_or]
    | some text' =>
      obtain ⟨before, after, fields, -⟩ := lookup_eq_some_iff.mp here
      rw [agree (name, text) (by rw [fields]; simp) text' there]

namespace JoinInputs

variable {ctx : ExecutionContext} {l r : String} {left right rows : List Record} (inputs : JoinInputs l r left right)

include inputs

section

variable (inside : row ∈ left) (inside' : row' ∈ right)
include inside inside'

theorem left_get (apart : row'.get l = none) : (combineRows row row').get l = row.get l := by
  rw [get_combineRows (inputs.leftDistinct row inside) (inputs.rightDistinct row' inside'), apart, Option.none_or]

theorem right_get : (combineRows row row').get r = row'.get r := by
  rw [get_combineRows (inputs.leftDistinct row inside) (inputs.rightDistinct row' inside')]
  obtain ⟨text, found⟩ := Option.isSome_iff_exists.mp (inputs.rightColumn row' inside')
  rw [found]
  rfl

theorem condition_eq :
    evaluateBool ctx (combineRows row row') (.binaryOp (.column l) .eq (.column r)) = .ok (joined l r row row') := by
  have first : evaluate ctx (combineRows row row') (.column l) = .ok (columnValue l (combineRows row row')) := by
    apply evaluate_column
    rw [get_combineRows (inputs.leftDistinct row inside) (inputs.rightDistinct row' inside')]
    simp [inputs.leftColumn row inside]
  have second : evaluate ctx (combineRows row row') (.column r) = .ok (columnValue r (combineRows row row')) := by
    apply evaluate_column
    rw [inputs.right_get inside inside']
    exact inputs.rightColumn row' inside'
  have here : evaluate ctx (combineRows row row') (.binaryOp (.column l) .eq (.column r)) = (do
      let first ← evaluate ctx (combineRows row row') (.column l)
      let second ← evaluate ctx (combineRows row row') (.column r)
      if first.isNull || second.isNull then pure .null else pure (.bool (compareSqlValues first .eq second))) := rfl
  unfold evaluateBool joined sqlMatch
  rw [here, first, second]
  simp only [bind, Except.bind]
  cases (columnValue l (combineRows row row')).isNull with
  | true => rfl
  | false =>
    cases (columnValue r (combineRows row row')).isNull with
    | true => rfl
    | false => rfl

end

theorem innerLoop_eq (inside : outer ∈ left) (part : ∀ row ∈ rows, row ∈ right) :
    innerLoop ctx (.binaryOp (.column l) .eq (.column r)) outer rows =
      .ok ((rows.filter (joined l r outer)).map (combineRows outer)) := by
  induction rows with
  | nil => rfl
  | cons row rest ih =>
    unfold innerLoop
    dsimp only
    rw [inputs.condition_eq inside (part row mem_cons_self), ih fun row inside => part row (mem_cons_of_mem _ inside),
      filter_cons]
    cases joined l r outer row with
    | true => rfl
    | false => rfl

theorem nestedLoopJoin_eq (part : ∀ row ∈ rows, row ∈ left) :
    nestedLoopJoin ctx (.binaryOp (.column l) .eq (.column r)) right rows =
      .ok ((pairsWhere (joined l r) rows right).map fun pair => combineRows pair.1 pair.2) := by
  induction rows with
  | nil => rfl
  | cons row rest ih =>
    unfold nestedLoopJoin
    rw [inputs.innerLoop_eq (part row mem_cons_self) fun _ inside => inside,
      ih fun row inside => part row (mem_cons_of_mem _ inside)]
    simp only [bind, Except.bind, pure, Except.pure, pairsWhere, flatMap_cons, map_append, map_map, comp_def]

theorem hashJoin_left_perm (ctx : ExecutionContext) :
    ∃ rows, hashJoin ctx (.column l) (.column r) left right = .ok rows ∧
    rows.Perm ((pairsByKey (columnValue l) (columnValue r) left right).map fun pair => combineRows pair.1 pair.2) := by
  refine ⟨_, hashJoin_eq inputs.leftColumn inputs.rightColumn, ?_⟩
  have swapped := pairsWhere_perm_swap (fun row row' => decide (columnValue l row = columnValue r row')) left right
  have mapped := swapped.map fun pair => combineRows pair.1 pair.2
  simpa only [pairsByKey, map_flatMap, map_map, comp_def] using mapped

theorem hashJoin_right_eq (ctx : ExecutionContext) : hashJoin ctx (.column r) (.column l) right left =
    .ok ((pairsByKey (columnValue l) (columnValue r) left right).map fun pair => combineRows pair.2 pair.1) := by
  rw [hashJoin_eq inputs.rightColumn inputs.leftColumn]
  simp only [pairsByKey, pairsWhere, map_flatMap, map_map, comp_def, eq_comm (b := columnValue l _)]

theorem mergeJoin_eq {left' right' : List Record} (permLeft : left'.Perm left) (permRight : right'.Perm right) :
    mergeJoin ctx (.column l) (.column r) left' right' = .ok ((mergePairs valueOrd (columnValue l) (columnValue r)
      (left'.length + right'.length) left' right').map fun pair => combineRows pair.1 pair.2) :=
  mergeLoop_eq _ _ _ (fun row inside => inputs.leftColumn row (permLeft.subset inside))
    (fun row inside => inputs.rightColumn row (permRight.subset inside))

end JoinInputs

/-- A left and a right key are the same value exactly when the condition finds the rows to match. -/
def KeysAgree (l r : String) (left right : List Record) : Prop := ∀ row ∈ left, ∀ row' ∈ right,
  columnValue l row = columnValue r row' ↔ joined l r row row' = true

/-- Two rows with the same key have the same text under every name of both. -/
def NamesAgree (l r : String) (left right : List Record) : Prop := ∀ row ∈ left, ∀ row' ∈ right,
  columnValue l row = columnValue r row' → ∀ field ∈ row.fields, ∀ text ∈ row'.get field.1, text = field.2

/-- However the sides are sorted, the merge finds no keys equal that differ, and no run of a key is cut. -/
def MergesExact (l r : String) (left right : List Record) : Prop := ∀ left' right' : List Record,
  left'.Perm left → right'.Perm right →
  SortedBy valueOrd (columnValue l) left' → SortedBy valueOrd (columnValue r) right' →
  mergeExact valueOrd (columnValue l) (columnValue r) (left'.length + right'.length) left' right' = true

theorem KeysAgree.pairs_eq (agree : KeysAgree l r left right) :
    pairsByKey (columnValue l) (columnValue r) left right = pairsWhere (joined l r) left right := by
  apply pairsWhere_congr
  intro row inside row' inside'
  rw [Bool.eq_iff_iff, decide_eq_true_iff]
  exact agree row inside row' inside'

/-- Every strategy gives the rows of the nested loop: the hash join with either side as the build side, and the
    merge join on the inputs in any order that is sorted by the keys. -/
structure StrategiesAgree (ctx : ExecutionContext) (l r : String) (left right : List Record) : Prop where
  buildLeft : SameRows (hashJoin ctx (.column l) (.column r) left right)
    (nestedLoopJoin ctx (.binaryOp (.column l) .eq (.column r)) right left)
  buildRight : SameRows (hashJoin ctx (.column r) (.column l) right left)
    (nestedLoopJoin ctx (.binaryOp (.column l) .eq (.column r)) right left)
  merge : ∀ left' right' : List Record, left'.Perm left → right'.Perm right →
    SortedBy valueOrd (columnValue l) left' → SortedBy valueOrd (columnValue r) right' →
    SameRows (mergeJoin ctx (.column l) (.column r) left' right')
      (nestedLoopJoin ctx (.binaryOp (.column l) .eq (.column r)) right left)

namespace JoinInputs

variable {ctx : ExecutionContext} {l r : String} {left right : List Record} (inputs : JoinInputs l r left right)

include inputs

theorem agree_of_exact (agree : KeysAgree l r left right) (names : NamesAgree l r left right)
    (exact : MergesExact l r left right) : StrategiesAgree ctx l r left right := by
  have nested : nestedLoopJoin ctx (.binaryOp (.column l) .eq (.column r)) right left =
      .ok ((pairsByKey (columnValue l) (columnValue r) left right).map fun pair => combineRows pair.1 pair.2) := by
    rw [inputs.nestedLoopJoin_eq fun _ inside => inside, agree.pairs_eq]
  constructor
  · obtain ⟨rows, joined, perm⟩ := inputs.hashJoin_left_perm ctx
    rw [joined, nested]
    exact perm
  · rw [inputs.hashJoin_right_eq, nested]
    refine Perm.of_eq (map_congr_left fun pair member => ?_)
    obtain ⟨inside, inside', same⟩ := mem_pairsWhere.mp member
    exact (combineRows_comm (inputs.leftDistinct _ inside) (inputs.rightDistinct _ inside')
      (names _ inside _ inside' (of_decide_eq_true same))).symm
  · intro left' right' permLeft permRight sortedLeft sortedRight
    rw [inputs.mergeJoin_eq permLeft permRight, nested,
      (mergePairs_eq_iff _ left' right' le_rfl sortedLeft sortedRight).mpr
        (exact left' right' permLeft permRight sortedLeft sortedRight)]
    exact (pairsWhere_perm permLeft permRight).map _

theorem keys_of_combined {first second : Record} (apart : ∀ row' ∈ right, row'.get l = none) (inside : row ∈ left)
    (inside' : row' ∈ right) (member : first ∈ left) (member' : second ∈ right)
    (same : combineRows first second = combineRows row row') :
    columnValue l first = columnValue l row ∧ columnValue r second = columnValue r row' := by
  have leftText := congrArg (Record.get · l) same
  have rightText := congrArg (Record.get · r) same
  rw [inputs.left_get member member' (apart _ member'), inputs.left_get inside inside' (apart _ inside')] at leftText
  rw [inputs.right_get member member', inputs.right_get inside inside'] at rightText
  exact ⟨by rw [columnValue, leftText, columnValue], by rw [columnValue, rightText, columnValue]⟩

theorem exact_of_agree (apart : ∀ row' ∈ right, row'.get l = none) (agree : StrategiesAgree ctx l r left right) :
    KeysAgree l r left right ∧ MergesExact l r left right := by
  -- A combined row shows both keys, so it comes from no pair with other keys.
  have keys : KeysAgree l r left right := by
    obtain ⟨rows, joins, perm⟩ := inputs.hashJoin_left_perm ctx
    have same := agree.buildLeft
    rw [joins, inputs.nestedLoopJoin_eq fun _ inside => inside] at same
    intro row inside row' inside'
    have members := (perm.symm.trans same).mem_iff (a := combineRows row row')
    simp only [mem_map, pairsByKey, mem_pairsWhere, decide_eq_true_eq, Prod.exists] at members
    constructor
    · intro alike
      obtain ⟨first, second, ⟨-, -, passed⟩, equal⟩ := members.mp ⟨row, row', ⟨inside, inside', alike⟩, rfl⟩
      rwa [joined, equal] at passed
    · intro passed
      obtain ⟨first, second, ⟨member, member', alike⟩, equal⟩ := members.mpr ⟨row, row', ⟨inside, inside', passed⟩, rfl⟩
      obtain ⟨leftSame, rightSame⟩ := inputs.keys_of_combined apart inside inside' member member' equal
      rw [← leftSame, alike, rightSame]
  refine ⟨keys, fun left' right' permLeft permRight sortedLeft sortedRight => ?_⟩
  have same := agree.merge left' right' permLeft permRight sortedLeft sortedRight
  rw [inputs.mergeJoin_eq permLeft permRight, inputs.nestedLoopJoin_eq fun _ inside => inside, ← keys.pairs_eq] at same
  rw [← mergePairs_eq_iff _ left' right' le_rfl sortedLeft sortedRight]
  have sound : ∀ pair ∈ mergePairs valueOrd (columnValue l) (columnValue r) (left'.length + right'.length) left' right',
      columnValue l pair.1 = columnValue r pair.2 := by
    intro pair member
    obtain ⟨inside, inside'⟩ := mem_of_mem_mergePairs member
    obtain ⟨other, found, equal⟩ := mem_map.mp (same.subset (mem_map_of_mem member))
    obtain ⟨member, member', alike⟩ := mem_pairsWhere.mp found
    obtain ⟨leftSame, rightSame⟩ := inputs.keys_of_combined apart (permLeft.subset inside) (permRight.subset inside')
      member member' equal
    rw [← leftSame, of_decide_eq_true alike, rightSame]
  apply (mergePairs_sublist _ left' right' sortedLeft sortedRight sound).eq_of_length
  have lengths := (same.trans ((pairsWhere_perm permLeft permRight).symm.map _)).length_eq
  simpa [pairsByKey] using lengths

end JoinInputs

end Takyonic.Sql
