import Takyonic.Sql.Join

/-! The comparison of sort keys. -/

namespace Takyonic.Sql

open Foundation List Float.Model Ordering

def keyOrd : SortExpr → Value → Value → Ordering
  | .mk _ asc nullsFirst, left, right =>
    match left.isNull, right.isNull with
    | true, true => .eq
    | true, false => if nullsFirst then .lt else .gt
    | false, true => if nullsFirst then .gt else .lt
    | false, false => if asc then valueOrd left right else (valueOrd left right).swap

def cmpSortKeys : List SortExpr → List Value → List Value → Ordering
  | [], _, _ => .eq
  | expr :: rest, left, right =>
    (keyOrd expr (left.headD .null) (right.headD .null)).then (cmpSortKeys rest left.tail right.tail)

def Value.Ordered (value : Value) : Prop := ∀ number, value.asF64 = some number → number.isNaN = false

def numberOrd (left right : Value) : Ordering :=
  match left.asF64, right.asF64 with
  | some first, some second => if first < second then .lt else if second < first then .gt else .eq
  | _, _ => .eq

def orderBy (numbers : Bool) (left right : Value) : Ordering :=
  if numbers then numberOrd left right else cmp left.toDisplay right.toDisplay

/-- If `b` is compared with `a` and `c` in one way, these two in the other, and `b` stands between them, then both ways
    order them alike. -/
def WaysAgree (a b c : Value) : Prop :=
  numeric a b = numeric b c ∧ numeric a c ≠ numeric a b →
    (valueOrd a b).isLE ∧ (valueOrd b c).isLE ∨ (valueOrd a b).isGE ∧ (valueOrd b c).isGE →
      orderBy (numeric a b) a c = valueOrd a c

def Comparable (a b c : Value) : Prop :=
  a.isNull = false → b.isNull = false → c.isNull = false → WaysAgree a b c ∧ WaysAgree b c a ∧ WaysAgree c a b

def Consistent (ab bc ac : Ordering) : Prop := (ab = .eq → ac = bc) ∧ (bc = .eq → ac = ab) ∧ (ab = bc → ac = ab)

def Transitive {α : Type*} (order : α → α → Ordering) (a b c : α) : Prop :=
  Consistent (order a b) (order b c) (order a c)

theorem cmp_transitive {α : Type*} [LinearOrder α] (a b c : α) : Transitive cmp a b c := by
  refine ⟨fun same => by rw [(cmp_eq_eq_iff _ _).mp same], fun same => by rw [(cmp_eq_eq_iff _ _).mp same], ?_⟩
  intro alike
  rcases lt_trichotomy a b with less | rfl | more
  · rw [less.cmp_eq_lt] at alike ⊢
    exact (less.trans ((cmp_eq_lt_iff _ _).mp alike.symm)).cmp_eq_lt
  · exact alike.symm
  · rw [more.cmp_eq_gt] at alike ⊢
    exact (((cmp_eq_gt_iff _ _).mp alike.symm).trans more).cmp_eq_gt

section

variable {ab bc ac : Ordering}

theorem consistent_swap : Consistent ab.swap bc.swap ac.swap ↔ Consistent ab bc ac := by
  cases ab <;> cases bc <;> cases ac <;> simp [Consistent]

theorem consistent_rotate : Consistent bc ac.swap ab.swap ↔ Consistent ab bc ac := by
  cases ab <;> cases bc <;> cases ac <;> simp [Consistent]

variable (triple : Consistent ab bc ac)
include triple

theorem Consistent.between_iff (other : Ordering) :
    Consistent ab bc other ↔ (ab.isLE ∧ bc.isLE ∨ ab.isGE ∧ bc.isGE → ac = other) := by
  cases ab <;> cases bc <;> cases ac <;> cases other <;> simp_all [Consistent]

theorem Consistent.then {ab' bc' ac' : Ordering} (later : ab = .eq → bc = .eq → ac = .eq → Consistent ab' bc' ac') :
    Consistent (ab.then ab') (bc.then bc') (ac.then ac') := by
  cases ab <;> cases bc <;> cases ac <;> grind [Consistent, Ordering.then]

end

variable {a b c : Value}

theorem numeric_comm (a b : Value) : numeric a b = numeric b a := by grind [numeric]

theorem valueOrd_eq (a b : Value) : valueOrd a b = orderBy (numeric a b) a b := by
  cases compared : numeric a b with
  | false => exact valueOrd_text compared
  | true =>
    have numbers : a.asF64.isSome ∧ b.asF64.isSome ∧ (a.isString && b.isString) = false := by grind [numeric]
    simp only [Option.isSome_iff_exists] at numbers
    obtain ⟨⟨first, here⟩, ⟨second, there⟩, kinds⟩ := numbers
    simp [valueOrd, compareSqlValues, orderBy, numberOrd, here, there, kinds, compareFloats]

section

variable (ordered : a.Ordered ∧ b.Ordered ∧ c.Ordered)
include ordered

theorem orderBy_transitive {numbers : Bool} (alike : numeric a b = numbers ∧ numeric b c = numbers) :
    Transitive (orderBy numbers) a b c := by
  cases numbers with
  | false => exact cmp_transitive a.toDisplay b.toDisplay c.toDisplay
  | true =>
    have numbers : a.asF64.isSome ∧ b.asF64.isSome ∧ c.asF64.isSome := by simp_all [numeric]
    simp only [Option.isSome_iff_exists] at numbers
    obtain ⟨⟨first, hereA⟩, ⟨second, hereB⟩, third, hereC⟩ := numbers
    obtain ⟨rank, one⟩ := exists_floatRank (ordered.1 first hereA)
    obtain ⟨rank', two⟩ := exists_floatRank (ordered.2.1 second hereB)
    obtain ⟨rank'', three⟩ := exists_floatRank (ordered.2.2 third hereC)
    simpa [Transitive, orderBy, numberOrd, hereA, hereB, hereC, float_lt_of_rank one two, float_lt_of_rank two one,
      float_lt_of_rank two three, float_lt_of_rank three two, float_lt_of_rank one three, float_lt_of_rank three one,
      cmp, cmpUsing] using cmp_transitive rank rank' rank''

theorem waysAgree_iff : if numeric a b = numeric b c ∧ numeric a c ≠ numeric a b then
    (Transitive valueOrd a b c ↔ WaysAgree a b c) else WaysAgree a b c := by
  split
  · rename_i mixed
    have row : Consistent _ _ _ := orderBy_transitive ordered ⟨rfl, mixed.1.symm⟩
    nth_rewrite 2 [mixed.1] at row
    rw [← valueOrd_eq, ← valueOrd_eq] at row
    rw [Transitive, row.between_iff]
    exact ⟨fun between _ => between, fun agree => agree mixed⟩
  · rename_i alike
    exact fun mixed => absurd mixed alike

theorem valueOrd_transitive_iff :
    Transitive valueOrd a b c ↔ WaysAgree a b c ∧ WaysAgree b c a ∧ WaysAgree c a b := by
  have first := waysAgree_iff ordered
  have second := @waysAgree_iff b c a ⟨ordered.2.1, ordered.2.2, ordered.1⟩
  have third := @waysAgree_iff c a b ⟨ordered.2.2, ordered.1, ordered.2.1⟩
  unfold Transitive at *
  rw [valueOrd_swap a c, valueOrd_swap a b, consistent_rotate, numeric_comm c a, numeric_comm b a] at second
  rw [valueOrd_swap b c, valueOrd_swap a c, ← consistent_rotate,
    numeric_comm c a, numeric_comm c b] at third
  by_cases alike : numeric a b = numeric a c ∧ numeric b c = numeric a c
  · have row : Consistent _ _ _ := orderBy_transitive ordered alike
    nth_rewrite 1 [← alike.1] at row
    nth_rewrite 1 [← alike.2] at row
    rw [← valueOrd_eq, ← valueOrd_eq, ← valueOrd_eq] at row
    simp_all
  · -- one of the three pairs is compared in another way than the two others
    generalize numeric a b = ab, numeric b c = bc, numeric a c = ac at *
    cases ab <;> cases bc <;> cases ac <;> simp_all

theorem keyOrd_transitive_iff (expr : SortExpr) : Transitive (keyOrd expr) a b c ↔ Comparable a b c := by
  obtain ⟨_, asc, nullsFirst⟩ := expr
  rw [Comparable, ← valueOrd_transitive_iff ordered]
  simp only [Transitive, keyOrd]
  cases a.isNull <;> cases b.isNull <;> cases c.isNull
  · cases asc <;> simp [consistent_swap]
  all_goals
    cases nullsFirst <;> cases asc <;> simp +contextual [Consistent]

end

theorem keyOrd_swap (expr : SortExpr) (left right : Value) :
    keyOrd expr left right = (keyOrd expr right left).swap := by
  obtain ⟨_, asc, nullsFirst⟩ := expr
  simp only [keyOrd]
  cases left.isNull <;> cases right.isNull <;> cases asc <;> cases nullsFirst <;> simp [← valueOrd_swap]

variable (exprs : List SortExpr)

theorem cmpSortKeys_swap (left right : List Value) :
    cmpSortKeys exprs left right = (cmpSortKeys exprs right left).swap := by
  induction exprs generalizing left right with
  | nil => rfl
  | cons expr rest ih => rw [cmpSortKeys, cmpSortKeys, swap_then, ← keyOrd_swap, ← ih]

theorem cmpSortKeys_self (keys : List Value) : cmpSortKeys exprs keys keys = .eq := by
  have same := cmpSortKeys_swap exprs keys keys
  cases order : cmpSortKeys exprs keys keys <;> simp_all

theorem cmpSortKeys_take_succ {place : Nat} (short : place < exprs.length) (left right : List Value) :
    cmpSortKeys (exprs.take (place + 1)) left right = (cmpSortKeys (exprs.take place) left right).then
      (keyOrd exprs[place] (left.getD place .null) (right.getD place .null)) := by
  induction exprs generalizing place left right with
  | nil => cases short
  | cons first rest ih =>
    cases place with
    | zero => simp [cmpSortKeys, headD_eq_head?_getD, head?_eq_getElem?]
    | succ place => simp [cmpSortKeys, ih (Nat.lt_of_succ_lt_succ short), then_assoc]

variable (first second third : List Value)

def Tied : Prop :=
  cmpSortKeys exprs first second = .eq ∧ cmpSortKeys exprs second third = .eq ∧ cmpSortKeys exprs first third = .eq

/-- Reflexive and antisymmetric for all keys. Transitive on three tuples, by the sort expressions and by the first ones
    of them, exactly where the values that decide are compared in one way, or in two ways that agree. -/
theorem cmpSortKeys_preorder_iff :
    (∀ keys, cmpSortKeys exprs keys keys = .eq) ∧
      (∀ left right, cmpSortKeys exprs left right = (cmpSortKeys exprs right left).swap) ∧
      ((∀ place, (first.getD place .null).Ordered ∧ (second.getD place .null).Ordered ∧
          (third.getD place .null).Ordered) →
        ((∀ count, Transitive (cmpSortKeys (exprs.take count)) first second third) ↔
          ∀ place < exprs.length, Tied (exprs.take place) first second third →
            Comparable (first.getD place .null) (second.getD place .null) (third.getD place .null))) := by
  refine ⟨cmpSortKeys_self exprs, cmpSortKeys_swap exprs, fun ordered => ?_⟩
  constructor
  · intro all place short tied
    have row := all (place + 1)
    simp only [Transitive, cmpSortKeys_take_succ exprs short, tied.1, tied.2.1, tied.2.2] at row
    exact (keyOrd_transitive_iff (ordered place) _).mp row
  · intro each count
    induction count with
    | zero => simp [Transitive, cmpSortKeys, Consistent]
    | succ count ih =>
      rcases Nat.lt_or_ge count exprs.length with short | long
      · simp only [Transitive, cmpSortKeys_take_succ exprs short]
        exact Consistent.then ih fun ab bc ac =>
          (keyOrd_transitive_iff (ordered count) _).mpr (each count short ⟨ab, bc, ac⟩)
      · rw [take_of_length_le long] at ih
        rwa [take_of_length_le (Nat.le_succ_of_le long)]

theorem cmpSortKeys_preorder_iff_decided :
    let order : List SortExpr := [.mk (.column "a") true false, .mk (.column "b") true false]
    Transitive (cmpSortKeys order) [.int 1, .int 10] [.int 2, .string "1a"] [.int 3, .int 9] := by
  intro order
  have ordered (number : Int64) (real : (floatOfInt number.toInt).isNaN = false) : (Value.int number).Ordered :=
    fun _ known => Option.some.inj known ▸ real
  have word : (Value.string "1a").asF64 = none := by decide +kernel
  refine ((cmpSortKeys_preorder_iff order _ _ _).2.2 ?_).mpr ?_ 2
  · rintro (_ | _ | _)
    · exact ⟨ordered 1 (by decide +kernel), ordered 2 (by decide +kernel), ordered 3 (by decide +kernel)⟩
    · exact ⟨ordered 10 (by decide +kernel), by simp [Value.Ordered, word], ordered 9 (by decide +kernel)⟩
    · simp [Value.Ordered, Value.asF64]
  · rintro (_ | _ | _) short tied
    · unfold Comparable WaysAgree
      decide +kernel
    · exact absurd tied.1 (by decide +kernel)
    · simp [order] at short

/-- 10 is below the text 1a and the text is below 9, yet 9 is below 10. -/
theorem mixed_keys_cycle :
    let order : List SortExpr := [.mk (.column "a") true false]
    cmpSortKeys order [.int 10] [.string "1a"] = .lt ∧ cmpSortKeys order [.string "1a"] [.int 9] = .lt ∧
      cmpSortKeys order [.int 10] [.int 9] = .gt := by
  decide +kernel

end Takyonic.Sql
