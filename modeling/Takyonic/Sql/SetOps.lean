import Takyonic.Sql.Plan

/-! The set operations on rows. -/

namespace Takyonic.Sql

open List Function

variable {ρ : Type} [DecidableEq ρ]

def dedupeFrom (seen : List ρ) : List ρ → List ρ
  | [] => []
  | row :: rows => if row ∈ seen then dedupeFrom seen rows else row :: dedupeFrom (row :: seen) rows

def dedupeRecords (rows : List ρ) : List ρ := dedupeFrom [] rows

def countRow (counts : ρ → Nat) (row : ρ) : ρ → Nat := update counts row (counts row + 1)

def rightCounts (right : List ρ) : ρ → Nat := right.foldl countRow fun _ => 0

/-- The loops over the left rows: a row that has a count left takes one off, and is kept or dropped for it. -/
def takeCounts (keep : Bool) (counts : ρ → Nat) : List ρ → List ρ
  | [] => []
  | row :: rows =>
    if counts row > 0 then
      let rest := takeCounts keep (update counts row (counts row - 1)) rows
      if keep then row :: rest else rest
    else
      let rest := takeCounts keep counts rows
      if keep then rest else row :: rest

def applySetOp (left right : List ρ) : SetOpKind → Bool → List ρ
  | .union, true => left ++ right
  | .union, false => dedupeRecords (left ++ right)
  | .intersect, false => dedupeRecords (left.filter (· ∈ right))
  | .intersect, true => takeCounts true (rightCounts right) left
  | .except, false => dedupeRecords (left.filter (· ∉ right))
  | .except, true => takeCounts false (rightCounts right) left

variable {x : ρ} {seen left right rows : List ρ} {counts : ρ → Nat} {keep : Bool}

theorem count_dedupeFrom : (dedupeFrom seen rows).count x = if x ∈ rows ∧ x ∉ seen then 1 else 0 := by
  induction rows generalizing seen with
  | nil => rfl
  | cons row rows ih => grind [dedupeFrom]

theorem foldl_countRow : right.foldl countRow counts x = counts x + right.count x := by
  induction right generalizing counts with
  | nil => simp
  | cons row right ih =>
    rw [foldl_cons, ih, countRow]
    grind

theorem count_takeCounts : (takeCounts keep counts rows).count x =
    if keep then min (rows.count x) (counts x) else rows.count x - counts x := by
  induction rows generalizing counts with
  | nil => simp [takeCounts]
  | cons row rows ih => grind [takeCounts, update_apply]

theorem dedupeFrom_sublist : (dedupeFrom seen rows).Sublist rows := by
  induction rows generalizing seen with
  | nil => exact .slnil
  | cons row rows ih => grind [dedupeFrom]

theorem takeCounts_sublist : (takeCounts keep counts rows).Sublist rows := by
  induction rows generalizing counts with
  | nil => exact .slnil
  | cons row rows ih => grind [takeCounts]

theorem dedupeFrom_append :
    ∃ seen', dedupeFrom seen (left ++ right) = dedupeFrom seen left ++ dedupeFrom seen' right := by
  induction left generalizing seen with
  | nil => exact ⟨seen, rfl⟩
  | cons row left ih =>
    rw [cons_append, dedupeFrom, dedupeFrom]
    split
    · exact ih
    · exact (@ih (row :: seen)).imp fun _ same => congrArg (cons row) same

/-- How often a row stands in the result, and that the rows kept of each side keep their order. -/
theorem applySetOp_counts (left right : List ρ) (op : SetOpKind) (all : Bool) :
    (∀ x, (applySetOp left right op all).count x = match op, all with
      | .union, true => left.count x + right.count x
      | .union, false => if left.count x + right.count x > 0 then 1 else 0
      | .intersect, true => min (left.count x) (right.count x)
      | .intersect, false => if left.count x > 0 ∧ right.count x > 0 then 1 else 0
      | .except, true => left.count x - right.count x
      | .except, false => if left.count x > 0 ∧ right.count x = 0 then 1 else 0) ∧
    ∃ kept added, applySetOp left right op all = kept ++ added ∧ kept.Sublist left ∧ added.Sublist right ∧
      (op ≠ .union → added = []) := by
  have alone : ∀ {rows : List ρ}, rows.Sublist left →
      ∃ kept added, rows = kept ++ added ∧ kept.Sublist left ∧ added.Sublist right ∧ (op ≠ .union → added = []) :=
    fun kept => ⟨_, [], (append_nil _).symm, kept, nil_sublist _, fun _ => rfl⟩
  constructor
  · intro x
    cases op <;> cases all <;> simp [applySetOp, dedupeRecords, count_dedupeFrom, count_takeCounts, rightCounts,
      foldl_countRow, count_pos_iff, count_eq_zero]
  · cases op <;> cases all
    · obtain ⟨seen, same⟩ := @dedupeFrom_append _ _ [] left right
      exact ⟨_, _, same, dedupeFrom_sublist, dedupeFrom_sublist, fun other => absurd rfl other⟩
    · exact ⟨left, right, rfl, .refl _, .refl _, fun other => absurd rfl other⟩
    · exact alone (dedupeFrom_sublist.trans filter_sublist)
    · exact alone takeCounts_sublist
    · exact alone (dedupeFrom_sublist.trans filter_sublist)
    · exact alone takeCounts_sublist

end Takyonic.Sql
