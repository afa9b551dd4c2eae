import Mathlib

/-! Filtering by a test that may fail, and gathering rows from the buckets that they hash to. -/

namespace Foundation

open List

variable {α ε : Type}

theorem mem_destutter_from [DecidableEq α] (first : α) (rest : List α) (item : α) :
    item ∈ rest.destutter' (· ≠ ·) first ↔ item ∈ first :: rest := by
  induction rest generalizing first with
  | nil => rfl
  | cons second rest ih =>
    rw [destutter'_cons]
    split
    · rw [mem_cons, ih, mem_cons (b := first)]
    · rename_i same
      rw [ih, ← not_not.mp same, mem_cons, mem_cons, mem_cons, or_self_left]

theorem mem_destutter [DecidableEq α] (list : List α) (item : α) :
    item ∈ list.destutter (· ≠ ·) ↔ item ∈ list := by
  cases list with
  | nil => rfl
  | cons first rest => exact mem_destutter_from first rest item

/-- A loop that changes the state of one key at a time gets through if every step does on the first state. -/
theorem foldlM_update {κ σ : Type} [DecidableEq κ] {step : κ → σ → Option σ} {keys : List κ} (distinct : keys.Nodup)
    (start : κ → σ) :
    keys.foldlM (fun state key => (step key (state key)).map (Function.update state key)) start =
      if ∀ key ∈ keys, (step key (start key)).isSome
        then some fun key => if key ∈ keys then (step key (start key)).getD (start key) else start key else none := by
  induction keys generalizing start with
  | nil => simp
  | cons key rest ih =>
    rw [nodup_cons] at distinct
    rw [foldlM_cons]
    cases stepped : step key (start key) with
    | none => simp [stepped]
    | some next =>
      have others : ∀ other ∈ rest, Function.update start key next other = start other := by
        intro other member
        refine Function.update_of_ne ?_ _ _
        rintro rfl
        exact distinct.1 member
      refine (ih distinct.2 (Function.update start key next)).trans ?_
      have all : (∀ other ∈ rest, (step other (Function.update start key next other)).isSome) ↔
          ∀ other ∈ key :: rest, (step other (start other)).isSome := by
        rw [forall_mem_cons, stepped]
        exact ⟨fun passed => ⟨rfl, fun other member => others other member ▸ passed other member⟩,
          fun passed other member => (others other member).symm ▸ passed.2 other member⟩
      simp only [all]
      split
      · congr 1
        funext other
        by_cases here : other = key
        · subst here
          simp [distinct.1, stepped]
        · by_cases member : other ∈ rest
          · simp [member, others other member]
          · simp [member, here]
      · rfl

def SameRows : Except ε (List α) → Except ε (List α) → Prop
  | .ok first, .ok second => first.Perm second
  | .error _, .error _ => True
  | _, _ => False

def filterRows (test : α → Except ε Bool) : List α → Except ε (List α)
  | [] => .ok []
  | row :: rest => do
    let keep ← test row
    let kept ← filterRows test rest
    pure (if keep then row :: kept else kept)

def Fails (test : α → Except ε Bool) (row : α) : Prop := ∃ error, test row = .error error

def passes (test : α → Except ε Bool) (row : α) : Bool :=
  match test row with
  | .ok keep => keep
  | .error _ => false

variable {test : α → Except ε Bool} {rows : List α}

theorem filterRows_fails (some_fails : ∃ row ∈ rows, Fails test row) :
    ∃ error, filterRows test rows = .error error := by
  induction rows with
  | nil => simp at some_fails
  | cons first rest ih =>
    unfold filterRows
    cases here : test first with
    | error error => exact ⟨error, rfl⟩
    | ok keep =>
      have later : ∃ row ∈ rest, Fails test row := by
        obtain ⟨row, member, error, failed⟩ := some_fails
        rcases mem_cons.mp member with rfl | member
        · rw [here] at failed
          cases failed
        · exact ⟨row, member, error, failed⟩
      obtain ⟨error, failed⟩ := ih later
      exact ⟨error, by simp only [failed]; rfl⟩

theorem filterRows_passes (none_fails : ∀ row ∈ rows, ¬ Fails test row) :
    filterRows test rows = .ok (rows.filter (passes test)) := by
  induction rows with
  | nil => rfl
  | cons first rest ih =>
    have later := ih fun row member => none_fails row (mem_cons_of_mem _ member)
    unfold filterRows
    cases here : test first with
    | error error => exact absurd ⟨error, here⟩ (none_fails first mem_cons_self)
    | ok keep =>
      have same : passes test first = keep := by simp only [passes, here]
      rw [later, filter_cons, same]
      rfl

theorem filterRows_sameRows_iff [DecidableEq α] (first second : List α) :
    SameRows (filterRows test first) (filterRows test second) ↔
      ((∃ row ∈ first, Fails test row) ↔ ∃ row ∈ second, Fails test row) ∧
      ((∀ row ∈ second, ¬ Fails test row) → ∀ row, passes test row = true → first.count row = second.count row) := by
  by_cases left : ∃ row ∈ first, Fails test row
  · obtain ⟨error, failed⟩ := filterRows_fails left
    by_cases right : ∃ row ∈ second, Fails test row
    · obtain ⟨error', failed'⟩ := filterRows_fails right
      simp only [failed, failed', SameRows, left, right, true_and, true_iff]
      intro none_fails
      obtain ⟨row, member, fails⟩ := right
      exact absurd fails (none_fails row member)
    · rw [failed, filterRows_passes fun row member fails => right ⟨row, member, fails⟩]
      simp only [SameRows, left, right, iff_false, not_true_eq_false, false_and]
  · have kept := filterRows_passes fun row member fails => left ⟨row, member, fails⟩
    by_cases right : ∃ row ∈ second, Fails test row
    · obtain ⟨error', failed'⟩ := filterRows_fails right
      simp only [kept, failed', SameRows, left, right, iff_true, false_and]
    have none_fails : ∀ row ∈ second, ¬ Fails test row := fun row member fails => right ⟨row, member, fails⟩
    rw [kept, filterRows_passes none_fails]
    simp only [SameRows, left, right, true_and, perm_iff_count]
    constructor
    · intro same _ row passed
      have here := same row
      rwa [count_filter passed, count_filter passed] at here
    · intro same row
      cases passed : passes test row with
      | true =>
        rw [count_filter passed, count_filter passed]
        exact same none_fails row passed
      | false =>
        have absent : ∀ rows : List α, (rows.filter (passes test)).count row = 0 := by
          intro rows
          apply count_eq_zero.mpr
          intro member
          rw [(mem_filter.mp member).2] at passed
          cases passed
        rw [absent, absent]

def appendNew [DecidableEq α] (found : List α) (next : α) : List α := if next ∈ found then found else found.concat next

variable {found : List α}

theorem mem_foldl_appendNew [DecidableEq α] {next : List α} {value : α} :
    value ∈ next.foldl appendNew found ↔ value ∈ found ∨ value ∈ next := by
  induction next generalizing found with
  | nil => simp
  | cons first rest ih =>
    rw [foldl_cons, ih, mem_cons, ← or_assoc]
    apply or_congr_left
    unfold appendNew
    split
    · rename_i known
      exact ⟨.inl, fun member => member.elim id fun same => same ▸ known⟩
    · simp

theorem nodup_foldl_appendNew [DecidableEq α] (next : List α) (distinct : found.Nodup) :
    (next.foldl appendNew found).Nodup := by
  induction next generalizing found with
  | nil => exact distinct
  | cons first rest ih =>
    apply ih
    unfold appendNew
    split
    · exact distinct
    · rename_i unknown
      exact List.Nodup.concat unknown distinct

def gather (bucket : α → Nat) (targets : List Nat) (rows : List α) : List α :=
  targets.flatMap fun target => rows.filter (bucket · = target)

variable {bucket : α → Nat} {targets : List Nat} {rows : List α}

theorem mem_gather {row : α} : row ∈ gather bucket targets rows ↔ row ∈ rows ∧ bucket row ∈ targets := by
  simp only [gather, mem_flatMap, mem_filter, decide_eq_true_eq]
  constructor
  · rintro ⟨target, member, inside, rfl⟩
    exact ⟨inside, member⟩
  · rintro ⟨inside, member⟩
    exact ⟨bucket row, member, inside, rfl⟩

theorem count_gather [DecidableEq α] (row : α) :
    (gather bucket targets rows).count row = targets.count (bucket row) * rows.count row := by
  induction targets with
  | nil => simp [gather]
  | cons target rest ih =>
    have head : (rows.filter (bucket · = target)).count row = if bucket row = target then rows.count row else 0 := by
      split
      · rename_i here
        exact count_filter (by simpa using here)
      · rename_i here
        apply count_eq_zero.mpr
        intro member
        exact here (by simpa using (mem_filter.mp member).2)
    have split : (gather bucket (target :: rest) rows).count row =
        (rows.filter (bucket · = target)).count row + (gather bucket rest rows).count row := by
      simp only [gather, flatMap_cons, count_append]
    rw [split, head, ih, count_cons]
    by_cases here : bucket row = target
    · subst here
      simp only [if_true, beq_self_eq_true, Nat.add_mul, Nat.one_mul, Nat.add_comm]
    · have other : (target == bucket row) = false := by simpa using Ne.symm here
      simp only [here, if_false, other, Bool.false_eq_true, Nat.add_zero, Nat.zero_add]

theorem gather_sameRows_iff [DecidableEq α] {keep : α → Bool} :
    SameRows (filterRows test (gather bucket targets rows)) (filterRows test (rows.filter keep)) ↔
      ((∃ row ∈ rows, Fails test row ∧ bucket row ∈ targets) ↔ ∃ row ∈ rows, Fails test row ∧ keep row = true) ∧
      ((∀ row ∈ rows, keep row = true → ¬ Fails test row) → ∀ row ∈ rows, passes test row = true →
        targets.count (bucket row) = if keep row then 1 else 0) := by
  have gathered : (∃ row ∈ gather bucket targets rows, Fails test row) ↔
      ∃ row ∈ rows, Fails test row ∧ bucket row ∈ targets := by
    simp only [mem_gather, and_assoc, and_comm (a := Fails test _)]
  have kept : (∃ row ∈ rows.filter keep, Fails test row) ↔ ∃ row ∈ rows, Fails test row ∧ keep row = true := by
    simp only [mem_filter, and_assoc, and_comm (a := Fails test _)]
  have safe : (∀ row ∈ rows.filter keep, ¬ Fails test row) ↔ ∀ row ∈ rows, keep row = true → ¬ Fails test row := by
    simp only [mem_filter, and_imp]
  have counted (row : α) : (rows.filter keep).count row = (if keep row then 1 else 0) * rows.count row := by
    cases here : keep row with
    | true => rw [count_filter here, if_pos rfl, Nat.one_mul]
    | false =>
      rw [if_neg Bool.false_ne_true, Nat.zero_mul]
      apply count_eq_zero.mpr
      intro member
      rw [(mem_filter.mp member).2] at here
      cases here
  have counts :
      (∀ row, passes test row = true → (gather bucket targets rows).count row = (rows.filter keep).count row) ↔
      ∀ row ∈ rows, passes test row = true → targets.count (bucket row) = if keep row then 1 else 0 := by
    constructor
    · intro same row member passed
      have here := same row passed
      rw [count_gather, counted] at here
      exact Nat.eq_of_mul_eq_mul_right (count_pos_iff.mpr member) here
    · intro once row passed
      rw [count_gather, counted]
      by_cases member : row ∈ rows
      · rw [once row member passed]
      · rw [count_eq_zero.mpr member, Nat.mul_zero, Nat.mul_zero]
  rw [filterRows_sameRows_iff, gathered, kept, safe, counts]

end Foundation
