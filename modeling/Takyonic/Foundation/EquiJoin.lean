import Mathlib

/-! Three ways to pair the rows of two lists: by testing every pair, through a table of buckets, and by merging
sorted lists. -/

namespace Foundation

open List Std.OrientedCmp

variable {α β κ : Type}

def pairsWhere (test : α → β → Bool) (left : List α) (right : List β) : List (α × β) :=
  left.flatMap fun first => (right.filter (test first)).map (first, ·)

section PairsWhere

variable {test other : α → β → Bool} {left left' : List α} {right right' : List β}

theorem mem_pairsWhere {pair : α × β} :
    pair ∈ pairsWhere test left right ↔ pair.1 ∈ left ∧ pair.2 ∈ right ∧ test pair.1 pair.2 = true := by
  simp only [pairsWhere, mem_flatMap, mem_map, mem_filter]
  constructor
  · rintro ⟨first, member, second, ⟨member', passed⟩, rfl⟩
    exact ⟨member, member', passed⟩
  · rintro ⟨member, member', passed⟩
    exact ⟨pair.1, member, pair.2, ⟨member', passed⟩, rfl⟩

theorem pairsWhere_congr (same : ∀ first ∈ left, ∀ second ∈ right, test first second = other first second) :
    pairsWhere test left right = pairsWhere other left right := by
  apply flatMap_congr
  intro first member
  rw [filter_congr (same first member)]

theorem pairsWhere_append_left :
    pairsWhere test (left ++ left') right = pairsWhere test left right ++ pairsWhere test left' right :=
  flatMap_append

theorem pairsWhere_sublist (part : right.Sublist right') :
    (pairsWhere test left right).Sublist (pairsWhere test left right') := by
  induction left with
  | nil => exact nil_sublist _
  | cons first rest ih => exact ((part.filter _).map _).append ih

theorem length_pairsWhere_append_right : (pairsWhere test left (right ++ right')).length =
    (pairsWhere test left right).length + (pairsWhere test left right').length := by
  simp only [pairsWhere, length_flatMap, filter_append, map_append, length_append, sum_map_add]

section

variable (unmatched : ∀ first ∈ left, ∀ second ∈ right, test first second = false)
include unmatched

theorem pairsWhere_append_right : pairsWhere test left (right ++ right') = pairsWhere test left right' := by
  apply flatMap_congr
  intro first member
  have none_here : right.filter (test first) = [] :=
    filter_eq_nil_iff.mpr fun second member' => by simp [unmatched first member second member']
  rw [filter_append, none_here, nil_append]

end

theorem pairsWhere_eq_nil_iff :
    pairsWhere test left right = [] ↔ ∀ first ∈ left, ∀ second ∈ right, test first second = false := by
  simp [pairsWhere, flatMap_eq_nil_iff, filter_eq_nil_iff]

theorem pairsWhere_perm_swap (test : α → β → Bool) (left : List α) (right : List β) :
    (right.flatMap fun second => (left.filter (test · second)).map (·, second)).Perm (pairsWhere test left right) := by
  induction left with
  | nil =>
    simp only [pairsWhere, filter_nil, map_nil, flatMap_nil]
    rw [flatMap_eq_nil_iff.mpr fun _ _ => rfl]
  | cons first rest ih =>
    have heads : ∀ rows : List β, (rows.flatMap fun second => if test first second then [(first, second)] else []) =
        (rows.filter (test first)).map (first, ·) := by
      intro rows
      induction rows with
      | nil => rfl
      | cons second others later =>
        rw [flatMap_cons, later, filter_cons]
        split
        · rfl
        · rfl
    have split : (fun second => ((first :: rest).filter (test · second)).map (·, second)) = fun second =>
        (if test first second then [(first, second)] else []) ++ (rest.filter (test · second)).map (·, second) := by
      funext second
      rw [filter_cons]
      split
      · rfl
      · rfl
    rw [split]
    apply (flatMap_append_perm _ _ _).symm.trans
    rw [heads]
    exact ih.append_left _

theorem pairsWhere_perm (sameLeft : left.Perm left') (sameRight : right.Perm right') :
    (pairsWhere test left right).Perm (pairsWhere test left' right') :=
  sameLeft.flatMap fun _ _ => (sameRight.filter _).map _

end PairsWhere

section HashTable

variable [DecidableEq κ]

def pushBucket (key : κ) (row : α) : List (κ × List α) → List (κ × List α)
  | [] => [(key, [row])]
  | (known, rows) :: rest =>
    if known = key then (known, rows ++ [row]) :: rest else (known, rows) :: pushBucket key row rest

def bucket (table : List (κ × List α)) (key : κ) : List α := (table.lookup key).getD []

theorem bucket_pushBucket (key wanted : κ) (row : α) (table : List (κ × List α)) :
    bucket (pushBucket key row table) wanted =
      if key = wanted then bucket table wanted ++ [row] else bucket table wanted := by
  induction table with
  | nil =>
    by_cases here : key = wanted
    · simp [pushBucket, bucket, lookup, here]
    · have other : (wanted == key) = false := by simpa using Ne.symm here
      simp [pushBucket, bucket, lookup, here, other]
  | cons entry rest ih =>
    unfold bucket at ih ⊢
    unfold pushBucket
    by_cases known : entry.1 = key
    · rw [if_pos known]
      by_cases here : key = wanted
      · simp [lookup, known, here]
      · have other : (wanted == entry.1) = false := by simpa [known] using Ne.symm here
        simp [lookup, here, other]
    · rw [if_neg known]
      by_cases found : wanted = entry.1
      · have other : ¬ key = wanted := fun same => known (found.symm.trans same.symm)
        simp [lookup, found, found ▸ other]
      · have other : (wanted == entry.1) = false := by simpa using found
        simp only [lookup, other]
        exact ih

theorem bucket_foldl (key : α → κ) (rows : List α) (wanted : κ) :
    bucket (rows.foldl (fun table row => pushBucket (key row) row table) []) wanted =
      rows.filter (key · = wanted) := by
  have general : ∀ table : List (κ × List α),
      bucket (rows.foldl (fun table row => pushBucket (key row) row table) table) wanted =
        bucket table wanted ++ rows.filter (key · = wanted) := by
    induction rows with
    | nil => intro table; exact (append_nil _).symm
    | cons row rest ih =>
      intro table
      rw [foldl_cons, ih, bucket_pushBucket]
      by_cases here : key row = wanted
      · simp [here]
      · simp [here]
  exact general []

end HashTable

section Merge

variable [DecidableEq κ] (order : κ → κ → Ordering) (leftKey : α → κ) (rightKey : β → κ)

def mergePairs : Nat → List α → List β → List (α × β)
  | fuel + 1, first :: left, second :: right =>
    match order (leftKey first) (rightKey second) with
    | .lt => mergePairs fuel left (second :: right)
    | .gt => mergePairs fuel (first :: left) right
    | .eq =>
      let sameLeft (row : α) : Bool := leftKey row = leftKey first
      let sameRight (row : β) : Bool := rightKey row = rightKey second
      pairsWhere (fun _ _ => true) (first :: left.takeWhile sameLeft) (second :: right.takeWhile sameRight) ++
        mergePairs fuel (left.dropWhile sameLeft) (right.dropWhile sameRight)
  | _, _, _ => []

def pairsByKey : List α → List β → List (α × β) := pairsWhere fun row row' => decide (leftKey row = rightKey row')

/-- Whenever the merge finds two keys equal, they are the same, and no row with that key stands behind the two runs. -/
def mergeExact : Nat → List α → List β → Bool
  | fuel + 1, first :: left, second :: right =>
    match order (leftKey first) (rightKey second) with
    | .lt => mergeExact fuel left (second :: right)
    | .gt => mergeExact fuel (first :: left) right
    | .eq =>
      let leftRest := left.dropWhile fun row => leftKey row = leftKey first
      let rightRest := right.dropWhile fun row => rightKey row = rightKey second
      leftKey first = rightKey second && leftRest.all (leftKey · ≠ leftKey first) &&
        rightRest.all (rightKey · ≠ rightKey second) && mergeExact fuel leftRest rightRest
  | _, _, _ => true

def SortedBy (key : α → κ) (rows : List α) : Prop := rows.Pairwise fun row row' => order (key row) (key row') ≠ .gt

instance (key : α → κ) (rows : List α) : Decidable (SortedBy order key rows) :=
  inferInstanceAs (Decidable (Pairwise _ _))

variable {order leftKey rightKey}

theorem takeWhile_key (key : α → κ) (first : α) (rows : List α) :
    ∀ row ∈ first :: rows.takeWhile (fun row => decide (key row = key first)), key row = key first := by
  intro row inside
  rcases mem_cons.mp inside with rfl | inside
  · rfl
  · have passed := mem_takeWhile_imp inside
    simpa using passed

theorem cut_run (key : α → κ) (first : α) (rows : List α) : first :: rows =
    (first :: rows.takeWhile fun row => key row = key first) ++ rows.dropWhile fun row => key row = key first := by
  rw [cons_append, takeWhile_append_dropWhile]

theorem mem_of_mem_mergePairs {fuel : Nat} {left : List α} {right : List β} {pair : α × β}
    (member : pair ∈ mergePairs order leftKey rightKey fuel left right) : pair.1 ∈ left ∧ pair.2 ∈ right := by
  fun_induction mergePairs order leftKey rightKey fuel left right with
  | case1 _ _ _ _ _ _ ih => exact ⟨mem_cons_of_mem _ (ih member).1, (ih member).2⟩
  | case2 _ _ _ _ _ _ ih => exact ⟨(ih member).1, mem_cons_of_mem _ (ih member).2⟩
  | case3 fuel first left second right _ sameLeft sameRight ih =>
    rw [cut_run leftKey first left, cut_run rightKey second right]
    rcases mem_append.mp member with here | later
    · exact ⟨mem_append_left _ (mem_pairsWhere.mp here).1, mem_append_left _ (mem_pairsWhere.mp here).2.1⟩
    · exact ⟨mem_append_right _ (ih later).1, mem_append_right _ (ih later).2⟩
  | case4 => cases member

section

variable {left left' : List α} {right right' : List β} {wanted : κ} (leftRun : ∀ row ∈ left, leftKey row = wanted)
  (rightRun : ∀ row ∈ right, rightKey row = wanted) {merged : List (α × β)}
include leftRun rightRun

theorem pairsByKey_run : pairsByKey leftKey rightKey left right = pairsWhere (fun _ _ => true) left right := by
  apply pairsWhere_congr
  intro row inside row' inside'
  rw [leftRun row inside, rightRun row' inside', decide_eq_true rfl]

theorem runs_sublist (rest : merged.Sublist (pairsByKey leftKey rightKey left' right')) :
    (pairsWhere (fun _ _ => true) left right ++ merged).Sublist
      (pairsByKey leftKey rightKey (left ++ left') (right ++ right')) := by
  rw [← pairsByKey_run leftRun rightRun, pairsByKey, pairsWhere_append_left]
  exact (pairsWhere_sublist (sublist_append_left _ _)).append
    (rest.trans (pairsWhere_sublist (sublist_append_right _ _)))

/-- The runs and the pairs of the rests are all pairs exactly if the key of the runs is not in the rests. -/
theorem runs_eq_iff (rest : merged.Sublist (pairsByKey leftKey rightKey left' right')) (some_left : left ≠ [])
    (some_right : right ≠ []) :
    pairsWhere (fun _ _ => true) left right ++ merged = pairsByKey leftKey rightKey (left ++ left') (right ++ right') ↔
      (∀ row ∈ left', leftKey row ≠ wanted) ∧ (∀ row ∈ right', rightKey row ≠ wanted) ∧
        merged = pairsByKey leftKey rightKey left' right' := by
  have behind : pairsByKey leftKey rightKey left' right = [] ↔ ∀ row ∈ left', leftKey row ≠ wanted := by
    obtain ⟨second, inside⟩ := exists_mem_of_ne_nil right some_right
    simp only [pairsByKey, pairsWhere_eq_nil_iff, decide_eq_false_iff_not]
    exact ⟨fun apart row inside' same => apart row inside' second inside (same.trans (rightRun second inside).symm),
      fun apart row inside' row' inside same => apart row inside' (same.trans (rightRun row' inside))⟩
  have behind' : pairsByKey leftKey rightKey left right' = [] ↔ ∀ row ∈ right', rightKey row ≠ wanted := by
    obtain ⟨first, inside⟩ := exists_mem_of_ne_nil left some_left
    simp only [pairsByKey, pairsWhere_eq_nil_iff, decide_eq_false_iff_not]
    exact ⟨fun apart row inside' same => apart first inside row inside' ((leftRun first inside).trans same.symm),
      fun apart row inside row' inside' same => apart row' inside' (same.symm.trans (leftRun row inside))⟩
  have whole := runs_sublist leftRun rightRun rest
  have lengths : (pairsByKey leftKey rightKey (left ++ left') (right ++ right')).length =
      (pairsWhere (fun _ _ => true) left right).length + (pairsByKey leftKey rightKey left right').length +
        ((pairsByKey leftKey rightKey left' right).length + (pairsByKey leftKey rightKey left' right').length) := by
    rw [← pairsByKey_run leftRun rightRun]
    simp only [pairsByKey, pairsWhere_append_left, length_append, length_pairsWhere_append_right]
  rw [← whole.length_eq, ← rest.length_eq, ← behind, ← behind', ← length_eq_zero_iff, ← length_eq_zero_iff]
  have shorter := rest.length_le
  rw [length_append]
  omega

end

variable [Std.OrientedCmp order]

omit [DecidableEq κ] in
/-- A key below the first key of a sorted list is none of its keys. -/
theorem SortedBy.ne_of_lt {key : α → κ} {first : α} {rows : List α} {wanted : κ}
    (sorted : SortedBy order key (first :: rows)) (below : order wanted (key first) = .lt) :
    ∀ row ∈ first :: rows, wanted ≠ key row := by
  rintro row inside rfl
  rcases mem_cons.mp inside with rfl | inside
  · cases below.symm.trans Std.ReflCmp.compare_self
  · exact (pairwise_cons.mp sorted).1 row inside (gt_of_lt below)

section

variable {first : α} {second : β} {left : List α} {right : List β}

theorem pairsByKey_of_lt (sorted : SortedBy order rightKey (second :: right))
    (below : order (leftKey first) (rightKey second) = .lt) :
    pairsByKey leftKey rightKey (first :: left) (second :: right) =
      pairsByKey leftKey rightKey left (second :: right) := by
  have none_here : (second :: right).filter (fun row => decide (leftKey first = rightKey row)) = [] :=
    filter_eq_nil_iff.mpr (by simpa using sorted.ne_of_lt below)
  simp only [pairsByKey, pairsWhere, flatMap_cons, none_here, map_nil, nil_append]

theorem pairsByKey_of_gt (sorted : SortedBy order leftKey (first :: left))
    (above : order (leftKey first) (rightKey second) = .gt) :
    pairsByKey leftKey rightKey (first :: left) (second :: right) =
      pairsByKey leftKey rightKey (first :: left) right := by
  show pairsWhere _ (first :: left) ([second] ++ right) = _
  apply pairsWhere_append_right
  intro row inside row' inside'
  obtain rfl := mem_singleton.mp inside'
  exact decide_eq_false (sorted.ne_of_lt (lt_of_gt above) row inside).symm

end

theorem mergePairs_sublist (fuel : Nat) (left : List α) (right : List β)
    (sortedLeft : SortedBy order leftKey left) (sortedRight : SortedBy order rightKey right)
    (sound : ∀ pair ∈ mergePairs order leftKey rightKey fuel left right, leftKey pair.1 = rightKey pair.2) :
    (mergePairs order leftKey rightKey fuel left right).Sublist (pairsByKey leftKey rightKey left right) := by
  fun_induction mergePairs order leftKey rightKey fuel left right with
  | case1 fuel first left second right compared ih =>
    rw [pairsByKey_of_lt sortedRight compared]
    exact ih (pairwise_cons.mp sortedLeft).2 sortedRight sound
  | case2 fuel first left second right compared ih =>
    rw [pairsByKey_of_gt sortedLeft compared]
    exact ih sortedLeft (pairwise_cons.mp sortedRight).2 sound
  | case3 fuel first left second right compared sameLeft sameRight ih =>
    have same : leftKey first = rightKey second := sound (first, second) (by simp [pairsWhere])
    rw [cut_run leftKey first left, cut_run rightKey second right]
    apply runs_sublist (takeWhile_key leftKey first left)
      fun row inside => (takeWhile_key rightKey second right row inside).trans same.symm
    exact ih ((pairwise_cons.mp sortedLeft).2.sublist (dropWhile_sublist _))
      ((pairwise_cons.mp sortedRight).2.sublist (dropWhile_sublist _))
      fun pair member => sound pair (mem_append_right _ member)
  | case4 => exact nil_sublist _

theorem mergePairs_eq_iff (fuel : Nat) (left : List α) (right : List β) (enough : left.length + right.length ≤ fuel)
    (sortedLeft : SortedBy order leftKey left) (sortedRight : SortedBy order rightKey right) :
    mergePairs order leftKey rightKey fuel left right = pairsByKey leftKey rightKey left right ↔
      mergeExact order leftKey rightKey fuel left right = true := by
  fun_induction mergePairs order leftKey rightKey fuel left right with
  | case1 fuel first left second right compared ih =>
    rw [pairsByKey_of_lt sortedRight compared, mergeExact, compared]
    exact ih (by simp only [length_cons] at enough ⊢; omega) (pairwise_cons.mp sortedLeft).2 sortedRight
  | case2 fuel first left second right compared ih =>
    rw [pairsByKey_of_gt sortedLeft compared, mergeExact, compared]
    exact ih (by simp only [length_cons] at enough ⊢; omega) sortedLeft (pairwise_cons.mp sortedRight).2
  | case3 fuel first left second right compared sameLeft sameRight ih =>
    have shorterLeft := (dropWhile_sublist (l := left) sameLeft).length_le
    have shorterRight := (dropWhile_sublist (l := right) sameRight).length_le
    simp only [length_cons] at enough
    have restLeft := (pairwise_cons.mp sortedLeft).2.sublist (dropWhile_sublist sameLeft)
    have restRight := (pairwise_cons.mp sortedRight).2.sublist (dropWhile_sublist sameRight)
    have rest := ih (by omega) restLeft restRight
    have sublist := mergePairs_sublist fuel _ _ restLeft restRight
    have all (same : leftKey first = rightKey second) {merged : List (α × β)} :=
      @runs_eq_iff _ _ _ _ leftKey rightKey _ (left.dropWhile sameLeft) _ (right.dropWhile sameRight) _
        (takeWhile_key leftKey first left)
        (fun row inside => (takeWhile_key rightKey second right row inside).trans same.symm) merged
    rw [← cut_run, ← cut_run] at all
    simp only [mergeExact, compared, Bool.and_eq_true, decide_eq_true_eq, all_eq_true]
    constructor
    · intro equal
      have sound : ∀ pair ∈ pairsWhere (fun _ _ => true) (first :: left.takeWhile sameLeft)
          (second :: right.takeWhile sameRight) ++ mergePairs order leftKey rightKey fuel (left.dropWhile sameLeft)
            (right.dropWhile sameRight), leftKey pair.1 = rightKey pair.2 := by
        rw [equal]
        intro pair member
        simpa using (mem_pairsWhere.mp member).2.2
      have same : leftKey first = rightKey second := sound (first, second) (by simp [pairsWhere])
      obtain ⟨behind, behind', later⟩ := (all same (sublist fun pair member => sound pair (mem_append_right _ member))
        (cons_ne_nil _ _) (cons_ne_nil _ _)).mp equal
      exact ⟨⟨⟨same, behind⟩, fun row inside => same ▸ behind' row inside⟩, rest.mp later⟩
    · rintro ⟨⟨⟨same, behind⟩, behind'⟩, later⟩
      have later := rest.mpr later
      exact (all same (later ▸ Sublist.refl _) (cons_ne_nil _ _) (cons_ne_nil _ _)).mpr
        ⟨behind, fun row inside => same ▸ behind' row inside, later⟩
  | case4 fuel left right stuck =>
    have exact : mergeExact order leftKey rightKey fuel left right = true := by
      rw [mergeExact]
      exact stuck
    refine iff_of_true (Eq.symm ?_) exact
    rw [pairsByKey, pairsWhere_eq_nil_iff]
    intro first inside second inside'
    obtain ⟨_, _, rfl⟩ := exists_cons_of_ne_nil (ne_nil_of_mem inside)
    obtain ⟨_, _, rfl⟩ := exists_cons_of_ne_nil (ne_nil_of_mem inside')
    obtain ⟨_, rfl⟩ := Nat.exists_eq_succ_of_ne_zero (n := fuel) (by simp only [length_cons] at enough; omega)
    exact (stuck _ _ _ _ _ rfl rfl rfl).elim

end Merge

end Foundation
