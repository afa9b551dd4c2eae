import Mathlib

/-! Merging sorted runs by always taking the best head. The runs come apart into groups of one key each, the
keys ascending; a function of the caller then decides what is emitted for a group. -/

namespace Foundation

open List Option

namespace Merge

variable {ε κ : Type*}

/-- Take the best head; of two heads neither of which precedes the other, the one of the later run. -/
def popBest (precedes : ε → ε → Prop) [DecidableRel precedes] : List (List ε) → Option (ε × List (List ε))
  | [] => none
  | [] :: runs => (popBest precedes runs).map fun (best, rest) => (best, [] :: rest)
  | (head :: tail) :: runs =>
    match popBest precedes runs with
    | none => some (head, tail :: runs)
    | some (best, rest) =>
      if precedes head best then some (head, tail :: runs) else some (best, (head :: tail) :: rest)

variable [LinearOrder κ] (precedes : ε → ε → Prop) [DecidableRel precedes] (key : ε → κ)

def takeKey (wanted : κ) : ℕ → List (List ε) → List ε × List (List ε)
  | 0, runs => ([], runs)
  | fuel + 1, runs =>
    match popBest precedes runs with
    | none => ([], runs)
    | some (best, rest) =>
      if key best = wanted then
        let taken := takeKey wanted fuel rest
        (best :: taken.1, taken.2)
      else ([], runs)

def mergeLoop (emit : List ε → List ε) : ℕ → List (List ε) → List ε
  | 0, _ => []
  | fuel + 1, runs =>
    match popBest precedes runs with
    | none => []
    | some (best, rest) =>
      let taken := takeKey precedes key (key best) rest.flatten.length rest
      emit (best :: taken.1) ++ mergeLoop emit fuel taken.2

def merge (emit : List ε → List ε) (runs : List (List ε)) : List ε :=
  mergeLoop precedes key emit runs.flatten.length runs

variable {precedes} {runs rest : List (List ε)} {best : ε}

theorem popBest_eq_none (empty : popBest precedes runs = none) : runs.flatten = [] := by
  induction runs with
  | nil => rfl
  | cons run runs ih =>
    cases run with
    | nil =>
      simp only [popBest, map_eq_none_iff] at empty
      simpa using ih empty
    | cons head tail =>
      simp only [popBest] at empty
      split at empty
      · cases empty
      · split at empty <;> cases empty

theorem popBest_split (popped : popBest precedes runs = some (best, rest)) :
    ∃ before tail after, runs = before ++ (best :: tail) :: after ∧ rest = before ++ tail :: after := by
  induction runs generalizing best rest with
  | nil => cases popped
  | cons run runs ih =>
    cases run with
    | nil =>
      simp only [popBest, map_eq_some_iff] at popped
      obtain ⟨⟨best', rest'⟩, popped, same⟩ := popped
      obtain ⟨rfl, rfl⟩ := Prod.mk.inj same
      obtain ⟨before, tail, after, rfl, rfl⟩ := ih popped
      exact ⟨[] :: before, tail, after, rfl, rfl⟩
    | cons head tail =>
      simp only [popBest] at popped
      split at popped
      · cases popped
        exact ⟨[], tail, runs, rfl, rfl⟩
      rename_i best' rest' later
      split at popped
      · cases popped
        exact ⟨[], tail, runs, rfl, rfl⟩
      · cases popped
        obtain ⟨before, tail', after, rfl, rfl⟩ := ih later
        exact ⟨(head :: tail) :: before, tail', after, rfl, rfl⟩

theorem popBest_perm (popped : popBest precedes runs = some (best, rest)) :
    (best :: rest.flatten).Perm runs.flatten := by
  obtain ⟨before, tail, after, rfl, rfl⟩ := popBest_split popped
  simp only [flatten_append]
  exact perm_middle.symm

variable {key}

def Ascending (key : ε → κ) (runs : List (List ε)) : Prop :=
  ∀ run ∈ runs, run.Pairwise (fun first second => key first ≤ key second)

theorem Ascending.tail {run : List ε} (ascending : Ascending key (run :: runs)) : Ascending key runs :=
  fun other member => ascending other (mem_cons_of_mem _ member)

theorem Ascending.popBest (ascending : Ascending key runs)
    (popped : popBest precedes runs = some (best, rest)) : Ascending key rest := by
  obtain ⟨before, tail, after, rfl, rfl⟩ := popBest_split popped
  intro run member
  rcases mem_append.mp member with early | member
  · exact ascending run (mem_append_left _ early)
  rcases mem_cons.mp member with rfl | late
  · exact (pairwise_cons.mp (ascending (best :: run) (by simp))).2
  · exact ascending run (by simp [late])

def Compatible (precedes : ε → ε → Prop) (key : ε → κ) : Prop :=
  ∀ first second, (precedes first second → key first ≤ key second) ∧
    (¬ precedes first second → key second ≤ key first)

theorem popBest_least (compatible : Compatible precedes key) (ascending : Ascending key runs)
    (popped : popBest precedes runs = some (best, rest)) : ∀ other ∈ runs.flatten, key best ≤ key other := by
  induction runs generalizing best rest with
  | nil => cases popped
  | cons run runs ih =>
    cases run with
    | nil =>
      simp only [Merge.popBest, map_eq_some_iff] at popped
      obtain ⟨⟨best', rest'⟩, popped, same⟩ := popped
      obtain ⟨rfl, rfl⟩ := Prod.mk.inj same
      simpa using ih ascending.tail popped
    | cons head tail =>
      have headLeast : ∀ other ∈ head :: tail, key head ≤ key other := by
        exact forall_mem_cons.mpr ⟨le_refl _, (pairwise_cons.mp (ascending _ mem_cons_self)).1⟩
      intro other member
      rw [flatten_cons, mem_append] at member
      simp only [Merge.popBest] at popped
      split at popped
      · rename_i nothing
        obtain ⟨rfl, rfl⟩ := Prod.mk.inj (some.inj popped)
        rw [popBest_eq_none nothing] at member
        rcases member with member | member
        · exact headLeast other member
        · cases member
      · rename_i best' rest' popped'
        have laterLeast := ih ascending.tail popped'
        split at popped
        · rename_i order
          obtain ⟨rfl, rfl⟩ := Prod.mk.inj (some.inj popped)
          rcases member with member | member
          · exact headLeast other member
          · exact le_trans ((compatible _ _).1 order) (laterLeast other member)
        · rename_i order
          obtain ⟨rfl, rfl⟩ := Prod.mk.inj (some.inj popped)
          rcases member with member | member
          · exact le_trans ((compatible _ _).2 order) (headLeast other member)
          · exact laterLeast other member

theorem takeKey_spec (compatible : Compatible precedes key) {wanted : κ} {fuel : ℕ}
    (enough : runs.flatten.length ≤ fuel) (ascending : Ascending key runs)
    (least : ∀ other ∈ runs.flatten, wanted ≤ key other) :
    let taken := takeKey precedes key wanted fuel runs
    (taken.1 ++ taken.2.flatten).Perm runs.flatten ∧ (∀ other ∈ taken.1, key other = wanted) ∧
      (∀ other ∈ taken.2.flatten, wanted < key other) ∧ Ascending key taken.2 := by
  induction fuel generalizing runs with
  | zero =>
    have empty : runs.flatten = [] := length_eq_zero_iff.mp (Nat.le_zero.mp enough)
    simp [takeKey, empty, ascending]
  | succ fuel ih =>
    dsimp only [takeKey]
    cases popped : popBest precedes runs with
    | none => simp [popBest_eq_none popped, ascending]
    | some result =>
      obtain ⟨best, rest⟩ := result
      have perm := popBest_perm popped
      have lengths := perm.length_eq
      dsimp only
      by_cases same : key best = wanted
      · rw [if_pos same]
        obtain ⟨permRest, ofKey, above, ascendingRest⟩ := ih (by simp only [length_cons] at lengths; omega)
          (ascending.popBest popped) (fun other member => least other (perm.subset (.tail _ member)))
        refine ⟨(permRest.cons best).trans perm, ?_, above, ascendingRest⟩
        exact forall_mem_cons.mpr ⟨same, ofKey⟩
      · rw [if_neg same]
        refine ⟨List.Perm.refl _, by simp, fun other member => ?_, ascending⟩
        have bestAbove : wanted < key best := lt_of_le_of_ne (least best (perm.subset mem_cons_self)) (Ne.symm same)
        exact lt_of_lt_of_le bestAbove (popBest_least compatible ascending popped other member)

structure Groups (key : ε → κ) (runs : List (List ε)) (groups : List (List ε)) : Prop where
  perm : groups.flatten.Perm runs.flatten
  oneKey : ∀ group ∈ groups, ∀ first ∈ group, ∀ second ∈ group, key first = key second
  ascending : groups.Pairwise (fun earlier later => ∀ first ∈ earlier, ∀ second ∈ later, key first < key second)
  nonempty : ∀ group ∈ groups, group ≠ []

theorem mergeLoop_groups (compatible : Compatible precedes key) (emit : List ε → List ε) {fuel : ℕ}
    (enough : runs.flatten.length ≤ fuel) (ascending : Ascending key runs) :
    ∃ groups, Groups key runs groups ∧ mergeLoop precedes key emit fuel runs = groups.flatMap emit := by
  induction fuel generalizing runs with
  | zero =>
    have empty : runs.flatten = [] := length_eq_zero_iff.mp (Nat.le_zero.mp enough)
    exact ⟨[], ⟨by simp [empty], by simp, List.Pairwise.nil, by simp⟩, rfl⟩
  | succ fuel ih =>
    dsimp only [mergeLoop]
    cases popped : popBest precedes runs with
    | none => exact ⟨[], ⟨by simp [popBest_eq_none popped], by simp, List.Pairwise.nil, by simp⟩, rfl⟩
    | some result =>
      obtain ⟨best, rest⟩ := result
      have perm := popBest_perm popped
      have least := popBest_least compatible ascending popped
      obtain ⟨permTaken, ofKey, above, ascendingRest⟩ := takeKey_spec compatible (Nat.le_refl rest.flatten.length)
        (ascending.popBest popped) (fun other member => least other (perm.subset (.tail _ member)))
      dsimp only
      generalize takeKey precedes key (key best) rest.flatten.length rest = taken at *
      have lengths := perm.length_eq
      have lengthsTaken := permTaken.length_eq
      obtain ⟨groups, split, merged⟩ := ih (by
        simp only [length_cons, length_append] at lengths lengthsTaken
        omega) ascendingRest
      have headKey : ∀ other ∈ best :: taken.1, key other = key best := by exact forall_mem_cons.mpr ⟨rfl, ofKey⟩
      refine ⟨(best :: taken.1) :: groups, ⟨?_, ?_, ?_, ?_⟩, ?_⟩
      · have joined := (split.perm.append_left (best :: taken.1)).trans (permTaken.cons best)
        exact joined.trans perm
      · intro group member first inFirst second inSecond
        rcases mem_cons.mp member with rfl | member
        · rw [headKey first inFirst, headKey second inSecond]
        · exact split.oneKey group member first inFirst second inSecond
      · refine pairwise_cons.mpr ⟨fun group member first inFirst second inSecond => ?_, split.ascending⟩
        rw [headKey first inFirst]
        exact above second (split.perm.subset (mem_flatten.mpr ⟨group, member, inSecond⟩))
      · exact forall_mem_cons.mpr ⟨cons_ne_nil _ _, split.nonempty⟩
      · rw [flatMap_cons, merged]

theorem merge_groups (compatible : Compatible precedes key) (emit : List ε → List ε) (ascending : Ascending key runs) :
    ∃ groups, Groups key runs groups ∧ merge precedes key emit runs = groups.flatMap emit :=
  mergeLoop_groups compatible emit (Nat.le_refl _) ascending

end Merge

end Foundation
