import Mathlib

/-! The rows of a window frame, and the buckets of `NTILE`. -/

namespace Takyonic.Sql

inductive FrameBound where
  | unboundedPreceding
  | unboundedFollowing
  | currentRow
  | preceding (n : Nat)
  | following (n : Nat)

open FrameBound

def resolveRowsBound (bound : FrameBound) (i partStart partEnd : Nat) (asEndExclusive : Bool) : Nat :=
  if partStart ≥ partEnd then partStart
  else
    let inclusive := match bound with
      | .unboundedPreceding => partStart
      | .unboundedFollowing => partEnd - 1
      | .currentRow => i
      | .preceding n => max (i - n) partStart
      -- the sum of a release build
      | .following n => min ((i + n) % 2 ^ 64) (partEnd - 1)
    match bound with
    | .unboundedFollowing => partEnd
    | _ => max partStart (min (if asEndExclusive then inclusive + 1 else inclusive) partEnd)

def windowFrameRange (i partStart partEnd : Nat) (start finish : FrameBound) : Nat × Nat :=
  let first := resolveRowsBound start i partStart partEnd false
  let last := resolveRowsBound finish i partStart partEnd true
  if first ≥ last then (min first partEnd, min first partEnd) else (first, last)

namespace FrameBound

def offset : FrameBound → Nat
  | .preceding n => n
  | .following n => n
  | _ => 0

-- a frame of row `i` that starts at the bound has begun at row `j`
def Begun (i j : Nat) : FrameBound → Prop
  | .unboundedPreceding => True
  | .unboundedFollowing => False
  | .currentRow => i ≤ j
  | .preceding n => i ≤ j + n
  | .following n => i + n ≤ j

-- a frame of row `i` that ends at the bound still runs at row `j`
def Running (i j : Nat) : FrameBound → Prop
  | .unboundedPreceding => False
  | .unboundedFollowing => True
  | .currentRow => j ≤ i
  | .preceding n => j + n ≤ i
  | .following n => j ≤ i + n

end FrameBound

def InFrame (range : Nat × Nat) (j : Nat) : Prop := range.1 ≤ j ∧ j < range.2

variable {i j k partStart partEnd : Nat} {start finish bound : FrameBound}

theorem FrameBound.Begun.mono (begun : bound.Begun i j) (later : j ≤ k) : bound.Begun i k := by
  cases bound <;> simp only [Begun] at begun ⊢ <;> omega

theorem FrameBound.Running.mono (running : bound.Running i k) (earlier : j ≤ k) : bound.Running i j := by
  cases bound <;> simp only [Running] at running ⊢ <;> omega

theorem inFrame_windowFrameRange (j : Nat) : InFrame (windowFrameRange i partStart partEnd start finish) j ↔
    resolveRowsBound start i partStart partEnd false ≤ j ∧ j < resolveRowsBound finish i partStart partEnd true := by
  dsimp only [InFrame, windowFrameRange]
  split
  all_goals omega

section

variable (least : partStart ≤ i) (most : i < partEnd)
include least most

theorem resolveRowsBound_le_iff (size : partEnd ≤ 2 ^ 63) (near : start.offset ≤ 2 ^ 32) :
    resolveRowsBound start i partStart partEnd false ≤ j ↔ partStart ≤ j ∧
      (partEnd ≤ j ∨ start.Begun i j ∨ start ≠ .unboundedFollowing ∧ partEnd ≤ j + 1) := by
  have inside : ¬ partStart ≥ partEnd := by omega
  cases start <;> simp [resolveRowsBound, inside, Begun, offset] at near ⊢
  all_goals omega

theorem lt_resolveRowsBound_iff (size : partEnd ≤ 2 ^ 63) (near : finish.offset ≤ 2 ^ 32) :
    j < resolveRowsBound finish i partStart partEnd true ↔ j < partEnd ∧ (finish.Running i j ∨ j ≤ partStart) := by
  have inside : ¬ partStart ≥ partEnd := by omega
  cases finish <;> simp [resolveRowsBound, inside, Running, offset] at near ⊢
  all_goals omega

/-- The range holds the rows of the partition between the bounds exactly if the start is not behind the last row and
    the end not before the first one, or the two are still apart where they are moved to. -/
theorem windowFrameRange_between_iff (size : partEnd ≤ 2 ^ 63)
    (near : start.offset ≤ 2 ^ 32 ∧ finish.offset ≤ 2 ^ 32) :
    (∀ j, InFrame (windowFrameRange i partStart partEnd start finish) j ↔
      partStart ≤ j ∧ j < partEnd ∧ start.Begun i j ∧ finish.Running i j) ↔
    start.Begun i (partEnd - 1) ∧ finish.Running i partStart ∨ start = .unboundedFollowing ∨
      partStart + 1 < partEnd ∧ ¬ start.Begun i partStart ∧ ¬ finish.Running i (partEnd - 1) := by
  have begins : start.Begun i partStart → start.Begun i (partEnd - 1) := fun begun => begun.mono (by omega)
  have runs : finish.Running i (partEnd - 1) → finish.Running i partStart := fun running => running.mono (by omega)
  simp only [inFrame_windowFrameRange, resolveRowsBound_le_iff least most size near.1,
    lt_resolveRowsBound_iff least most size near.2]
  constructor
  · intro all
    have first := all partStart
    have last := all (partEnd - 1)
    grind
  · intro placed j
    have first : j ≤ partStart → partStart ≤ j → j = partStart := fun _ _ => by omega
    have last : partEnd ≤ j + 1 → j < partEnd → j = partEnd - 1 := fun _ _ => by omega
    have unbegun : start = .unboundedFollowing → ¬ start.Begun i j := by
      rintro rfl
      exact id
    grind

end

theorem windowFrameRange_between_iff_reversed :
    ¬ InFrame (windowFrameRange 1 0 3 (.following 5) .currentRow) 1 := by
  intro member
  have placed := @windowFrameRange_between_iff 1 0 3 (.following 5) .currentRow (by decide) (by decide) (by decide)
    (by decide)
  obtain ⟨_, _, begun, _⟩ := (placed.mpr (by simp [Begun, Running]) 1).mp member
  exact absurd begun (by simp [Begun])

theorem frame_before_partition : InFrame (windowFrameRange 0 0 3 .unboundedPreceding (.preceding 1)) 0 ∧
    ¬ (preceding 1).Running 0 0 :=
  ⟨⟨by decide, by decide⟩, Nat.not_succ_le_zero 0⟩

open Finset

def ntileBucket (localI partLen buckets : Nat) : Nat :=
  if partLen = 0 ∨ buckets = 0 then 1
  else if buckets ≥ partLen then localI + 1
  else
    let size := partLen / buckets
    let rem := partLen % buckets
    if localI < rem * (size + 1) then localI / (size + 1) + 1
    else rem + (localI - rem * (size + 1)) / size + 1

def bucketStart (n b k : Nat) : Nat := k * (n / b) + min k (n % b)

def bucketSize (n b k : Nat) : Nat := {i ∈ range n | ntileBucket i n b = k}.card

variable {n b k : Nat}

theorem lt_ntileBucket_iff (k : Nat) (buckets : 0 < b) (inside : i < n) :
    k < ntileBucket i n b ↔ bucketStart n b k ≤ i := by
  have rows := Nat.div_add_mod n b
  have short := Nat.mod_lt n buckets
  unfold ntileBucket bucketStart
  rw [if_neg (by omega)]
  split
  · rename_i few
    rcases few.eq_or_lt with rfl | few
    · simp [Nat.div_self buckets]
    · rw [Nat.div_eq_of_lt few, Nat.mod_eq_of_lt few]
      omega
  have full : 0 < n / b := Nat.div_pos (by omega) buckets
  dsimp only
  generalize n / b = size at *
  generalize n % b = rem at *
  have upto := Nat.mul_le_mul_right size (m := k) (n := rem)
  have past := Nat.mul_le_mul_right size (m := rem) (n := k)
  rw [Nat.mul_succ]
  split
  · rw [Nat.lt_succ_iff, Nat.le_div_iff_mul_le (by omega), Nat.mul_succ]
    omega
  · have bucket : k - rem ≤ (i - (rem * size + rem)) / size ↔ _ := Nat.le_div_iff_mul_le full
    rw [Nat.sub_mul] at bucket
    generalize (i - (rem * size + rem)) / size = quotient at *
    omega

theorem bucketStart_succ (k : Nat) :
    bucketStart n b (k + 1) = bucketStart n b k + (n / b + if k < n % b then 1 else 0) := by
  unfold bucketStart
  rw [Nat.succ_mul]
  split <;> omega

theorem bucketStart_le (inside : k ≤ b) : bucketStart n b k ≤ n := by
  have all := Nat.div_add_mod n b
  have some := Nat.mul_le_mul_right (n / b) inside
  unfold bucketStart
  omega

theorem bucketStart_min (buckets : 0 < b) : bucketStart n b (min n b) = n := by
  have all := Nat.div_add_mod n b
  have short := Nat.mod_lt n buckets
  unfold bucketStart
  rcases Nat.lt_or_ge n b with few | many
  · simp [Nat.div_eq_of_lt few, Nat.mod_eq_of_lt few, few.le]
  · rw [min_eq_right many]
    omega

theorem bucketSize_eq (buckets : 0 < b) (inside : k < min n b) :
    bucketSize n b (k + 1) = n / b + if k < n % b then 1 else 0 := by
  have last : bucketStart n b (k + 1) ≤ n := bucketStart_le (by omega)
  have interval : {i ∈ range n | ntileBucket i n b = k + 1} = Ico (bucketStart n b k) (bucketStart n b (k + 1)) := by
    ext i
    rw [mem_filter, mem_range, mem_Ico]
    by_cases inside : i < n
    · have first := lt_ntileBucket_iff k buckets inside
      have next := lt_ntileBucket_iff (k + 1) buckets inside
      omega
    · omega
  rw [bucketSize, interval, Nat.card_Ico, bucketStart_succ, Nat.add_sub_cancel_left]

/-- The buckets of the rows ascend from 1 without a gap, and their sizes descend by one at most. -/
theorem ntileBucket_even (buckets : 0 < b) :
    (∀ i j, i ≤ j → j < n → ntileBucket i n b ≤ ntileBucket j n b) ∧
      (∀ k, (∃ i < n, ntileBucket i n b = k) ↔ 1 ≤ k ∧ k ≤ min n b) ∧
      ∀ k l, 1 ≤ k → k ≤ l → l ≤ min n b →
        bucketSize n b l ≤ bucketSize n b k ∧ bucketSize n b k ≤ bucketSize n b l + 1 := by
  refine ⟨fun i j before inside => ?_, fun k => ⟨?_, ?_⟩, fun k l first before last => ?_⟩
  · have own := lt_ntileBucket_iff (ntileBucket j n b) buckets (before.trans_lt inside)
    have next := lt_ntileBucket_iff (ntileBucket j n b) buckets inside
    omega
  · rintro ⟨i, inside, rfl⟩
    have first := lt_ntileBucket_iff 0 buckets inside
    have last := lt_ntileBucket_iff (min n b) buckets inside
    rw [bucketStart_min buckets] at last
    have zero : bucketStart n b 0 = 0 := by simp [bucketStart]
    omega
  · rintro ⟨least, most⟩
    obtain ⟨k, rfl⟩ := Nat.exists_eq_add_of_le' least
    have some : 0 < bucketSize n b (k + 1) := by
      rw [bucketSize_eq buckets most]
      rcases Nat.lt_or_ge n b with few | many
      · rw [Nat.mod_eq_of_lt few, if_pos (by omega)]
        exact Nat.succ_pos _
      · exact Nat.add_pos_left (Nat.div_pos many buckets) _
    obtain ⟨i, member⟩ := card_pos.mp some
    rw [mem_filter, mem_range] at member
    exact ⟨i, member⟩
  · obtain ⟨k, rfl⟩ := Nat.exists_eq_add_of_le' first
    obtain ⟨l, rfl⟩ := Nat.exists_eq_add_of_le' (first.trans before)
    rw [bucketSize_eq buckets (by omega), bucketSize_eq buckets (by omega)]
    split <;> split <;> omega

theorem ntileBucket_even_seven : bucketSize 7 3 3 ≤ bucketSize 7 3 1 ∧ bucketSize 7 3 1 ≤ bucketSize 7 3 3 + 1 :=
  (ntileBucket_even (by decide)).2.2 1 3 (by decide) (by decide) (by decide)

end Takyonic.Sql
