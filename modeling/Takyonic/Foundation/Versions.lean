import Mathlib

/-! Multi-version collections. Versions carry a key and a sequence number; a read at a bound asks for the
newest version of a key that is not above the bound. What such a read may answer is stated over all
versions, so the answers of several places can be combined and versions can be dropped. -/

namespace Foundation

open List

structure Stamp (ε κ : Type*) where
  key : ε → κ
  seq : ε → ℕ

namespace Stamp

variable {ε κ : Type*} (stamp : Stamp ε κ)

/-- What a read of `key` at `bound` may answer. -/
def IsNewest (versions : List ε) (key : κ) (bound : ℕ) : Option ε → Prop
  | none => ∀ other ∈ versions, stamp.key other = key → bound < stamp.seq other
  | some version => version ∈ versions ∧ stamp.key version = key ∧ stamp.seq version ≤ bound ∧
      ∀ other ∈ versions, stamp.key other = key → stamp.seq other ≤ bound → stamp.seq other ≤ stamp.seq version

def Determined (versions : List ε) : Prop :=
  ∀ first ∈ versions, ∀ second ∈ versions, stamp.key first = stamp.key second →
    stamp.seq first = stamp.seq second → first = second

/-- `rest` is what is left of `versions`: for a version that is gone a newer one of its key, below
    `bound`, is there. -/
structure Thins (bound : ℕ) (versions rest : List ε) : Prop where
  subset : rest ⊆ versions
  covered : ∀ version ∈ versions, version ∈ rest ∨ ∃ newer ∈ rest,
    stamp.key newer = stamp.key version ∧ stamp.seq version < stamp.seq newer ∧ stamp.seq newer < bound

def newer : Option ε → Option ε → Option ε
  | none, second => second
  | some first, none => some first
  | some first, some second => if stamp.seq second ≤ stamp.seq first then some first else some second

variable {stamp} {versions rest : List ε} {key : κ} {bound bound' limit watermark : ℕ}

theorem Determined.subset (determined : stamp.Determined versions) (subset : rest ⊆ versions) :
    stamp.Determined rest :=
  fun first inFirst second inSecond => determined first (subset inFirst) second (subset inSecond)

variable {second first : Option ε}

theorem IsNewest.unique (determined : stamp.Determined versions)
    (newestFirst : stamp.IsNewest versions key bound first) (newestSecond : stamp.IsNewest versions key bound second) :
    first = second := by
  cases first with
  | none =>
    cases second with
    | none => rfl
    | some second =>
      obtain ⟨member, ofKey, inside, -⟩ := newestSecond
      exact absurd (newestFirst second member ofKey) (by omega)
  | some first =>
    obtain ⟨member, ofKey, inside, above⟩ := newestFirst
    cases second with
    | none => exact absurd (newestSecond first member ofKey) (by omega)
    | some second =>
      obtain ⟨member', ofKey', inside', above'⟩ := newestSecond
      have same : stamp.seq first = stamp.seq second :=
        Nat.le_antisymm (above' first member ofKey inside) (above second member' ofKey' inside')
      exact congrArg some (determined first member second member' (ofKey.trans ofKey'.symm) same)

variable {others last othersRest versions' rest' list : List ε}

theorem IsNewest.union (newestFirst : stamp.IsNewest versions key bound first)
    (newestSecond : stamp.IsNewest others key bound second) :
    stamp.IsNewest (versions ++ others) key bound (stamp.newer first second) := by
  cases first with
  | none =>
    cases second with
    | none => exact forall_mem_append.mpr ⟨newestFirst, newestSecond⟩
    | some second =>
      obtain ⟨member, ofKey, inside, above⟩ := newestSecond
      refine ⟨mem_append_right _ member, ofKey, inside, forall_mem_append.mpr ⟨fun other old same below => ?_, above⟩⟩
      exact absurd (newestFirst other old same) (by omega)
  | some first =>
    obtain ⟨member, ofKey, inside, above⟩ := newestFirst
    cases second with
    | none =>
      refine ⟨mem_append_left _ member, ofKey, inside, forall_mem_append.mpr ⟨above, fun other new same below => ?_⟩⟩
      exact absurd (newestSecond other new same) (by omega)
    | some second =>
      obtain ⟨memberSecond, ofKeySecond, insideSecond, aboveSecond⟩ := newestSecond
      by_cases order : stamp.seq second ≤ stamp.seq first
      · rw [newer, if_pos order]
        refine ⟨mem_append_left _ member, ofKey, inside, forall_mem_append.mpr ⟨above, fun other new same below => ?_⟩⟩
        exact Nat.le_trans (aboveSecond other new same below) order
      · rw [newer, if_neg order]
        refine ⟨mem_append_right _ memberSecond, ofKeySecond, insideSecond,
          forall_mem_append.mpr ⟨fun other old same below => ?_, aboveSecond⟩⟩
        have := above other old same below
        omega

theorem IsNewest.absent (absent : ∀ version ∈ versions, stamp.key version ≠ key) :
    stamp.IsNewest versions key bound none :=
  fun version member ofKey => absurd ofKey (absent version member)

variable {answer : Option ε}

theorem IsNewest.congr (newest : stamp.IsNewest versions key bound answer)
    (same : ∀ version, stamp.key version = key → (version ∈ versions ↔ version ∈ others)) :
    stamp.IsNewest others key bound answer := by
  cases answer with
  | none => exact fun version member ofKey => newest version ((same version ofKey).mpr member) ofKey
  | some answer =>
    obtain ⟨member, ofKey, inside, above⟩ := newest
    exact ⟨(same answer ofKey).mp member, ofKey, inside,
      fun version member other => above version ((same version other).mpr member) other⟩

theorem IsNewest.left (newest : stamp.IsNewest (versions ++ others) key bound answer)
    (hidden : ∀ other ∈ others, stamp.key other = key → bound < stamp.seq other) :
    stamp.IsNewest versions key bound answer := by
  cases answer with
  | none => exact fun version member => newest version (mem_append_left _ member)
  | some answer =>
    obtain ⟨member, ofKey, inside, above⟩ := newest
    refine ⟨?_, ofKey, inside, fun version member => above version (mem_append_left _ member)⟩
    rcases mem_append.mp member with here | there
    · exact here
    · exact absurd (hidden answer there ofKey) (Nat.not_lt.mpr inside)

theorem Thins.refl (bound : ℕ) (versions : List ε) : stamp.Thins bound versions versions :=
  ⟨List.Subset.refl _, fun _ member => .inl member⟩

theorem Thins.mono (thins : stamp.Thins bound versions rest) (le : bound ≤ bound') :
    stamp.Thins bound' versions rest := by
  refine ⟨thins.subset, fun version member => ?_⟩
  rcases thins.covered version member with kept | ⟨newer, inRest, ofKey, above, below⟩
  · exact .inl kept
  · exact .inr ⟨newer, inRest, ofKey, above, Nat.lt_of_lt_of_le below le⟩

theorem Thins.trans (first : stamp.Thins bound versions rest)
    (second : stamp.Thins bound rest last) : stamp.Thins bound versions last := by
  refine ⟨List.Subset.trans second.subset first.subset, fun version member => ?_⟩
  rcases first.covered version member with kept | ⟨newer, inRest, ofKey, above, below⟩
  · exact second.covered version kept
  · rcases second.covered newer inRest with kept | ⟨newest, inLast, ofKey', above', below'⟩
    · exact .inr ⟨newer, kept, ofKey, above, below⟩
    · exact .inr ⟨newest, inLast, ofKey'.trans ofKey, Nat.lt_trans above above', below'⟩

theorem Thins.union (first : stamp.Thins bound versions rest) (second : stamp.Thins bound others othersRest) :
    stamp.Thins bound (versions ++ others) (rest ++ othersRest) := by
  refine ⟨append_subset.mpr ⟨?_, ?_⟩, fun version member => ?_⟩
  · exact List.Subset.trans first.subset (subset_append_left _ _)
  · exact List.Subset.trans second.subset (subset_append_right _ _)
  rcases mem_append.mp member with member | member
  · rcases first.covered version member with kept | ⟨newer, inRest, found⟩
    · exact .inl (mem_append_left _ kept)
    · exact .inr ⟨newer, mem_append_left _ inRest, found⟩
  · rcases second.covered version member with kept | ⟨newer, inRest, found⟩
    · exact .inl (mem_append_right _ kept)
    · exact .inr ⟨newer, mem_append_right _ inRest, found⟩

theorem Thins.congr (thins : stamp.Thins bound versions rest)
    (sameVersions : ∀ version, version ∈ versions ↔ version ∈ versions')
    (sameRest : ∀ version, version ∈ rest ↔ version ∈ rest') : stamp.Thins bound versions' rest' := by
  refine ⟨fun version member => (sameVersions version).mp (thins.subset ((sameRest version).mpr member)),
    fun version member => ?_⟩
  rcases thins.covered version ((sameVersions version).mpr member) with kept | ⟨newer, inRest, found⟩
  · exact .inl ((sameRest version).mp kept)
  · exact .inr ⟨newer, (sameRest newer).mp inRest, found⟩

theorem Thins.isNewest (thins : stamp.Thins limit versions rest) (visible : limit ≤ bound + 1)
    (newest : stamp.IsNewest rest key bound answer) : stamp.IsNewest versions key bound answer := by
  cases answer with
  | none =>
    intro version member ofKey
    rcases thins.covered version member with kept | ⟨newer, inRest, same, above, below⟩
    · exact newest version kept ofKey
    · have := newest newer inRest (same.trans ofKey)
      omega
  | some answer =>
    obtain ⟨member, ofKey, inside, largest⟩ := newest
    refine ⟨thins.subset member, ofKey, inside, fun version inVersions ofKey' inside' => ?_⟩
    rcases thins.covered version inVersions with kept | ⟨newer, inRest, same, above, below⟩
    · exact largest version kept ofKey' inside'
    · have := largest newer inRest (same.trans ofKey') (by omega)
      omega

section OneKey

variable [DecidableEq κ]

def ofKey (stamp : Stamp ε κ) (key : κ) (versions : List ε) : List ε := versions.filter (stamp.key · = key)

@[simp] theorem mem_ofKey {version : ε} :
    version ∈ stamp.ofKey key versions ↔ version ∈ versions ∧ stamp.key version = key := by
  simp [ofKey]

theorem ofKey_append (key : κ) (versions others : List ε) :
    stamp.ofKey key (versions ++ others) = stamp.ofKey key versions ++ stamp.ofKey key others :=
  filter_append _ _

theorem Determined.ofKey (determined : stamp.Determined versions) (key : κ) :
    stamp.Determined (stamp.ofKey key versions) :=
  determined.subset (fun _ member => (mem_ofKey.mp member).1)

theorem Thins.ofKey (thins : stamp.Thins bound versions rest) (key : κ) :
    stamp.Thins bound (stamp.ofKey key versions) (stamp.ofKey key rest) := by
  constructor
  · intro version member
    obtain ⟨inside, ofKey⟩ := mem_ofKey.mp member
    exact mem_ofKey.mpr ⟨thins.subset inside, ofKey⟩
  · intro version member
    obtain ⟨inside, ofKey⟩ := mem_ofKey.mp member
    rcases thins.covered version inside with kept | ⟨newer, inRest, same, above⟩
    · exact .inl (mem_ofKey.mpr ⟨kept, ofKey⟩)
    · exact .inr ⟨newer, mem_ofKey.mpr ⟨inRest, same.trans ofKey⟩, same, above⟩

theorem Thins.of_keys (each : ∀ key, stamp.Thins bound (stamp.ofKey key versions) (stamp.ofKey key rest)) :
    stamp.Thins bound versions rest := by
  constructor
  · intro version member
    exact (mem_ofKey.mp ((each _).subset (mem_ofKey.mpr ⟨member, rfl⟩))).1
  · intro version member
    rcases (each _).covered version (mem_ofKey.mpr ⟨member, rfl⟩) with kept | ⟨newer, inRest, found⟩
    · exact .inl (mem_ofKey.mp kept).1
    · exact .inr ⟨newer, (mem_ofKey.mp inRest).1, found⟩

end OneKey

variable (stamp)

/-- What garbage collection leaves of the versions of one key, newest first: all from the watermark on and
    the newest one below it. -/
def survivors (watermark : ℕ) (keptBelow : Bool) : List ε → List ε
  | [] => []
  | version :: older =>
    if watermark ≤ stamp.seq version then version :: survivors watermark keptBelow older
    else if keptBelow then survivors watermark true older
    else version :: survivors watermark true older

variable {stamp}

theorem survivors_sublist : (stamp.survivors watermark keptBelow list).Sublist list := by
  induction list generalizing keptBelow with
  | nil => exact List.Sublist.refl _
  | cons version older ih =>
    unfold survivors
    split
    · exact ih.cons_cons version
    · split
      · exact ih.cons version
      · exact ih.cons_cons version

theorem survivors_thins (descending : list.Pairwise (fun first second => stamp.seq second < stamp.seq first))
    (oneKey : ∀ version ∈ list, stamp.key version = key) :
    stamp.Thins watermark list (stamp.survivors watermark false list) := by
  refine ⟨survivors_sublist.subset, ?_⟩
  induction list with
  | nil =>
    intro version member
    cases member
  | cons first older ih =>
    intro version member
    have olderKey : ∀ version ∈ older, stamp.key version = key :=
      fun version member => oneKey version (mem_cons_of_mem _ member)
    obtain ⟨newest, descending⟩ := pairwise_cons.mp descending
    by_cases le : watermark ≤ stamp.seq first
    · have split : stamp.survivors watermark false (first :: older) =
          first :: stamp.survivors watermark false older := by
        rw [survivors, if_pos le]
      simp only [split, mem_cons] at member ⊢
      rcases member with rfl | member
      · exact .inl (.inl rfl)
      · rcases ih descending olderKey version member with kept | ⟨newer, inRest, found⟩
        · exact .inl (.inr kept)
        · exact .inr ⟨newer, .inr inRest, found⟩
    · have split : stamp.survivors watermark false (first :: older) =
          first :: stamp.survivors watermark true older := by
        rw [survivors, if_neg le, if_neg (by decide)]
      simp only [split, mem_cons] at member ⊢
      rcases member with rfl | member
      · exact .inl (.inl rfl)
      · refine .inr ⟨first, .inl rfl, ?_, newest version member, by omega⟩
        exact (oneKey first mem_cons_self).trans (olderKey version member).symm

end Stamp

end Foundation
