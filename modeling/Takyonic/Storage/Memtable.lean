import Takyonic.Types

namespace Takyonic

open Foundation List Entry

/-- A strictly ordered run of versions: the contents of a `BTreeMap<InternalKey, Slot>` and of an SST. -/
def Ordered (entries : List Entry) : Prop :=
  entries.Pairwise (fun first second => first.internalKey < second.internalKey)

instance : Decidable (Ordered entries) := inferInstanceAs (Decidable (entries.Pairwise _))

def insertVersion (overwrite : Bool) (entry : Entry) : List Entry → List Entry
  | [] => [entry]
  | first :: rest =>
    if entry.internalKey < first.internalKey then entry :: first :: rest
    else if first.internalKey < entry.internalKey then first :: insertVersion overwrite entry rest
    else if overwrite then entry :: rest
    else first :: rest

/-- `range(InternalKey::new(key, read_ts)..).next()` when it is a version of the key. -/
def firstFrom (key : Key) (readTs : Nat) (entries : List Entry) : Option Entry :=
  match entries.find? (fun entry => decide ((⟨key, readTs⟩ : InternalKey) ≤ entry.internalKey)) with
  | some entry => if entry.key = key then some entry else none
  | none => none

variable {entries : List Entry} {other entry : Entry} {overwrite : Bool}

theorem Ordered.determined (ordered : Ordered entries) : stamp.Determined entries := by
  induction entries with
  | nil =>
    intro first member
    cases member
  | cons head rest ih =>
    obtain ⟨least, orderedRest⟩ := pairwise_cons.mp ordered
    intro first inFirst second inSecond sameKey sameSeq
    have same : first.internalKey = second.internalKey := internalKey_inj.mpr ⟨sameKey, sameSeq⟩
    rcases mem_cons.mp inFirst with atHead | later
    · rcases mem_cons.mp inSecond with atHead' | later'
      · exact atHead.trans atHead'.symm
      · exact absurd (least second later') (by rw [← atHead, same]; exact lt_irrefl _)
    · rcases mem_cons.mp inSecond with atHead' | later'
      · exact absurd (least first later) (by rw [← atHead', same]; exact lt_irrefl _)
      · exact ih orderedRest first later second later' sameKey sameSeq

theorem Ordered.key_le {first : Entry} {rest : List Entry} (ordered : Ordered (first :: rest))
    (member : other ∈ first :: rest) : first.key ≤ other.key := by
  rcases mem_cons.mp member with rfl | member
  · exact le_refl _
  · rcases internalKey_lt.mp ((pairwise_cons.mp ordered).1 other member) with less | ⟨same, -⟩
    · exact le_of_lt less
    · exact le_of_eq same

theorem Ordered.firstFrom_isNewest (ordered : Ordered entries) (key : Key) (readTs : Nat) :
    stamp.IsNewest entries key readTs (firstFrom key readTs entries) := by
  induction entries with
  | nil =>
    intro other member
    cases member
  | cons first rest ih =>
    obtain ⟨least, orderedRest⟩ := pairwise_cons.mp ordered
    by_cases reached : (⟨key, readTs⟩ : InternalKey) ≤ first.internalKey
    · have found : firstFrom key readTs (first :: rest) = if first.key = key then some first else none := by
        simp only [firstFrom, List.find?_cons, decide_eq_true reached]
      rw [found]
      rcases le_internalKey.mp reached with above | ⟨rfl, inside⟩
      · rw [if_neg (ne_of_gt above)]
        intro other member ofKey
        exact absurd (lt_of_lt_of_le above (ordered.key_le member)) (not_lt_of_ge (le_of_eq ofKey))
      · rw [if_pos rfl]
        refine ⟨mem_cons_self, rfl, inside, fun other member ofKey _ => ?_⟩
        rcases mem_cons.mp member with rfl | member
        · exact le_rfl
        · rcases internalKey_lt.mp (least other member) with greater | ⟨-, newer⟩
          · exact absurd greater (not_lt_of_ge (le_of_eq ofKey))
          · exact le_of_lt newer
    · have skipped : firstFrom key readTs (first :: rest) = firstFrom key readTs rest := by
        simp only [firstFrom, List.find?_cons, decide_eq_false reached]
      have invisible : first.key = key → readTs < first.seq := by
        intro ofKey
        by_contra inside
        exact reached (le_internalKey.mpr (.inr ⟨ofKey.symm, le_of_not_gt inside⟩))
      have alone : stamp.IsNewest [first] key readTs none := by
        intro other member ofKey
        rw [mem_singleton.mp member] at ofKey ⊢
        exact invisible ofKey
      rw [skipped]
      exact alone.union (ih orderedRest)

theorem mem_of_mem_insertVersion (member : other ∈ insertVersion overwrite entry entries) :
    other = entry ∨ other ∈ entries := by
  induction entries with
  | nil => simpa [insertVersion] using member
  | cons first rest ih =>
    unfold insertVersion at member
    split at member
    · exact mem_cons.mp member
    split at member
    · rcases mem_cons.mp member with rfl | member
      · exact .inr mem_cons_self
      · exact (ih member).imp_right (mem_cons_of_mem _)
    · split at member
      · exact (mem_cons.mp member).imp_right (mem_cons_of_mem _)
      · exact .inr member

theorem mem_insertVersion_of_mem (ordered : Ordered entries) (member : other ∈ entries)
    (different : overwrite = true → other.internalKey ≠ entry.internalKey) :
    other ∈ insertVersion overwrite entry entries := by
  induction entries with
  | nil => cases member
  | cons first rest ih =>
    obtain ⟨least, ordered⟩ := pairwise_cons.mp ordered
    unfold insertVersion
    split
    · exact mem_cons_of_mem _ member
    split
    · rcases mem_cons.mp member with rfl | member
      · exact mem_cons_self
      · exact mem_cons_of_mem _ (ih ordered member)
    rename_i notBefore notAfter
    have same : first.internalKey = entry.internalKey := le_antisymm (le_of_not_gt notBefore) (le_of_not_gt notAfter)
    split
    · rename_i taken
      rcases mem_cons.mp member with rfl | member
      · exact absurd same (different taken)
      · exact mem_cons_of_mem _ member
    · exact member

theorem exists_mem_insertVersion (overwrite : Bool) (entry : Entry) (entries : List Entry) :
    ∃ other ∈ insertVersion overwrite entry entries, other.internalKey = entry.internalKey := by
  induction entries with
  | nil => exact ⟨entry, mem_cons_self, rfl⟩
  | cons first rest ih =>
    unfold insertVersion
    split
    · exact ⟨entry, mem_cons_self, rfl⟩
    split
    · obtain ⟨other, member, same⟩ := ih
      exact ⟨other, mem_cons_of_mem _ member, same⟩
    · rename_i notBefore notAfter
      split
      · exact ⟨entry, mem_cons_self, rfl⟩
      · exact ⟨first, mem_cons_self, le_antisymm (le_of_not_gt notBefore) (le_of_not_gt notAfter)⟩

theorem Ordered.insertVersion (ordered : Ordered entries) (overwrite : Bool) (entry : Entry) :
    Ordered (insertVersion overwrite entry entries) := by
  induction entries with
  | nil => exact pairwise_singleton _ _
  | cons first rest ih =>
    obtain ⟨least, orderedRest⟩ := pairwise_cons.mp ordered
    unfold Takyonic.insertVersion
    split
    · rename_i before
      refine pairwise_cons.mpr ⟨fun other member => ?_, ordered⟩
      rcases mem_cons.mp member with rfl | member
      · exact before
      · exact lt_trans before (least other member)
    · split
      · rename_i after
        refine pairwise_cons.mpr ⟨fun other member => ?_, ih orderedRest⟩
        rcases mem_of_mem_insertVersion member with rfl | member
        · exact after
        · exact least other member
      · rename_i notBefore notAfter
        have same : first.internalKey = entry.internalKey := le_antisymm (le_of_not_gt notBefore)
          (le_of_not_gt notAfter)
        split
        · refine pairwise_cons.mpr ⟨fun other member => ?_, orderedRest⟩
          rw [← same]
          exact least other member
        · exact ordered

theorem mem_insertVersion (ordered : Ordered entries)
    (fresh : ∀ taken ∈ entries, taken.internalKey = entry.internalKey → taken = entry) :
    other ∈ insertVersion overwrite entry entries ↔ other = entry ∨ other ∈ entries := by
  refine ⟨mem_of_mem_insertVersion, fun member => ?_⟩
  have found : entry ∈ insertVersion overwrite entry entries := by
    obtain ⟨taken, inside, same⟩ := exists_mem_insertVersion overwrite entry entries
    rcases mem_of_mem_insertVersion inside with rfl | before
    · exact inside
    · rwa [fresh taken before same] at inside
  rcases member with rfl | member
  · exact found
  · by_cases same : other.internalKey = entry.internalKey
    · rw [fresh other member same]
      exact found
    · exact mem_insertVersion_of_mem ordered member (fun _ => same)

structure Memtable where
  entries : List Entry
  ordered : Ordered entries

namespace Memtable

def empty : Memtable := ⟨[], List.Pairwise.nil⟩

def entryOverhead : Nat := 40

def entrySize (entry : Entry) : Nat :=
  entry.key.bytes.length + (entry.value.elim 0 fun value => value.bytes.length) + entryOverhead

/-- The counter of the source goes up by each entry that is put in and back to zero with a drain. -/
def approxSizeBytes (memtable : Memtable) : Nat := (memtable.entries.map entrySize).sum

def apply (memtable : Memtable) (entry : Entry) : Memtable :=
  ⟨insertVersion false entry memtable.entries, memtable.ordered.insertVersion false entry⟩

def getAt (memtable : Memtable) (key : Key) (readTs : Nat) : Option Entry :=
  firstFrom key readTs memtable.entries

end Memtable

structure BTreeStorage where
  entries : List Entry
  ordered : Ordered entries

namespace BTreeStorage

def empty : BTreeStorage := ⟨[], List.Pairwise.nil⟩

def apply (store : BTreeStorage) (entry : Entry) : BTreeStorage :=
  ⟨insertVersion true entry store.entries, store.ordered.insertVersion true entry⟩

def getAt (store : BTreeStorage) (key : Key) (readTs : Nat) : Option Entry :=
  firstFrom key readTs store.entries

end BTreeStorage

end Takyonic
