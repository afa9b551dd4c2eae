import Takyonic.Foundation.Replication
import Takyonic.Raft.Handlers

namespace Takyonic

open Foundation List RaftLog

/-- The entries carry the indices `base`, `base + 1`, and so on. -/
def Consecutive (base : Nat) (entries : List RaftLogEntry) : Prop :=
  ∀ k entry, entries[k]? = some entry → entry.index = base + k

namespace Consecutive

variable {base : Nat} {entries rest more : List RaftLogEntry}

theorem nil (base : Nat) : Consecutive base [] := by
  intro k entry found
  simp at found

theorem cons_iff {entry : RaftLogEntry} :
    Consecutive base (entry :: rest) ↔ entry.index = base ∧ Consecutive (base + 1) rest := by
  constructor
  · intro consecutive
    refine ⟨consecutive 0 entry rfl, ?_⟩
    intro k other found
    have next := consecutive (k + 1) other found
    omega
  · rintro ⟨first, later⟩ k other found
    cases k with
    | zero =>
      cases found
      exact first
    | succ k =>
      have next := later k other found
      omega

variable (consecutive : Consecutive base entries)
include consecutive

theorem drop (n : Nat) : Consecutive (base + n) (entries.drop n) := by
  intro k entry found
  rw [getElem?_drop] at found
  have there := consecutive (n + k) entry found
  omega

theorem take (n : Nat) : Consecutive base (entries.take n) := by
  intro k entry found
  rw [getElem?_take] at found
  split at found
  · exact consecutive k entry found
  · cases found

theorem append (next : Consecutive (base + entries.length) more) :
    Consecutive base (entries ++ more) := by
  intro k entry found
  by_cases old : k < entries.length
  · rw [getElem?_append_left old] at found
    exact consecutive k entry found
  · rw [getElem?_append_right (by omega)] at found
    have there := next _ entry found
    omega

theorem find (index : Nat) :
    entries.find? (fun entry => entry.index = index) =
      if base ≤ index then entries[index - base]? else none := by
  induction entries generalizing base with
  | nil => simp
  | cons entry rest ih =>
    obtain ⟨first, later⟩ := cons_iff.mp consecutive
    rw [find?_cons]
    by_cases here : entry.index = index
    · simp [here, ← first]
    · simp only [here, decide_false, ih later]
      by_cases above : base + 1 ≤ index
      · rw [if_pos above, if_pos (by omega), show index - base = index - (base + 1) + 1 by omega, getElem?_cons_succ]
      · rw [if_neg above, if_neg (by omega)]

theorem filter_from (start : Nat) :
    entries.filter (fun entry => start ≤ entry.index) = entries.drop (start - base) := by
  induction entries generalizing base with
  | nil => simp
  | cons entry rest ih =>
    obtain ⟨first, later⟩ := cons_iff.mp consecutive
    rw [filter_cons, ih later]
    by_cases below : start ≤ base
    · simp [first, below, Nat.sub_eq_zero_of_le below, Nat.sub_eq_zero_of_le (Nat.le_succ_of_le below)]
    · have reached : start - base = start - (base + 1) + 1 := by omega
      simp [first, below, reached]

theorem filter_through (last : Nat) :
    entries.filter (fun entry => entry.index ≤ last) = entries.take (last + 1 - base) := by
  induction entries generalizing base with
  | nil => simp
  | cons entry rest ih =>
    obtain ⟨first, later⟩ := cons_iff.mp consecutive
    rw [filter_cons, ih later]
    by_cases within : base ≤ last
    · have reached : last + 1 - base = last + 1 - (base + 1) + 1 := by omega
      simp [first, within, reached]
    · have past : last + 1 - base = 0 := by omega
      simp [first, within, past, show last + 1 - (base + 1) = 0 by omega]

end Consecutive

variable {batch : List RaftLogEntry} {expected index : Nat}

namespace RaftLog

theorem gap_none_iff : gap expected batch = none ↔ Consecutive expected batch := by
  induction batch generalizing expected with
  | nil => exact ⟨fun _ => .nil expected, fun _ => rfl⟩
  | cons entry rest ih =>
    rw [Consecutive.cons_iff, ← ih]
    by_cases here : entry.index = expected <;> simp [gap, here]

instance (base : Nat) (entries : List RaftLogEntry) : Decidable (Consecutive base entries) :=
  decidable_of_iff (gap base entries = none) gap_none_iff

section

variable (term start : Nat) (commands : List Bytes)
include term start commands

theorem numbered_consecutive : Consecutive start (numbered term start commands) := by
  induction commands generalizing start with
  | nil => exact .nil start
  | cons command rest ih => exact Consecutive.cons_iff.mpr ⟨rfl, ih (start + 1)⟩

theorem numbered_length : (numbered term start commands).length = commands.length := by
  induction commands generalizing start with
  | nil => rfl
  | cons command rest ih => simp [numbered, ih]

theorem numbered_term : ∀ entry ∈ numbered term start commands, entry.term = term := by
  induction commands generalizing start with
  | nil => simp [numbered]
  | cons command rest ih => exact forall_mem_cons.mpr ⟨rfl, ih (start + 1)⟩

theorem numbered_command : ∀ entry ∈ numbered term start commands, entry.command ∈ commands := by
  induction commands generalizing start with
  | nil => simp [numbered]
  | cons command rest ih =>
    intro entry member
    rcases mem_cons.mp member with rfl | member
    · exact mem_cons_self
    · exact mem_cons_of_mem _ (ih (start + 1) entry member)

end

theorem termAt_compacted {log : RaftLog} (positive : 0 < index)
    (below : index < log.snapshot.lastIncludedIndex) : log.termAt index = none := by
  unfold termAt
  rw [if_neg (by omega), if_neg (by omega), if_pos (by omega)]

end RaftLog

def termBefore (full : List RaftLogEntry) (index : Nat) : Nat :=
  if index = 0 then 0 else (full[index - 1]?.map RaftLogEntry.term).getD 0

/-- `full` is the log as if nothing had ever been compacted: `log` holds what follows its snapshot
    boundary and the term there, and what it compacted itself came right before. -/
structure Holds (log : RaftLog) (full : List RaftLogEntry) : Prop where
  entries : log.entries = full.drop log.snapshot.lastIncludedIndex
  inside : log.snapshot.lastIncludedIndex ≤ full.length
  consecutive : Consecutive 1 full
  boundary : log.snapshot.lastIncludedTerm = termBefore full log.snapshot.lastIncludedIndex
  compacted : log.compacted <:+ full.take log.snapshot.lastIncludedIndex

namespace Holds

variable {log : RaftLog} {full : List RaftLogEntry} {index start term : Nat} {log' : RaftLog}

theorem create : Holds .create [] where
  entries := rfl
  inside := le_rfl
  consecutive := .nil 1
  boundary := rfl
  compacted := suffix_rfl

section

variable (holds : Holds log full)
include holds

theorem held : Consecutive (log.snapshot.lastIncludedIndex + 1) log.entries := by
  rw [holds.entries, add_comm]
  exact holds.consecutive.drop _

theorem lastIndex : log.lastIndex = full.length := by
  have inside := holds.inside
  unfold RaftLog.lastIndex
  rw [holds.entries, getLast?_drop]
  split
  · rename_i entry found
    split at found
    · cases found
    · rw [getLast?_eq_getElem?] at found
      have index := holds.consecutive _ entry found
      have nonempty := (List.getElem?_eq_some_iff.mp found).1
      omega
  · rename_i missing
    split at missing
    · omega
    · rename_i short
      rw [getLast?_eq_none_iff] at missing
      simp only [missing, length_nil] at short inside ⊢
      omega

theorem lastTerm : log.lastTerm = termBefore full full.length := by
  have inside := holds.inside
  unfold RaftLog.lastTerm
  rw [holds.entries, getLast?_drop]
  split
  · rename_i entry found
    split at found
    · cases found
    · rw [getLast?_eq_getElem?] at found
      have nonempty := (List.getElem?_eq_some_iff.mp found).1
      simp [termBefore, found, show full.length ≠ 0 by omega]
  · rename_i missing
    rw [holds.boundary]
    split at missing
    · rw [show full.length = log.snapshot.lastIncludedIndex by omega]
    · rw [getLast?_eq_none_iff] at missing
      simp [missing, termBefore]

theorem entry (index : Nat) :
    log.entry index = if log.snapshot.lastIncludedIndex < index then full[index - 1]? else none := by
  unfold RaftLog.entry
  rw [holds.held.find, holds.entries, getElem?_drop]
  by_cases above : log.snapshot.lastIncludedIndex < index
  · rw [if_pos (by omega), if_pos above]
    congr 1
    omega
  · rw [if_neg (by omega), if_neg above]

theorem mem_entries {entry : RaftLogEntry} (member : entry ∈ log.entries) :
    log.snapshot.lastIncludedIndex < entry.index ∧ full[entry.index - 1]? = some entry := by
  obtain ⟨k, found⟩ := getElem?_of_mem member
  have index := holds.held k entry found
  rw [holds.entries, getElem?_drop] at found
  refine ⟨by omega, ?_⟩
  rw [index, show log.snapshot.lastIncludedIndex + 1 + k - 1 = log.snapshot.lastIncludedIndex + k by omega, found]

theorem compacted_entry {entry : RaftLogEntry} (dropped : entry ∈ log.compacted) :
    full[entry.index - 1]? = some entry := by
  have member := mem_of_mem_take (holds.compacted.subset dropped)
  obtain ⟨k, inside, rfl⟩ := getElem_of_mem member
  have index := holds.consecutive k full[k] (getElem?_eq_getElem inside)
  rw [index, Nat.add_sub_cancel_left, getElem?_eq_getElem inside]

theorem termAt (positive : 0 < index) (retained : log.snapshot.lastIncludedIndex ≤ index) :
    log.termAt index = full[index - 1]?.map RaftLogEntry.term := by
  have inside := holds.inside
  unfold RaftLog.termAt
  rw [if_neg (by omega)]
  by_cases boundary : index = log.snapshot.lastIncludedIndex
  · have there : index - 1 < full.length := by omega
    rw [holds.boundary, ← boundary]
    simp [termBefore, getElem?_eq_getElem there, show index ≠ 0 by omega]
  · rw [if_neg (fun both => boundary both.1), if_neg (by omega), holds.entry, if_pos (by omega)]

theorem entriesFrom (retained : log.snapshot.lastIncludedIndex ≤ start - 1) :
    log.entriesFrom start = full.drop (start - 1) := by
  unfold RaftLog.entriesFrom
  rw [holds.held.filter_from, holds.entries, drop_drop]
  congr 1
  omega

theorem extend (next : Consecutive (full.length + 1) batch) :
    Holds (log.extend batch) (full ++ batch) where
  entries := by
    show log.entries ++ batch = (full ++ batch).drop log.snapshot.lastIncludedIndex
    rw [drop_append_of_le_length holds.inside, holds.entries]
  inside := by
    have inside := holds.inside
    simp only [length_append]
    exact le_trans inside (Nat.le_add_right _ _)
  consecutive := holds.consecutive.append (by rwa [add_comm])
  boundary := by
    show log.snapshot.lastIncludedTerm = _
    have inside := holds.inside
    rw [holds.boundary]
    unfold termBefore
    by_cases zero : log.snapshot.lastIncludedIndex = 0
    · simp [RaftLog.extend, zero]
    · simp only [RaftLog.extend, zero]
      rw [getElem?_append_left (by omega)]
  compacted := by
    show log.compacted <:+ (full ++ batch).take log.snapshot.lastIncludedIndex
    rw [take_append_of_le_length holds.inside]
    exact holds.compacted

theorem appendBatch (appended : log.appendBatch batch = .ok log') : Holds log' (full ++ batch) := by
  unfold RaftLog.appendBatch at appended
  split at appended
  · rename_i empty
    cases appended
    rw [isEmpty_iff.mp empty, append_nil]
    exact holds
  · split at appended
    · cases appended
    · rename_i contiguous
      cases appended
      rw [holds.lastIndex] at contiguous
      exact holds.extend (gap_none_iff.mp contiguous)

theorem truncateAfter (retained : log.snapshot.lastIncludedIndex ≤ index) :
    Holds (log.truncateAfter index) (full.take index) where
  entries := by
    show log.entries.filter _ = (full.take index).drop log.snapshot.lastIncludedIndex
    rw [holds.held.filter_through, holds.entries, drop_take]
    congr 1
    omega
  inside := by
    show log.snapshot.lastIncludedIndex ≤ _
    have inside := holds.inside
    simp only [length_take]
    omega
  consecutive := holds.consecutive.take index
  boundary := by
    show log.snapshot.lastIncludedTerm = _
    rw [holds.boundary]
    unfold termBefore
    by_cases zero : log.snapshot.lastIncludedIndex = 0
    · simp [RaftLog.truncateAfter, zero]
    · simp only [RaftLog.truncateAfter, zero, if_false]
      rw [getElem?_take, if_pos (by omega)]
  compacted := by
    show log.compacted <:+ (full.take index).take log.snapshot.lastIncludedIndex
    rw [take_take, min_eq_left retained]
    exact holds.compacted

theorem compactThrough (compacted : log.compactThrough index term = .ok log') : Holds log' full := by
  unfold RaftLog.compactThrough at compacted
  split at compacted
  · cases compacted
    exact holds
  split at compacted
  · cases compacted
    exact holds
  split at compacted
  · cases compacted
  rename_i positive above found
  cases compacted
  have found := not_not.mp found
  rw [holds.entry, if_pos (by omega)] at found
  obtain ⟨entry, there, rfl⟩ := Option.map_eq_some_iff.mp found
  have inside := (List.getElem?_eq_some_iff.mp there).1
  refine
    { entries := ?_, inside := by dsimp only; omega, consecutive := holds.consecutive
      boundary := ?_, compacted := ?_ }
  · show log.entries.filter (fun entry => index + 1 ≤ entry.index) = full.drop index
    rw [holds.held.filter_from, holds.entries, drop_drop]
    congr 1
    omega
  · simp [termBefore, positive, there]
  · show log.compacted ++ log.entries.filter (fun entry => entry.index ≤ index) <:+ full.take index
    obtain ⟨installed, before⟩ := holds.compacted
    refine ⟨installed, ?_⟩
    rw [holds.held.filter_through, holds.entries, ← append_assoc, before, ← take_add]
    congr 1
    omega

theorem compacts (compacts : Compacts log log') : Holds log' full :=
  compacts.preserve (P := fun log => Holds log full) holds
    (fun _ _ _ _ holds compacted => holds.compactThrough compacted)

end

theorem installSnapshot (log : RaftLog) (consecutive : Consecutive 1 full)
    (length : full.length = index) (boundary : term = termBefore full index) :
    Holds (log.installSnapshot index term) full where
  entries := by
    show [] = full.drop index
    rw [← length, drop_length]
  inside := le_of_eq length.symm
  consecutive := consecutive
  boundary := boundary
  compacted := nil_suffix

end Holds

structure Represents (log : RaftLog) (full : List RaftLogEntry) : Prop extends Holds log full where
  positive : ∀ entry ∈ full, 1 ≤ entry.term

namespace Represents

variable {log log' : RaftLog} {full : List RaftLogEntry} {index term : Nat}

theorem create : Represents .create [] := ⟨.create, by simp⟩

theorem extend (represents : Represents log full) (next : Consecutive (full.length + 1) batch)
    (positive : ∀ entry ∈ batch, 1 ≤ entry.term) : Represents (log.extend batch) (full ++ batch) := by
  refine ⟨represents.toHolds.extend next, fun entry member => ?_⟩
  rcases mem_append.mp member with old | new
  · exact represents.positive entry old
  · exact positive entry new

theorem compacts (represents : Represents log full) (compacts : Compacts log log') : Represents log' full :=
  ⟨represents.toHolds.compacts compacts, represents.positive⟩

theorem installSnapshot (log : RaftLog) (consecutive : Consecutive 1 full)
    (positive : ∀ entry ∈ full, 1 ≤ entry.term) (length : full.length = index)
    (boundary : term = termBefore full index) : Represents (log.installSnapshot index term) full :=
  ⟨.installSnapshot log consecutive length boundary, positive⟩

end Represents

open Consecutive

namespace RaftConsensus

/-- How the loop over a batch ends on a node whose log stands for `full`: every entry was there, or
    `rest` is still to be appended, at the end of the log or after a truncation at `j`. -/
inductive Scan (node : RaftConsensus) (full : List RaftLogEntry) (k : Nat)
    (batch : List RaftLogEntry) : StoreResult → Prop
  | same (written : overwrite RaftLogEntry.term full k batch = full)
      (kept : cut RaftLogEntry.term full k batch = full) :
      Scan node full k batch (.scanned node [] false)
  | extended (rest : List RaftLogEntry) (nonempty : rest ≠ []) (suffix : rest <:+ batch)
      (written : overwrite RaftLogEntry.term full k batch = full ++ rest)
      (kept : cut RaftLogEntry.term full k batch = full)
      (next : Consecutive (full.length + 1) rest) :
      Scan node full k batch (.scanned node rest false)
  | replaced (j : Nat) (rest : List RaftLogEntry) (nonempty : rest ≠ []) (suffix : rest <:+ batch)
      (above : k ≤ j) (below : j < full.length)
      (written : overwrite RaftLogEntry.term full k batch = full.take j ++ rest)
      (kept : cut RaftLogEntry.term full k batch = full.take j)
      (next : Consecutive (j + 1) rest)
      (conflict : ∃ old new, full[j]? = some old ∧ rest.head? = some new ∧ old.term ≠ new.term) :
      Scan node full k batch (.scanned { node with log := node.log.truncateAfter j } rest true)

variable {node : RaftConsensus} (io : Io) {full : List RaftLogEntry} {snapIdx term prev prevTerm leaderCommit : Nat}

theorem storeEntries_beyond (node : RaftConsensus) (holds : Holds node.log full) (retained : snapIdx ≤ full.length)
    (compacted : node.log.snapshot.lastIncludedIndex ≤ full.length)
    (entries toAppend : List RaftLogEntry) (truncated : Bool)
    (next : Consecutive (full.length + 1 + toAppend.length) entries) :
    storeEntries io snapIdx entries node toAppend truncated = .scanned node (toAppend ++ entries) truncated := by
  induction entries generalizing toAppend with
  | nil => simp [storeEntries]
  | cons entry rest ih =>
    obtain ⟨here, later⟩ := cons_iff.mp next
    have missing : node.log.termAt entry.index = none := by
      rw [holds.termAt (by omega) (by omega), List.getElem?_eq_none (by omega)]
      rfl
    unfold storeEntries
    rw [if_neg (by omega), missing]
    dsimp only
    rw [holds.lastIndex, if_pos (by omega), ih _ (by simpa [add_assoc] using later)]
    simp

theorem storeEntries_scan_retained (holds : Holds node.log full)
    (entries : List RaftLogEntry) (k : Nat) (inside : k ≤ full.length)
    (snapshot : node.log.snapshot.lastIncludedIndex = snapIdx) (retained : snapIdx ≤ k)
    (consecutive : Consecutive (k + 1) entries) :
    Scan node full k entries (storeEntries io snapIdx entries node [] false) := by
  induction entries generalizing k with
  | nil => exact .same rfl rfl
  | cons entry rest ih =>
    obtain ⟨here, later⟩ := cons_iff.mp consecutive
    have found : node.log.termAt entry.index = full[k]?.map RaftLogEntry.term := by
      rw [holds.termAt (by omega) (by omega), here, Nat.add_sub_cancel]
    unfold storeEntries
    rw [if_neg (by omega), found]
    cases there : full[k]? with
    | none =>
      have ended : full.length = k := by
        have := List.getElem?_eq_none_iff.mp there
        omega
      dsimp only [Option.map_none]
      rw [holds.lastIndex, if_pos (by simp; omega), nil_append,
        storeEntries_beyond io node holds (by omega) (by omega) rest [entry] false
          (by simpa [ended, add_assoc] using later)]
      refine .extended (entry :: rest) (by simp) suffix_rfl ?_ ?_ (ended ▸ consecutive)
      · simp [overwrite, there]
      · simp [cut, there]
    | some old =>
      dsimp only [Option.map_some]
      have within := (List.getElem?_eq_some_iff.mp there).1
      by_cases equal : old.term = entry.term
      · rw [if_neg (by simpa using equal)]
        have result := ih (k + 1) (by omega) (by omega) later
        generalize storeEntries io snapIdx rest node [] false = outcome at result ⊢
        have written : overwrite RaftLogEntry.term full k (entry :: rest) =
            overwrite RaftLogEntry.term full (k + 1) rest := by simp [overwrite, there, equal]
        have kept : cut RaftLogEntry.term full k (entry :: rest) =
            cut RaftLogEntry.term full (k + 1) rest := by simp [cut, there, equal]
        cases result with
        | same same keptRest => exact .same (written.trans same) (kept.trans keptRest)
        | extended tail nonempty suffix extended keptRest next =>
          exact .extended tail nonempty (suffix.trans (suffix_cons entry rest))
            (written.trans extended) (kept.trans keptRest) next
        | replaced j tail nonempty suffix above below replaced keptRest next conflict =>
          exact .replaced j tail nonempty (suffix.trans (suffix_cons entry rest)) (by omega) below
            (written.trans replaced) (kept.trans keptRest) next conflict
      · have truncation : Holds (node.log.truncateAfter k) (full.take k) := holds.truncateAfter (by omega)
        have length : (full.take k).length = k := by
          simp only [length_take]
          omega
        rw [if_pos equal]
        rw [show entry.index - 1 = k by omega,
          storeEntries_beyond io { node with log := node.log.truncateAfter k } truncation
            (by omega) (by show node.log.snapshot.lastIncludedIndex ≤ _; omega) rest [entry] true
            (by simpa [length, add_assoc] using later)]
        refine .replaced k (entry :: rest) (by simp) suffix_rfl (by omega) within ?_ ?_ consecutive
          ⟨old, entry, there, rfl, equal⟩
        · simp [overwrite, there, equal]
        · simp [cut, there, equal]

theorem storeEntries_skip (entries : List RaftLogEntry) (p : Nat) (consecutive : Consecutive (p + 1) entries) :
    storeEntries io snapIdx entries node [] false =
      storeEntries io snapIdx (entries.drop (snapIdx - p)) node [] false := by
  induction entries generalizing p with
  | nil => simp
  | cons entry rest ih =>
    obtain ⟨here, later⟩ := cons_iff.mp consecutive
    by_cases skipped : entry.index ≤ snapIdx
    · rw [show snapIdx - p = snapIdx - (p + 1) + 1 by omega, drop_succ_cons, ← ih (p + 1) later,
        storeEntries, if_pos skipped]
    · rw [show snapIdx - p = 0 by omega, drop_zero]

theorem storeEntries_scan (holds : Holds node.log full) (entries : List RaftLogEntry)
    (p : Nat) (inside : p ≤ full.length) (consecutive : Consecutive (p + 1) entries) :
    Scan node full (max p node.log.snapshot.lastIncludedIndex) (entries.drop (node.log.snapshot.lastIncludedIndex - p))
      (storeEntries io node.log.snapshot.lastIncludedIndex entries node [] false) := by
  have retained := holds.inside
  rw [storeEntries_skip io entries p consecutive]
  refine storeEntries_scan_retained io holds _ _ (by omega) rfl (by omega) ?_
  have later := consecutive.drop (node.log.snapshot.lastIncludedIndex - p)
  rwa [show p + 1 + (node.log.snapshot.lastIncludedIndex - p) =
    max p node.log.snapshot.lastIncludedIndex + 1 by omega] at later

variable {batch : List RaftLogEntry} {result : StoreResult}

theorem Scan.finished {k : Nat} (holds : Holds node.log full) (scan : Scan node full k batch result)
    (retained : node.log.snapshot.lastIncludedIndex ≤ k) :
    finishStore io result = (node, true) ∧ overwrite RaftLogEntry.term full k batch = full ∨
      ∃ rolled base rest, Holds rolled.log base ∧ Consecutive (base.length + 1) rest ∧
        overwrite RaftLogEntry.term full k batch = base ++ rest ∧ cut RaftLogEntry.term full k batch = base ∧
        finishStore io result = match rolled.storeBatch io rest with
          | none => (rolled, false)
          | some next => (next, true) := by
  cases scan with
  | same written kept => exact .inl ⟨rfl, written⟩
  | extended rest nonempty suffix written kept next =>
    refine .inr ⟨node, full, rest, holds, next, written, kept, ?_⟩
    simp [finishStore, nonempty]
    rfl
  | replaced j rest nonempty suffix above below written kept next conflict =>
    have truncation : Holds (node.log.truncateAfter j) (full.take j) := holds.truncateAfter (by omega)
    refine .inr ⟨rebuildMembershipFromLog _ io, full.take j, rest,
      truncation.compacts (rebuildMembershipFromLog_upkeep { node with log := _ } io).housekeeping.log, ?_, written,
      kept, ?_⟩
    · rwa [length_take, min_eq_left (by omega)]
    · simp [finishStore, nonempty]
      rfl

theorem finishStore_holds {k : Nat} (holds : Holds node.log full) (scan : Scan node full k batch result)
    (retained : node.log.snapshot.lastIncludedIndex ≤ k) :
    Holds (finishStore io result).1.log
      (if (finishStore io result).2 then overwrite RaftLogEntry.term full k batch
        else cut RaftLogEntry.term full k batch) := by
  rcases scan.finished io holds retained with
    ⟨finished, written⟩ | ⟨rolled, base, rest, here, _, written, kept, finished⟩
  · simpa [finished, written] using holds
  rw [finished]
  cases stored : rolled.storeBatch io rest with
  | none => simpa [kept] using here
  | some next =>
    obtain ⟨log, longer, _, rfl⟩ := storeBatch_some rolled io stored
    rw [written]
    exact (here.appendBatch longer).compacts
      (applyAppendedConfigChanges_upkeep { rolled with log := log } io rest).housekeeping.log

theorem acceptLeader_commit (term leaderId : Nat) :
    (node.acceptLeader term leaderId).state.commitIndex = node.state.commitIndex := by
  unfold acceptLeader
  split <;> rfl

theorem acceptLeader_term (leaderId : Nat) (fresh : node.state.currentTerm ≤ term) :
    (node.acceptLeader term leaderId).state.currentTerm = term := by
  unfold acceptLeader
  split
  · rfl
  · rename_i same
    show node.state.currentTerm = term
    omega

def prevMatches (log : RaftLog) (prev prevTerm : Nat) : Prop :=
  ¬ (0 < prev ∧ log.termAt prev ≠ some prevTerm)

theorem prevMatches_inside (holds : Holds node.log full) (has : prevMatches node.log prev prevTerm) :
    prev ≤ full.length := by
  by_contra beyond
  apply has
  have retained := holds.inside
  rw [holds.termAt (by omega) (by omega), List.getElem?_eq_none (by omega)]
  exact ⟨by omega, nofun⟩

def followerCommit (commit leaderCommit last : Nat) : Nat :=
  if commit < leaderCommit then min leaderCommit last else commit

theorem followerCommit_raised {commit last : Nat} (raised : commit < followerCommit commit leaderCommit last) :
    followerCommit commit leaderCommit last = min leaderCommit last := by
  unfold followerCommit at raised ⊢
  split at raised
  · rw [if_pos (by assumption)]
  · exact absurd raised (lt_irrefl _)

/-- A fresh request is refused, stops at an entry it cannot store, or is stored. -/
def AppendOutcome (node : RaftConsensus) (term prev prevTerm leaderCommit : Nat) (entries : List RaftLogEntry)
    (result : RaftConsensus × Nat × Bool × Nat) (full full' : List RaftLogEntry) : Prop :=
  let k := max prev node.log.snapshot.lastIncludedIndex
  let batch := entries.drop (node.log.snapshot.lastIncludedIndex - prev)
  ¬ prevMatches node.log prev prevTerm ∧ full' = full ∧ result.2 = (term, false, full.length) ∧
      result.1.state.commitIndex = node.state.commitIndex ∨
    prevMatches node.log prev prevTerm ∧ prev ≤ full.length ∧
      full' = cut RaftLogEntry.term full k batch ∧ result.2 = (term, false, full'.length) ∧
      result.1.state.commitIndex = node.state.commitIndex ∨
    prevMatches node.log prev prevTerm ∧ prev ≤ full.length ∧
      full' = overwrite RaftLogEntry.term full k batch ∧ result.2 = (term, true, full'.length) ∧
      result.1.state.commitIndex = followerCommit node.state.commitIndex leaderCommit full'.length

variable {entries : List RaftLogEntry} {leaderId : Nat}

theorem handleAppendEntries_holds (holds : Holds node.log full) (fresh : node.state.currentTerm ≤ term)
    (consecutive : Consecutive (prev + 1) entries) :
    let result := node.handleAppendEntries io term leaderId prev prevTerm entries leaderCommit
    ∃ full', Holds result.1.log full' ∧
      AppendOutcome node term prev prevTerm leaderCommit entries result full full' := by
  have current := acceptLeader_term leaderId fresh
  unfold handleAppendEntries
  rw [if_neg (by omega)]
  dsimp only
  rw [acceptLeader_log]
  split
  · rename_i mismatch
    refine ⟨full, by rwa [acceptLeader_log], .inl ⟨not_not.mpr mismatch, rfl, ?_, acceptLeader_commit _ _⟩⟩
    rw [current, holds.lastIndex]
  rename_i matches'
  have inside : prev ≤ full.length := prevMatches_inside holds matches'
  have accepted : Holds (node.acceptLeader term leaderId).log full := by rwa [acceptLeader_log]
  have scan := storeEntries_scan io accepted entries prev inside consecutive
  have routine := (storeEntries_stores (node.acceptLeader term leaderId) io
    (node.acceptLeader term leaderId).log.snapshot.lastIncludedIndex entries [] false).routine.trans
    (finishStore_stores io _).routine
  have stored := finishStore_holds io accepted scan (by omega)
  rw [acceptLeader_log] at scan routine stored
  have commit := routine.commit.trans (acceptLeader_commit term leaderId)
  have stays := routine.term.trans current
  split
  · rename_i next finished
    rw [RaftLog.snapshotMeta] at finished
    rw [finished] at stored commit stays
    refine ⟨_, stored, .inr (.inl ⟨matches', inside, rfl, ?_, commit⟩)⟩
    rw [current, stored.lastIndex]
  · rename_i next finished
    rw [RaftLog.snapshotMeta] at finished
    rw [finished] at stored commit stays
    rw [if_pos rfl] at stored
    have applied := applyCommittedTo_housekeeping
      (if next.state.commitIndex < leaderCommit then
        { next with state := { next.state with commitIndex := min leaderCommit next.log.lastIndex } }
      else next) io le_rfl
    refine ⟨_, ?_, .inr (.inr ⟨matches', inside, rfl, ?_, ?_⟩)⟩
    · refine Holds.compacts ?_ applied.log
      split <;> exact stored
    · rw [applied.term, stored.lastIndex]
      split <;> rw [← stays]
    · rw [applied.commit, ← stored.lastIndex, ← commit]
      unfold followerCommit
      split <;> rfl

theorem handleAppendEntries_spec (represents : Represents node.log full) (fresh : node.state.currentTerm ≤ term)
    (consecutive : Consecutive (prev + 1) entries) (positive : ∀ entry ∈ entries, 1 ≤ entry.term) :
    let result := node.handleAppendEntries io term leaderId prev prevTerm entries leaderCommit
    ∃ full', Represents result.1.log full' ∧
      AppendOutcome node term prev prevTerm leaderCommit entries result full full' := by
  obtain ⟨full', holds, outcome⟩ := handleAppendEntries_holds io represents.toHolds fresh consecutive
  refine ⟨full', ⟨holds, fun entry member => ?_⟩, outcome⟩
  rcases outcome with ⟨_, rfl, _⟩ | ⟨_, _, rfl, _⟩ | ⟨_, _, rfl, _⟩
  · exact represents.positive entry member
  · exact represents.positive entry (mem_cut member)
  · rcases mem_overwrite member with old | new
    · exact represents.positive entry old
    · exact positive entry (mem_of_mem_drop new)

end RaftConsensus

end Takyonic
