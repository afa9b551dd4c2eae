import Takyonic.Foundation.Trace
import Takyonic.Raft.StoreEntries
import Takyonic.Storage.Wal

namespace Takyonic

open Foundation List RaftLog SnapshotMeta

namespace SnapshotMeta

def encode (boundary : SnapshotMeta) : Bytes :=
  littleEndian 8 boundary.lastIncludedIndex ++ littleEndian 8 boundary.lastIncludedTerm

def decode (bytes : Bytes) : Except TakyonicError SnapshotMeta :=
  if bytes.length < 16 then .error (.raft "SNAPSHOT.meta truncated")
  else .ok ⟨fromLittleEndian (bytes.take 8), fromLittleEndian ((bytes.drop 8).take 8)⟩

/-- `file` is `SNAPSHOT.meta`, if it exists. -/
def readFromDir : Option Bytes → Except TakyonicError (Option SnapshotMeta)
  | none => .ok none
  | some bytes => (decode bytes).map some

theorem decode_encode {boundary : SnapshotMeta} (index : boundary.lastIncludedIndex < 2 ^ 64)
    (term : boundary.lastIncludedTerm < 2 ^ 64) : decode boundary.encode = .ok boundary := by
  have indexRead := fromLittleEndian_of_lt (show boundary.lastIncludedIndex < 256 ^ 8 from index)
  have termRead := fromLittleEndian_of_lt (show boundary.lastIncludedTerm < 256 ^ 8 from term)
  unfold decode encode
  rw [if_neg (by simp), littleEndian_take, littleEndian_drop, take_of_length_le (by simp), indexRead, termRead]

end SnapshotMeta

/-- The directory of a Raft log: `raft.log` and `SNAPSHOT.meta`. -/
structure LogDir where
  raftLog : Option Bytes
  snapshotFile : Option Bytes

namespace RaftLog

def files (xxh3 : Bytes → UInt64) (log : RaftLog) : LogDir :=
  ⟨some (Wal.segment xxh3 log.wal), log.metaFile.map encode⟩

def recover (stored : Option SnapshotMeta) (records : List Entry) : RaftLog :=
  let snap := stored.getD ⟨0, 0⟩
  let recovered := (records.filterMap (fun entry => (RaftLogEntry.fromWalEntry entry).toOption)).filter
    (fun entry => snap.lastIncludedIndex < entry.index)
  { entries := (recovered.insertionSort (fun first second => first.index ≤ second.index)).filter
      (fun entry => snap.lastIncludedIndex < entry.index)
    snapshot := snap
    wal := records
    metaFile := stored
    compacted := [] }

def readRecords (xxh3 : Bytes → UInt64) (path : String) : Option Bytes → Except TakyonicError (List Entry)
  | none => .ok []
  | some file =>
    match WalReader.openSegment path file with
    | .error error => .error error
    | .ok reader => (reader.replay xxh3).2.2.map (fun _ => (reader.replay xxh3).2.1)

/-- `RaftLog::open`. -/
def openDir (xxh3 : Bytes → UInt64) (path : String) (dir : LogDir) : Except TakyonicError RaftLog := do
  let stored ← readFromDir dir.snapshotFile
  let records ← readRecords xxh3 path dir.raftLog
  pure (recover stored records)

def reopen (log : RaftLog) : RaftLog := recover log.metaFile log.wal

def Same (first second : RaftLog) : Prop :=
  first.snapshotMeta = second.snapshotMeta ∧ first.lastIndex = second.lastIndex ∧
    first.lastTerm = second.lastTerm ∧ ∀ index, first.termAt index = second.termAt index ∧
      first.entry index = second.entry index ∧ first.entriesFrom index = second.entriesFrom index

theorem same_iff {first second : RaftLog} :
    Same first second ↔ first.snapshot = second.snapshot ∧ first.entries = second.entries := by
  constructor
  · rintro ⟨snapshot, _, _, accessors⟩
    have all := (accessors 0).2.2
    simp only [entriesFrom, Nat.zero_le, decide_true, filter_true] at all
    exact ⟨snapshot, all⟩
  · rintro ⟨snapshot, entries⟩
    simp [Same, snapshotMeta, lastIndex, lastTerm, termAt, entry, entriesFrom, snapshot, entries]

end RaftLog

def RaftLogEntry.Fits (entry : RaftLogEntry) : Prop :=
  entry.term < 2 ^ 64 ∧ entry.index < 2 ^ 64 ∧
    (Wal.encodeBody entry.toWalEntry).length ≤ Wal.maxBody

instance (entry : RaftLogEntry) : Decidable entry.Fits := inferInstanceAs (Decidable (_ ∧ _ ∧ _))

variable {entry : RaftLogEntry}

theorem RaftLogEntry.Fits.storable (fits : entry.Fits) : Wal.Storable entry.toWalEntry :=
  ⟨fits.2.1, by simp [RaftLogEntry.toWalEntry, Entry.put], fits.2.2⟩

theorem RaftLogEntry.Fits.fromWalEntry (fits : entry.Fits) :
    RaftLogEntry.fromWalEntry entry.toWalEntry = .ok entry := by
  have termRead := fromLittleEndian_of_lt (show entry.term < 256 ^ 8 from fits.1)
  simp only [RaftLogEntry.fromWalEntry, RaftLogEntry.toWalEntry, Entry.put]
  rw [if_neg (by simp), littleEndian_take, littleEndian_drop, termRead]

inductive LogOp where
  | append (entry : RaftLogEntry)
  | appendBatch (batch : List RaftLogEntry)
  | appendCommands (term : Nat) (commands : List Bytes)
  | truncateAfter (index : Nat)
  | compactThrough (index term : Nat)
  | installSnapshot (index term : Nat)

open LogOp

namespace LogOp

def apply (log : RaftLog) : LogOp → Except TakyonicError RaftLog
  | append entry => log.append entry
  | appendBatch batch => log.appendBatch batch
  | appendCommands term commands => .ok (log.appendCommands term commands).1
  | truncateAfter index => .ok (log.truncateAfter index)
  | compactThrough index term => log.compactThrough index term
  | installSnapshot index term => .ok (log.installSnapshot index term)

def step (log : RaftLog) (op : LogOp) : RaftLog :=
  match op.apply log with
  | .ok after => after
  | .error _ => log

def Succeeds (log : RaftLog) (op : LogOp) : Prop :=
  (op.apply log).isOk = true ∧ match op with
    | append entry => entry.Fits
    | appendBatch batch => ∀ entry ∈ batch, entry.Fits
    | appendCommands term commands => ∀ entry ∈ numbered term (log.lastIndex + 1) commands, entry.Fits
    | truncateAfter _ => True
    | compactThrough _ _ => True
    | installSnapshot index term => index < 2 ^ 64 ∧ term < 2 ^ 64

instance (log : RaftLog) (op : LogOp) : Decidable (op.Succeeds log) := by
  rcases op with ⟨⟩ <;> unfold Succeeds <;> infer_instance

theorem Succeeds.applied {log : RaftLog} {op : LogOp} (ok : op.Succeeds log) :
    op.apply log = .ok (op.step log) := by
  have result := ok.1
  unfold step
  cases outcome : op.apply log with
  | ok after => rfl
  | error error =>
    rw [outcome] at result
    cases result

def discards (log : RaftLog) : LogOp → Bool
  | truncateAfter index => log.entries.any (fun entry => index < entry.index)
  | _ => false

def rewrites (log : RaftLog) : LogOp → Bool
  | compactThrough index _ => log.snapshot.lastIncludedIndex < index
  | installSnapshot _ _ => true
  | _ => false

def leftover (log : RaftLog) (dropped : Bool) : List LogOp → Bool
  | [] => dropped
  | op :: rest => leftover (op.step log) (!op.rewrites log && (dropped || op.discards log)) rest

end LogOp

structure Shadow (log : RaftLog) (records : List RaftLogEntry) : Prop where
  consecutive : Consecutive (log.snapshot.lastIncludedIndex + 1) log.entries
  held : log.entries.Sublist records
  wal : log.wal = records.map RaftLogEntry.toWalEntry
  fits : ∀ entry ∈ records, entry.Fits
  above : ∀ entry ∈ records, log.snapshot.lastIncludedIndex < entry.index
  boundary : log.metaFile.getD ⟨0, 0⟩ = log.snapshot
  index : log.snapshot.lastIncludedIndex < 2 ^ 64
  term : log.snapshot.lastIncludedTerm < 2 ^ 64

namespace Shadow

variable {log : RaftLog} {records batch : List RaftLogEntry} {index term : Nat}
  {after : RaftLog}

theorem create : Shadow .create [] where
  consecutive := .nil _
  held := .refl _
  wal := rfl
  fits := by simp
  above := by simp
  boundary := rfl
  index := by decide
  term := by decide

section

variable (shadow : Shadow log records)
include shadow

theorem lastIndex : log.lastIndex = log.snapshot.lastIncludedIndex + log.entries.length := by
  unfold RaftLog.lastIndex
  split
  · rename_i entry last
    rw [getLast?_eq_getElem?] at last
    have there := shadow.consecutive _ entry last
    have inside := (List.getElem?_eq_some_iff.mp last).1
    omega
  · rename_i last
    rw [getLast?_eq_none_iff.mp last]
    simp

theorem extend (next : Consecutive (log.lastIndex + 1) batch) (fits : ∀ entry ∈ batch, entry.Fits) :
    Shadow (log.extend batch) (records ++ batch) := by
  rw [shadow.lastIndex] at next
  refine { shadow with consecutive := ?_, held := ?_, wal := ?_, fits := ?_, above := ?_ }
  · refine shadow.consecutive.append ?_
    rwa [Nat.add_right_comm]
  · exact shadow.held.append (.refl _)
  · show log.wal ++ _ = _
    rw [shadow.wal, map_append]
  · exact forall_mem_append.mpr ⟨shadow.fits, fits⟩
  · intro entry member
    show log.snapshot.lastIncludedIndex < entry.index
    rcases mem_append.mp member with old | new
    · exact shadow.above entry old
    · obtain ⟨k, found⟩ := getElem?_of_mem new
      have there := next k entry found
      omega

theorem truncateAfter (index : Nat) : Shadow (log.truncateAfter index) records := by
  refine { shadow with consecutive := ?_, held := ?_ }
  · show Consecutive _ (log.entries.filter _)
    rw [shadow.consecutive.filter_through]
    exact shadow.consecutive.take _
  · exact filter_sublist.trans shadow.held

theorem compactThrough (compacted : log.compactThrough index term = .ok after) :
    if log.snapshot.lastIncludedIndex < index then Shadow after after.entries else after = log := by
  unfold RaftLog.compactThrough at compacted
  split at compacted
  · cases compacted
    rw [if_neg (by omega)]
  split at compacted
  · cases compacted
    rw [if_neg (by omega)]
  split at compacted
  · cases compacted
  rename_i effective matched
  cases compacted
  rw [if_pos (by omega)]
  obtain ⟨found, there, sameTerm⟩ := Option.map_eq_some_iff.mp (not_not.mp matched)
  have held : ∀ entry ∈ log.entries, entry.Fits := fun entry member => shadow.fits entry (shadow.held.subset member)
  have foundFits := held found (mem_of_find?_eq_some there)
  have foundIndex : found.index = index := by simpa using find?_some there
  refine
    { consecutive := ?_, held := .refl _, wal := rfl, boundary := rfl
      fits := fun entry member => held entry (mem_of_mem_filter member), above := ?_
      index := by rw [← foundIndex]; exact foundFits.2.1, term := by rw [← sameTerm]; exact foundFits.1 }
  · have kept := shadow.consecutive.filter_from (index + 1)
    simp only [Nat.succ_le_iff] at kept
    rw [kept]
    have shifted := shadow.consecutive.drop (index + 1 - (log.snapshot.lastIncludedIndex + 1))
    rwa [show log.snapshot.lastIncludedIndex + 1 + (index + 1 - (log.snapshot.lastIncludedIndex + 1)) =
      index + 1 by omega] at shifted
  · intro entry member
    simpa using (mem_filter.mp member).2

end

theorem installSnapshot (log : RaftLog) (indexFits : index < 2 ^ 64) (termFits : term < 2 ^ 64) :
    Shadow (log.installSnapshot index term) [] where
  consecutive := .nil _
  held := .refl _
  wal := rfl
  fits := by simp
  above := by simp
  boundary := rfl
  index := indexFits
  term := termFits

variable (shadow : Shadow log records)
include shadow

theorem appendBatch (appended : log.appendBatch batch = .ok after) (fits : ∀ entry ∈ batch, entry.Fits) :
    ∃ records', Shadow after records' ∧
      (records'.length = after.entries.length ↔ records.length = log.entries.length) := by
  unfold RaftLog.appendBatch at appended
  split at appended
  · cases appended
    exact ⟨records, shadow, Iff.rfl⟩
  split at appended
  · cases appended
  · rename_i next
    cases appended
    refine ⟨_, shadow.extend (RaftLog.gap_none_iff.mp next) fits, ?_⟩
    simp [RaftLog.extend]

theorem step {op : LogOp} (ok : op.Succeeds log) :
    ∃ records', Shadow (op.step log) records' ∧
      (records'.length = (op.step log).entries.length ↔
        op.rewrites log = true ∨ records.length = log.entries.length ∧ op.discards log = false) := by
  have applied := ok.applied
  have fits := ok.2
  generalize op.step log = after at applied ⊢
  cases op with
  | append entry =>
    have applied : log.appendBatch [entry] = .ok after := applied
    obtain ⟨records', kept, lengths⟩ := shadow.appendBatch applied (by simpa using fits)
    exact ⟨records', kept, by simpa [rewrites, discards] using lengths⟩
  | appendBatch batch =>
    obtain ⟨records', kept, lengths⟩ := shadow.appendBatch applied fits
    exact ⟨records', kept, by simpa [rewrites, discards] using lengths⟩
  | appendCommands term commands =>
    cases applied
    unfold RaftLog.appendCommands
    split
    · exact ⟨records, shadow, by simp [rewrites, discards]⟩
    · refine ⟨_, shadow.extend (RaftLog.numbered_consecutive _ _ _) fits, ?_⟩
      simp [RaftLog.extend, rewrites, discards]
  | truncateAfter index =>
    cases applied
    refine ⟨records, shadow.truncateAfter index, ?_⟩
    have shorter := length_filter_le (fun entry : RaftLogEntry => decide (entry.index ≤ index)) log.entries
    have inside := shadow.held.length_le
    have kept : (log.entries.filter (fun entry => entry.index ≤ index)).length = log.entries.length ↔
        discards log (.truncateAfter index) = false := by
      simp [discards]
    rw [← kept]
    simp only [rewrites, Bool.false_eq_true, false_or, RaftLog.truncateAfter]
    omega
  | compactThrough index term =>
    have compacted := shadow.compactThrough applied
    split at compacted
    · rename_i effective
      exact ⟨_, compacted, by simp [rewrites, effective]⟩
    · rename_i idle
      subst compacted
      exact ⟨records, shadow, by simp [rewrites, discards, idle]⟩
  | installSnapshot index term =>
    cases applied
    exact ⟨[], .installSnapshot log fits.1 fits.2, by simp [rewrites, RaftLog.installSnapshot]⟩

theorem run {ops : List LogOp} {dropped : Bool} (known : records.length = log.entries.length ↔ dropped = false)
    (succeeded : Along LogOp.step LogOp.Succeeds log ops) :
    ∃ records', Shadow (Foundation.run LogOp.step log ops) records' ∧
      (records'.length = (Foundation.run LogOp.step log ops).entries.length ↔
        leftover log dropped ops = false) := by
  induction ops generalizing log records dropped with
  | nil => exact ⟨records, shadow, known⟩
  | cons op rest ih =>
    obtain ⟨records', kept, lengths⟩ := shadow.step succeeded.1
    refine ih kept ?_ succeeded.2
    rw [lengths, known]
    cases op.rewrites log <;> cases dropped <;> cases op.discards log <;> simp

theorem openDir_files (xxh3 : Bytes → UInt64) (path : String) :
    openDir xxh3 path (log.files xxh3) = .ok log.reopen := by
  have storable : ∀ entry ∈ log.wal, Wal.Storable entry := by
    intro entry member
    rw [shadow.wal] at member
    obtain ⟨stored, there, rfl⟩ := mem_map.mp member
    exact (shadow.fits stored there).storable
  obtain ⟨reader, opened, replayed⟩ := WalReader.replay_segment xxh3 path storable
  have records : readRecords xxh3 path (some (Wal.segment xxh3 log.wal)) = .ok log.wal := by
    simp only [readRecords, opened, replayed]
    rfl
  have stored : readFromDir (log.metaFile.map encode) = .ok log.metaFile := by
    have boundary := shadow.boundary
    cases present : log.metaFile with
    | none => rfl
    | some found =>
      rw [present, Option.getD_some] at boundary
      have decoded := decode_encode (boundary ▸ shadow.index) (boundary ▸ shadow.term)
      simp only [Option.map_some, readFromDir, decoded]
      rfl
  unfold openDir files
  rw [stored, records]
  rfl

theorem reopen_entries :
    log.reopen.snapshot = log.snapshot ∧ log.reopen.entries =
      records.insertionSort (fun first second => first.index ≤ second.index) := by
  have decoded : log.wal.filterMap (fun entry => (RaftLogEntry.fromWalEntry entry).toOption) = records := by
    rw [shadow.wal, filterMap_map]
    have each : ∀ entry ∈ records,
        ((fun entry => (RaftLogEntry.fromWalEntry entry).toOption) ∘ RaftLogEntry.toWalEntry) entry = some entry := by
      intro entry member
      simp [(shadow.fits entry member).fromWalEntry, Except.toOption]
    rw [filterMap_congr each, filterMap_some]
  unfold reopen recover
  refine ⟨shadow.boundary, ?_⟩
  dsimp only
  rw [shadow.boundary, decoded, filter_eq_self.mpr, filter_eq_self.mpr]
  · intro entry member
    simpa using shadow.above entry member
  · intro entry member
    rw [filter_eq_self.mpr (by simpa using shadow.above), mem_insertionSort] at member
    simpa using shadow.above entry member

theorem reopen_same_iff : log.reopen.Same log ↔ records.length = log.entries.length := by
  obtain ⟨snapshot, entries⟩ := shadow.reopen_entries
  rw [same_iff, entries]
  constructor
  · rintro ⟨_, same⟩
    rw [← same, length_insertionSort]
  · intro lengths
    obtain rfl : log.entries = records := shadow.held.eq_of_length lengths.symm
    refine ⟨snapshot, Pairwise.insertionSort_eq ?_⟩
    rw [pairwise_iff_getElem]
    intro first second inFirst inSecond earlier
    have left := shadow.consecutive first _ (getElem?_eq_getElem inFirst)
    have right := shadow.consecutive second _ (getElem?_eq_getElem inSecond)
    omega

end Shadow

/-- Raft log durability: a log opened again on its files answers as before exactly if, after every
    `truncate_after` that dropped an entry, a compaction or a snapshot has written `raft.log` anew. -/
theorem raft_log_durable_iff (xxh3 : Bytes → UInt64) (path : String) (ops : List LogOp)
    (succeeded : Along LogOp.step LogOp.Succeeds .create ops) :
    let log := run LogOp.step .create ops
    (∃ reopened, openDir xxh3 path (log.files xxh3) = .ok reopened ∧ reopened.Same log) ↔
      LogOp.leftover .create false ops = false := by
  have nothing : ([] : List RaftLogEntry).length = create.entries.length ↔ false = false := by
    simp [create]
  obtain ⟨records, shadow, lengths⟩ := Shadow.create.run nothing succeeded
  dsimp only
  rw [← lengths, ← shadow.reopen_same_iff, shadow.openDir_files xxh3 path]
  simp

theorem raft_log_durable_compacted :
    let ops : List LogOp := [.appendCommands 1 [[7], [8]], .truncateAfter 1, .compactThrough 1 1]
    let log := run step .create ops
    log.lastIndex = 1 ∧ ∃ reopened,
      openDir (fun _ => 0) "raft.log" (log.files (fun _ => 0)) = .ok reopened ∧ reopened.Same log :=
  ⟨by decide +kernel, (raft_log_durable_iff (fun _ => 0) "raft.log"
    [.appendCommands 1 [[7], [8]], .truncateAfter 1, .compactThrough 1 1] (by decide +kernel)).mpr
    (by decide +kernel)⟩

/-- The truncated entry is back after a restart. -/
theorem truncated_entry_returns :
    let ops : List LogOp := [.append ⟨1, 1, []⟩, .truncateAfter 0]
    let log := run step .create ops
    Along step Succeeds .create ops ∧
      ¬ ∃ reopened, openDir (fun _ => 0) "raft.log" (log.files (fun _ => 0)) = .ok reopened ∧
        reopened.Same log := by
  refine ⟨by decide +kernel, ?_⟩
  rintro ⟨reopened, opened, same⟩
  have recovered : openDir (fun _ => 0) "raft.log"
      ((run step .create [.append ⟨1, 1, []⟩, .truncateAfter 0]).files (fun _ => 0)) =
        .ok ⟨[⟨1, 1, []⟩], ⟨0, 0⟩, [RaftLogEntry.toWalEntry ⟨1, 1, []⟩], none, []⟩ := by rfl
  cases opened
  exact absurd same.2.1 (by decide +kernel)

end Takyonic
