import Takyonic.Raft.Command

namespace Takyonic

open Foundation

structure RaftLogEntry where
  term : Nat
  index : Nat
  command : Bytes
  deriving DecidableEq, Repr

namespace RaftLogEntry

def toWalEntry (entry : RaftLogEntry) : Entry :=
  .put ⟨bigEndian 8 entry.index⟩ ⟨littleEndian 8 entry.term ++ entry.command⟩ entry.index

def fromWalEntry (entry : Entry) : Except TakyonicError RaftLogEntry :=
  match entry.value with
  | none => .error (.raft "raft log entry missing value")
  | some value =>
    if value.bytes.length < 8 then .error (.raft "raft log value truncated")
    else .ok ⟨fromLittleEndian (value.bytes.take 8), entry.seq, value.bytes.drop 8⟩

end RaftLogEntry

structure SnapshotMeta where
  lastIncludedIndex : Nat
  lastIncludedTerm : Nat
  deriving DecidableEq, Repr

/-- In-memory Raft log together with what its directory holds: the records of `raft.log` in file
    order and the last `SNAPSHOT.meta`. `compacted` is a history variable, read by no operation:
    the entries `compactThrough` dropped since the last installed snapshot. -/
structure RaftLog where
  entries : List RaftLogEntry
  snapshot : SnapshotMeta
  wal : List Entry
  metaFile : Option SnapshotMeta
  compacted : List RaftLogEntry
  deriving DecidableEq, Repr

namespace RaftLog

/-- `RaftLog::open` on an empty directory. -/
def create : RaftLog := ⟨[], ⟨0, 0⟩, [], none, []⟩

variable (log : RaftLog)

def snapshotMeta : SnapshotMeta := log.snapshot

def lastIndex : Nat :=
  match log.entries.getLast? with
  | some entry => entry.index
  | none => log.snapshot.lastIncludedIndex

def lastTerm : Nat :=
  match log.entries.getLast? with
  | some entry => entry.term
  | none => log.snapshot.lastIncludedTerm

def len : Nat := log.entries.length

def entry (log : RaftLog) (index : Nat) : Option RaftLogEntry :=
  log.entries.find? (fun entry => entry.index = index)

def termAt (index : Nat) : Option Nat :=
  if index = 0 then some 0
  else if index = log.snapshot.lastIncludedIndex ∧ 0 < log.snapshot.lastIncludedIndex then
    some log.snapshot.lastIncludedTerm
  else if index ≤ log.snapshot.lastIncludedIndex then none
  else (log.entry index).map RaftLogEntry.term

def entriesFrom (start : Nat) : List RaftLogEntry :=
  log.entries.filter (fun entry => start ≤ entry.index)

def gap : Nat → List RaftLogEntry → Option (Nat × Nat)
  | _, [] => none
  | expected, entry :: rest =>
    if entry.index = expected then gap (expected + 1) rest else some (expected, entry.index)

def extend (batch : List RaftLogEntry) : RaftLog :=
  { log with
    entries := log.entries ++ batch
    wal := log.wal ++ batch.map RaftLogEntry.toWalEntry }

def appendBatch (batch : List RaftLogEntry) : Except TakyonicError RaftLog :=
  if batch.isEmpty then .ok log
  else match gap (log.lastIndex + 1) batch with
    | some (expected, got) => .error (.raft s!"raft log append gap: expected index {expected}, got {got}")
    | none => .ok (log.extend batch)

def append (entry : RaftLogEntry) : Except TakyonicError RaftLog :=
  log.appendBatch [entry]

def numbered (term : Nat) : Nat → List Bytes → List RaftLogEntry
  | _, [] => []
  | start, command :: rest => ⟨term, start, command⟩ :: numbered term (start + 1) rest

def appendCommands (term : Nat) (commands : List Bytes) : RaftLog × Nat :=
  if commands.isEmpty then (log, log.lastIndex)
  else (log.extend (numbered term (log.lastIndex + 1) commands), log.lastIndex + 1)

def truncateAfter (index : Nat) : RaftLog :=
  { log with entries := log.entries.filter (fun entry => entry.index ≤ index) }

def compactThrough (index term : Nat) : Except TakyonicError RaftLog :=
  if index = 0 then .ok log
  else if index ≤ log.snapshot.lastIncludedIndex then .ok log
  else if (log.entry index).map RaftLogEntry.term ≠ some term then
    let found := match log.entry index with
      | some entry => s!"Some({entry.term})"
      | none => "None"
    .error (.raft s!"compact term mismatch at {index}: expected {term}, got {found}")
  else
    let remaining := log.entries.filter (fun entry => index < entry.index)
    .ok { entries := remaining
          snapshot := ⟨index, term⟩
          wal := remaining.map RaftLogEntry.toWalEntry
          metaFile := some ⟨index, term⟩
          compacted := log.compacted ++ log.entries.filter (fun entry => entry.index ≤ index) }

def installSnapshot (_log : RaftLog) (index term : Nat) : RaftLog :=
  { entries := []
    snapshot := ⟨index, term⟩
    wal := []
    metaFile := some ⟨index, term⟩
    compacted := [] }

def isUpToDate (lastIndex lastTerm : Nat) : Bool :=
  log.lastTerm < lastTerm || (lastTerm = log.lastTerm && log.lastIndex ≤ lastIndex)

end RaftLog

/-- Voting members plus the advertised address of every known node. -/
structure ClusterMembership where
  members : Finset Nat
  endpoints : Finmap (fun _ : Nat => String)
  deriving DecidableEq

open ClusterMembership Finset

variable (membership : ClusterMembership)

namespace ClusterMembership

def fromEndpoints (endpoints : List (Nat × String)) : ClusterMembership :=
  ⟨(endpoints.map Prod.fst).toFinset, endpoints.foldl (fun map endpoint => map.insert endpoint.1 endpoint.2) ∅⟩

section

variable (membership : ClusterMembership)

def len : Nat := membership.members.card

def isEmpty : Bool := membership.len = 0

def contains (id : Nat) : Bool := id ∈ membership.members

def usizeMax : Nat := 2 ^ 64 - 1

def quorum : Nat :=
  if membership.isEmpty then usizeMax else membership.len / 2 + 1

theorem half_lt_quorum : membership.len / 2 < membership.quorum := by
  unfold quorum isEmpty
  split
  next empty =>
    rw [of_decide_eq_true empty]
    decide
  · exact Nat.lt_succ_self _

end

variable {membership smaller larger : ClusterMembership} {first second : Finset Nat}

theorem near_quorums_meet (inside : smaller.members ⊆ larger.members)
    (near : larger.members.card ≤ smaller.members.card + 1)
    (firstMembers : first ⊆ smaller.members) (secondMembers : second ⊆ larger.members)
    (firstQuorum : smaller.quorum ≤ first.card) (secondQuorum : larger.quorum ≤ second.card) :
    ∃ id, id ∈ first ∧ id ∈ second := by
  have firstHalf : smaller.members.card / 2 < smaller.quorum := smaller.half_lt_quorum
  have secondHalf : larger.members.card / 2 < larger.quorum := larger.half_lt_quorum
  have overlap : larger.members.card < first.card + second.card := by omega
  obtain ⟨id, member⟩ :=
    inter_nonempty_of_card_lt_card_add_card (firstMembers.trans inside) secondMembers overlap
  exact ⟨id, mem_inter.mp member⟩

theorem quorums_meet (firstMembers : first ⊆ membership.members) (secondMembers : second ⊆ membership.members)
    (firstQuorum : membership.quorum ≤ first.card) (secondQuorum : membership.quorum ≤ second.card) :
    ∃ id, id ∈ first ∧ id ∈ second :=
  near_quorums_meet subset_rfl (Nat.le_succ _) firstMembers secondMembers firstQuorum secondQuorum

def peersExcept (selfId : Nat) : Finset Nat :=
  membership.members.erase selfId

def address (id : Nat) : Option String :=
  membership.endpoints.lookup id

def addNode (id : Nat) (address : String) : ClusterMembership :=
  ⟨insert id membership.members, membership.endpoints.insert id address⟩

def removeNode (id : Nat) : ClusterMembership :=
  ⟨membership.members.erase id, membership.endpoints⟩

end ClusterMembership

def applyConfigTo : RaftCommand → ClusterMembership
  | .addNode id address => membership.addNode id address
  | .removeNode id => membership.removeNode id
  | _ => membership

/-- Majorities before and after a single change of the configuration share a member. -/
theorem adjacent_quorums_meet {membership : ClusterMembership} (command : RaftCommand) {first second : Finset Nat}
    (firstMembers : first ⊆ membership.members)
    (secondMembers : second ⊆ (applyConfigTo membership command).members)
    (firstQuorum : membership.quorum ≤ first.card)
    (secondQuorum : (applyConfigTo membership command).quorum ≤ second.card) : ∃ id, id ∈ first ∧ id ∈ second := by
  cases command with
  | addNode id address =>
    exact near_quorums_meet (subset_insert _ _) (card_insert_le _ _)
      firstMembers secondMembers firstQuorum secondQuorum
  | removeNode id =>
    obtain ⟨shared, after, before⟩ := near_quorums_meet (erase_subset _ _)
      (Nat.sub_le_iff_le_add.mp pred_card_le_card_erase) secondMembers firstMembers secondQuorum firstQuorum
    exact ⟨shared, before, after⟩
  | _ => exact quorums_meet firstMembers secondMembers firstQuorum secondQuorum

theorem adjacent_quorums_meet_added : ∃ id, id ∈ ({1, 2} : Finset Nat) ∧ id ∈ ({2, 3, 4} : Finset Nat) :=
  @adjacent_quorums_meet ⟨{1, 2, 3}, ∅⟩ (.addNode 4 "d") _ _ (by decide) (by decide) (by decide) (by decide)

end Takyonic
