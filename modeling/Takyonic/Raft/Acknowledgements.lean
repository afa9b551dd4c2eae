import Takyonic.Raft.Chronology
import Takyonic.Raft.CommandCodec
import Takyonic.Raft.MembershipLog

/-! What a client that was told `Ok` may rely on. -/

namespace Takyonic

open Foundation List RaftLog

/-- The bytes of a proposal that decode to a command, as every proposal's do. -/
def Readable (encoded : Bytes) : Prop := ∃ command, RaftCommand.decode encoded = .ok command

namespace RaftConsensus

variable {node node' middle : RaftConsensus} {io : Io} {term n prev prevTerm commit index indexTerm : Nat}
  {full entries : List RaftLogEntry} {given : Option Io} {leaderId last : Nat}

def clients (node : RaftConsensus) : List Waiter × List PendingPropose × List (Nat × Except TakyonicError Nat) :=
  (node.state.waiters, node.state.pending, node.sent)

theorem writeMembership_clients : (node.writeMembership io).clients = node.clients := by
  unfold writeMembership
  split <;> rfl

theorem Stores.clients (stores : Stores io node node') : node'.clients = node.clients := by
  induction stores with
  | refl => rfl
  | tail _ step ih =>
    rw [← ih]
    cases step with
    | upkeep move =>
      cases move with
      | compact compacted => rfl
      | write progress => exact writeMembership_clients
    | relog log same => rfl

theorem noteCommitted_clients (batch : List CommittedEntry) :
    (node.noteCommitted io batch).clients = node.clients := by
  have frozen : (node.freezeBase io batch).clients = node.clients := by
    unfold freezeBase
    split
    · exact writeMembership_clients
    · rfl
  unfold noteCommitted
  dsimp only
  split <;> exact frozen

theorem applyCommittedTo_clients (commit : Nat) :
    (node.applyCommittedTo io commit).1.clients = node.clients := by
  unfold applyCommittedTo
  dsimp only
  repeat' split
  all_goals first
    | rfl
    | exact (maybeCompact_upkeep _ io).stores.clients.trans (noteCommitted_clients _)

def acknowledged (node : RaftConsensus) : List (Nat × Nat) :=
  node.sent.filterMap fun (tx, result) => match result with
    | .ok index => some (tx, index)
    | .error _ => none

section

variable (same : node'.clients = node.clients)
include same

theorem acknowledged_clients : node'.acknowledged = node.acknowledged :=
  congrArg (filterMap _) (congrArg (·.2.2) same)

theorem waiters_clients : node'.state.waiters = node.state.waiters :=
  congrArg Prod.fst same

theorem pending_clients : node'.state.pending = node.state.pending :=
  congrArg (·.2.1) same

end

theorem handleAppendEntries_clients (fresh : node.state.currentTerm ≤ term) (leaderId prev prevTerm : Nat)
    (entries : List RaftLogEntry) (commit : Nat) :
    (node.handleAppendEntries io term leaderId prev prevTerm entries commit).1.clients =
      (node.acceptLeader term leaderId).clients := by
  obtain ⟨stored, stores, same | ⟨n, _, same⟩⟩ :=
    node.handleAppendEntries_cases io fresh leaderId prev prevTerm entries commit
  all_goals rw [same]
  · exact stores.clients
  · exact (applyCommittedTo_clients n).trans stores.clients

theorem handleInstallSnapshot_clients (fresh : node.state.currentTerm ≤ term) (leaderId index indexTerm : Nat)
    (data : Bytes) (done : Bool) :
    (node.handleInstallSnapshot io term leaderId index indexTerm data done).1.clients =
      (node.becomeFollower term (some leaderId)).clients := by
  unfold handleInstallSnapshot
  rw [if_neg (not_lt.mpr fresh)]
  dsimp only
  repeat' split
  all_goals first
    | rfl
    | exact writeMembership_clients

def ReadableLog (log : RaftLog) (full : List RaftLogEntry) : Prop :=
  Holds log full ∧ ∀ entry ∈ full, Readable entry.command

theorem committedBatch_readable {log : RaftLog} (readable : ReadableLog log full)
    (retained : log.snapshot.lastIncludedIndex ≤ n) (count : Nat) :
    ∃ batch, committedBatch log (n + 1) count = .ok batch ∧
      batch.map CommittedEntry.index = range' (n + 1) (min count (full.length - n)) := by
  induction count generalizing n with
  | zero => exact ⟨[], rfl, by simp⟩
  | succ count ih =>
    have found := readable.1.entry (n + 1)
    rw [if_pos (by omega), Nat.add_sub_cancel] at found
    unfold committedBatch
    cases there : full[n]? with
    | none =>
      rw [found, there]
      have beyond : full.length ≤ n := getElem?_eq_none_iff.mp there
      exact ⟨[], rfl, by simp [Nat.sub_eq_zero_of_le beyond]⟩
    | some entry =>
      obtain ⟨below, _⟩ := List.getElem?_eq_some_iff.mp there
      obtain ⟨command, decoded⟩ := readable.2 entry (mem_of_getElem? there)
      obtain ⟨rest, read, indices⟩ := ih (by omega : log.snapshot.lastIncludedIndex ≤ n + 1)
      have length : min (count + 1) (full.length - n) = min count (full.length - (n + 1)) + 1 := by omega
      rw [found, there]
      refine ⟨⟨n + 1, command⟩ :: rest, ?_, ?_⟩
      · simp only [decoded, read]
        rfl
      · rw [map_cons, indices, length, range'_succ]

structure Applied (io : Io) (before after : RaftConsensus) (index : Nat) : Prop where
  reached : index ≤ after.engine.lastApplied
  done : ∃ log batch count, Compacts log after.log ∧
    committedBatch log (before.engine.lastApplied + 1) count = .ok batch ∧
    before.engine.applyCommitted io batch = (after.engine, .ok ()) ∧ index ∈ batch.map CommittedEntry.index

def Ready (io : Io) (node : RaftConsensus) : Prop :=
  io.metaInstall = true ∧ io.flush = true ∧ node.log.snapshot.lastIncludedIndex ≤ node.engine.lastApplied

instance : Decidable (node.Ready io) := inferInstanceAs (Decidable (_ ∧ _ ∧ _))

theorem applyCommittedTo_applies (readable : ReadableLog node.log full) (ready : node.Ready io) (commit : Nat) :
    let after := (node.applyCommittedTo io commit).1
    after.engine.lastApplied ≤ max node.engine.lastApplied commit ∧
      ∀ index, node.engine.lastApplied < index → index ≤ commit → index ≤ full.length →
        index ≤ after.engine.lastApplied ∧ ∃ batch count,
          committedBatch node.log (node.engine.lastApplied + 1) count = .ok batch ∧
          node.engine.applyCommitted io batch = (after.engine, .ok ()) ∧
          index ∈ batch.map CommittedEntry.index := by
  obtain ⟨installs, flushes, retained⟩ := ready
  unfold applyCommittedTo
  split
  · exact ⟨le_max_left _ _, fun index above inside => absurd above (by omega)⟩
  rename_i behind
  rw [snapshotMeta, max_eq_left (by omega), if_neg (by omega)]
  obtain ⟨batch, read, indices⟩ :=
    committedBatch_readable readable retained (commit + 1 - (node.engine.lastApplied + 1))
  have length := congrArg length indices
  rw [length_map, length_range'] at length
  rw [read]
  dsimp only
  cases batch with
  | nil =>
    refine ⟨le_max_left _ _, fun index above inside reach => ?_⟩
    rw [length_nil] at length
    omega
  | cons first rest =>
    have applied : node.engine.applyCommitted io (first :: rest) =
        (⟨node.engine.lastApplied + (first :: rest).length⟩, .ok ()) := by
      rcases applyCommitted_flushed flushes (length ▸ indices) with failed | done
      · unfold Engine.applyCommitted at failed
        rw [installs, applyLog_consecutive le_rfl (length ▸ indices)] at failed
        simp [flushes] at failed
      · exact done
    rw [applied]
    have engine : ((noteCommitted { node with engine := ⟨node.engine.lastApplied + (first :: rest).length⟩ } io
        (first :: rest)).maybeCompact io).1.engine = ⟨node.engine.lastApplied + (first :: rest).length⟩ :=
      (maybeCompact_upkeep _ io).frame.engine.trans (noteCommitted_freezes _ io _).2.2.2.1
    dsimp only [isEmpty_cons]
    rw [if_neg Bool.false_ne_true, engine]
    refine ⟨by dsimp only; omega, fun index above inside reach => ⟨by dsimp only; omega, _, _, read, applied, ?_⟩⟩
    rw [indices, mem_range'_1]
    omega

/-- What is known of a node: its log and its queue can be read, and while it is no follower the clients that wait
    are those of entries that have not been applied. -/
structure Waits (node : RaftConsensus) : Prop where
  log : ∃ full, ReadableLog node.log full
  pending : ∀ proposal ∈ node.state.pending, Readable proposal.encoded
  waiting : node.state.role ≠ .follower → ∀ waiter ∈ node.state.waiters,
    node.engine.lastApplied < waiter.index ∧ waiter.index ≤ node.log.lastIndex

def Honest (io : Option Io) (node after : RaftConsensus) : Prop :=
  ∃ answered, after.acknowledged = node.acknowledged ++ answered ∧
    ∀ reply ∈ answered, ∃ used ∈ io, Applied used node after reply.2

structure Answers (io : Option Io) (node after : RaftConsensus) : Prop where
  waits : Waits after
  honest : Honest io node after

theorem Answers.nobody (waits : Waits node') (same : node'.acknowledged = node.acknowledged) :
    Answers given node node' :=
  ⟨waits, [], same.trans (append_nil _).symm, nofun⟩

theorem Answers.before (answers : Answers given middle node')
    (engine : middle.engine = node.engine) (same : middle.acknowledged = node.acknowledged) :
    Answers given node node' := by
  obtain ⟨waits, answered, grown, applied⟩ := answers
  refine ⟨waits, answered, same ▸ grown, fun reply member => ?_⟩
  obtain ⟨io, used, reached, done⟩ := applied reply member
  exact ⟨io, used, reached, engine ▸ done⟩

theorem notifyWaiters_answers (readable : ReadableLog node.log full)
    (queued : ∀ proposal ∈ node.state.pending, Readable proposal.encoded) (waiting : ∀ waiter ∈ node.state.waiters,
      node.engine.lastApplied < waiter.index ∧ waiter.index ≤ node.log.lastIndex)
    (ready : node.state.waiters ≠ [] → node.Ready io) :
    Answers (some io) node (node.applyCommittedTo io node.state.commitIndex).1.notifyWaiters := by
  have housekeeping := applyCommittedTo_housekeeping node io (Nat.le_refl node.state.commitIndex)
  have clients : (node.applyCommittedTo io node.state.commitIndex).1.clients = node.clients :=
    applyCommittedTo_clients _
  have applies := fun waiter (member : waiter ∈ node.state.waiters) =>
    applyCommittedTo_applies readable (ready (ne_nil_of_mem member)) node.state.commitIndex
  have commit := housekeeping.commit
  have log := housekeeping.log
  have holds := readable.1.compacts log
  have last := holds.lastIndex
  rw [readable.1.lastIndex] at waiting
  generalize (node.applyCommittedTo io node.state.commitIndex).1 = middle at clients applies commit log holds last
  have waiters : middle.state.waiters = node.state.waiters := waiters_clients clients
  have sent : middle.sent = node.sent := congrArg (·.2.2) clients
  refine ⟨⟨⟨full, holds, readable.2⟩, ?_, fun _ waiter member => ?_⟩,
    (middle.state.waiters.filter fun waiter => waiter.index ≤ middle.state.commitIndex).map
      fun waiter => (waiter.tx, waiter.index), ?_, fun reply member => ?_⟩
  · exact pending_clients clients ▸ queued
  · obtain ⟨member, uncommitted⟩ := mem_filter.mp member
    rw [waiters] at member
    have uncommitted : ¬ waiter.index ≤ middle.state.commitIndex := by simpa using uncommitted
    have bounds := waiting waiter member
    have bounded := (applies waiter member).1
    show middle.engine.lastApplied < waiter.index ∧ waiter.index ≤ middle.log.lastIndex
    omega
  · show filterMap _ (middle.sent ++ _) = filterMap _ node.sent ++ _
    rw [filterMap_append, sent, filterMap_map]
    congr 1
    exact congrFun filterMap_eq_map _
  · obtain ⟨waiter, ready, rfl⟩ := mem_map.mp member
    obtain ⟨member, ready⟩ := mem_filter.mp ready
    have ready : waiter.index ≤ middle.state.commitIndex := by simpa using ready
    rw [waiters] at member
    have bounds := waiting waiter member
    obtain ⟨reached, batch, count, read, done, inside⟩ :=
      (applies waiter member).2 waiter.index bounds.1 (commit ▸ ready) bounds.2
    exact ⟨io, rfl, reached, node.log, batch, count, log, read, done, inside⟩

structure Quiet (node node' : RaftConsensus) : Prop where
  log : Compacts node.log node'.log
  clients : node'.clients = node.clients ∧ (node'.state.role ≠ .follower → node.state.role ≠ .follower) ∧
      node'.engine = node.engine ∨ node'.clients = node.dropProposals.clients

theorem Quiet.refl (node : RaftConsensus) : Quiet node node := ⟨.refl, .inl ⟨rfl, fun active => active, rfl⟩⟩

theorem dropProposals_acknowledged : node.dropProposals.acknowledged = node.acknowledged := by
  simp [dropProposals, acknowledged]

theorem Quiet.acknowledged (quiet : Quiet node node') : node'.acknowledged = node.acknowledged := by
  rcases quiet.clients with ⟨same, _⟩ | dropped
  · exact acknowledged_clients same
  · exact (acknowledged_clients dropped).trans dropProposals_acknowledged

theorem Waits.quiet (waits : Waits node) (quiet : Quiet node node') : Waits node' := by
  obtain ⟨full, holds, readable⟩ := waits.log
  have kept := holds.compacts quiet.log
  have last : node'.log.lastIndex = node.log.lastIndex := kept.lastIndex.trans holds.lastIndex.symm
  rcases quiet.clients with ⟨same, active, engine⟩ | dropped
  · refine ⟨⟨full, kept, readable⟩, pending_clients same ▸ waits.pending, ?_⟩
    rw [waiters_clients same, engine, last]
    exact fun now => waits.waiting (active now)
  · refine ⟨⟨full, kept, readable⟩, ?_, fun _ => ?_⟩
    · rw [pending_clients dropped]
      nofun
    · rw [waiters_clients dropped]
      nofun

theorem noop_readable : Readable Cluster.noopCommand := ⟨.noop, rfl⟩

def Delivers : Call → Prop
  | .appendEntries _ request => Consecutive (request.prevLogIndex + 1) request.entries ∧
      ∀ entry ∈ request.entries, Readable entry.command
  | .installSnapshot _ request => 0 < request.lastIncludedIndex
  | _ => True

theorem Waits.handleAppendEntries (waits : Waits node) (io : Io) (consecutive : Consecutive (prev + 1) entries)
    (readable : ∀ entry ∈ entries, Readable entry.command) :
    Answers (some io) node (node.handleAppendEntries io term leaderId prev prevTerm entries commit).1 := by
  by_cases stale : term < node.state.currentTerm
  · rw [RaftConsensus.handleAppendEntries_stale _ _ stale]
    exact .nobody waits rfl
  have fresh : node.state.currentTerm ≤ term := le_of_not_gt stale
  have accepted : Quiet node (node.acceptLeader term leaderId) := by
    unfold acceptLeader
    split
    · exact ⟨.refl, .inr rfl⟩
    · exact ⟨.refl, .inl ⟨rfl, fun active => active, rfl⟩⟩
  have clients := @handleAppendEntries_clients node io term fresh leaderId prev prevTerm entries commit
  obtain ⟨full, holds, old⟩ := waits.log
  obtain ⟨full', holds', outcome⟩ := handleAppendEntries_holds io holds fresh consecutive
  have follows := (handleAppendEntries_steady node io term leaderId prev prevTerm entries commit fresh).follows
    (acceptLeader_follows _)
  refine .nobody ⟨⟨full', holds', fun entry member => ?_⟩, ?_, fun active => absurd follows active⟩
    ((acknowledged_clients clients).trans accepted.acknowledged)
  · rcases outcome with ⟨_, rfl, _⟩ | ⟨_, _, rfl, _⟩ | ⟨_, _, rfl, _⟩
    · exact old entry member
    · exact old entry (mem_cut member)
    · rcases mem_overwrite member with there | new
      · exact old entry there
      · exact readable entry (mem_of_mem_drop new)
  · exact pending_clients clients ▸ (waits.quiet accepted).pending

theorem Waits.handleInstallSnapshot (waits : Waits node) (io : Io) (below : 0 < index) (data : Bytes) (done : Bool) :
    Answers (some io) node (node.handleInstallSnapshot io term leaderId index indexTerm data done).1 := by
  by_cases stale : term < node.state.currentTerm
  · rw [RaftConsensus.handleInstallSnapshot_stale _ _ stale]
    exact .nobody waits rfl
  have fresh : node.state.currentTerm ≤ term := le_of_not_gt stale
  have clients := @handleInstallSnapshot_clients node io term fresh leaderId index indexTerm data done
  have follows := (handleInstallSnapshot_steady node io term leaderId index indexTerm data done fresh).follows rfl
  refine .nobody ⟨?_, ?_, fun active => absurd follows active⟩
    ((acknowledged_clients clients).trans dropProposals_acknowledged)
  · rcases (handleInstallSnapshot_log node io term leaderId index indexTerm data done fresh).1 with
      same | ⟨_, installed⟩
    · rw [same]
      exact waits.log
    · rw [installed]
      refine ⟨numbered indexTerm 1 (replicate index Cluster.noopCommand),
        Dated.installSnapshot_holds node.log below length_replicate, fun entry member => ?_⟩
      rw [eq_of_mem_replicate (numbered_command _ _ _ entry member)]
      exact noop_readable
  · rw [pending_clients clients]
    nofun

theorem Waits.onAppendSuccess (waits : Waits node) (ready : node.state.waiters ≠ [] → node.Ready io)
    (peer matchIndex : Nat) : Answers (some io) node (node.onAppendSuccess io peer matchIndex) := by
  unfold RaftConsensus.onAppendSuccess
  by_cases leads : node.state.role = .leader
  · obtain ⟨full, readable⟩ := waits.log
    obtain ⟨progress, commit, counted⟩ :=
      advanceCommitIndex_frame node.log node.id (recordMatch node.state peer matchIndex)
    have answers := @notifyWaiters_answers { node with
        state := { recordMatch node.state peer matchIndex with matchIndex := progress, commitIndex := commit } }
      io full readable waits.pending (waits.waiting (by rw [leads]; decide)) ready
    rw [← counted] at answers
    rw [if_neg (not_not.mpr leads)]
    exact answers.before rfl rfl
  · rw [if_pos leads]
    exact .nobody waits rfl

theorem mem_zipIdx_waiters {pending : List PendingPropose} {waiter : Waiter}
    (member : waiter ∈ (pending.zipIdx (last + 1)).map fun proposal => ⟨proposal.2, proposal.1.tx⟩) :
    last < waiter.index ∧ waiter.index ≤ last + pending.length := by
  obtain ⟨⟨proposal, index⟩, there, rfl⟩ := mem_map.mp member
  have bounds := mem_zipIdx there
  dsimp only
  omega

theorem commitProposes_answers (readable : ReadableLog node.log full)
    (queued : ∀ proposal ∈ node.state.pending, Readable proposal.encoded) (pending : List PendingPropose)
    (ends : last + pending.length = node.log.lastIndex) (applied : node.engine.lastApplied ≤ last)
    (waiting : ∀ waiter ∈ node.state.waiters, node.engine.lastApplied < waiter.index ∧ waiter.index ≤ last)
    (ready : node.Ready io) : Answers (some io) node (node.commitProposes io pending (last + 1)) := by
  have waiting : ∀ waiter ∈ (node.awaitProposes pending (last + 1)).waiters,
      node.engine.lastApplied < waiter.index ∧ waiter.index ≤ node.log.lastIndex := by
    intro waiter member
    rcases mem_append.mp member with old | new
    · have bounds := waiting waiter old
      omega
    · have bounds := mem_zipIdx_waiters new
      omega
  obtain ⟨progress, commit, counted⟩ :=
    advanceCommitIndex_frame node.log node.id (node.awaitProposes pending (last + 1))
  have answers := @notifyWaiters_answers { node with
      state := { node.awaitProposes pending (last + 1) with matchIndex := progress, commitIndex := commit } }
    io full readable queued waiting (fun _ => ready)
  have waits : Waits { node with
      state := { node.awaitProposes pending (last + 1) with matchIndex := progress, commitIndex := commit } } :=
    ⟨⟨full, readable⟩, queued, fun _ => waiting⟩
  rw [← counted] at answers waits
  unfold commitProposes
  dsimp only
  split
  · exact answers.before rfl rfl
  · exact .nobody waits rfl

theorem Waits.flushPendingProposes (waits : Waits node) (ready : node.state.pending ≠ [] →
      node.Ready io ∧ node.engine.lastApplied ≤ node.log.lastIndex) :
    Answers (some io) node (node.flushPendingProposes io).1 := by
  unfold RaftConsensus.flushPendingProposes
  split
  · exact .nobody waits rfl
  rename_i active
  rw [not_or, not_not] at active
  have active : node.state.role ≠ .follower := by
    rw [active.1]
    decide
  split
  · exact .nobody waits rfl
  rename_i queued
  rw [List.isEmpty_iff] at queued
  obtain ⟨full, holds, readable⟩ := waits.log
  obtain ⟨⟨installs, flushes, retained⟩, reached⟩ := ready queued
  dsimp only
  split
  · refine .nobody ⟨⟨full, holds, readable⟩, nofun, waits.waiting⟩ ?_
    simp [acknowledged]
  rw [appendCommands, if_neg (by simpa using queued)]
  have last := holds.lastIndex
  have extended : Holds (node.log.extend node.proposedEntries) (full ++ node.proposedEntries) := by
    apply holds.extend
    rw [← last]
    exact numbered_consecutive _ _ _
  have readable : ∀ entry ∈ full ++ node.proposedEntries, Readable entry.command := by
    refine forall_mem_append.mpr ⟨readable, fun entry new => ?_⟩
    obtain ⟨proposal, there, same⟩ := mem_map.mp (numbered_command _ _ _ entry new)
    rw [← same]
    exact waits.pending proposal there
  have length : node.proposedEntries.length = node.state.pending.length := by
    rw [proposedEntries, numbered_length, length_map]
  unfold publishProposes
  generalize List.filterMap _ _ = entries
  have upkeep := applyAppendedConfigChanges_upkeep { node with
    state := { node.state with pending := [] }, log := node.log.extend node.proposedEntries } io entries
  change Answers (some io) node (commitProposes (applyAppendedConfigChanges { node with
    state := { node.state with pending := [] }, log := node.log.extend node.proposedEntries } io entries) _ _ _)
  generalize applyAppendedConfigChanges _ io entries = next at *
  have clients := upkeep.stores.clients
  have kept := extended.compacts upkeep.housekeeping.log
  have boundary := upkeep.frame.boundary
  have engine : next.engine = node.engine := upkeep.frame.engine
  refine (commitProposes_answers ⟨kept, readable⟩ ?_ _ ?_ ?_ ?_ ⟨installs, flushes, ?_⟩).before engine
    (congrArg (List.filterMap _) (congrArg (·.2.2) clients))
  · rw [pending_clients clients]
    simp
  · rw [kept.lastIndex, last, length_append, length]
  · rw [engine]
    exact reached
  · rw [waiters_clients clients, engine]
    exact waits.waiting active
  · rw [engine]
    exact boundary.trans (Nat.max_le.mpr ⟨retained, Nat.le_refl _⟩)

theorem Waits.becomeLeader (waits : Waits node) (term : Nat) : Waits (node.becomeLeader term) := by
  unfold RaftConsensus.becomeLeader
  split
  · exact waits
  rename_i eligible
  rw [not_or, not_not, not_not] at eligible
  refine ⟨waits.log, fun proposal member => ?_, fun _ => waits.waiting (by rw [eligible.2]; decide)⟩
  rcases mem_append.mp member with old | new
  · exact waits.pending proposal old
  · rw [mem_singleton.mp new]
    exact noop_readable

theorem Waits.propose (waits : Waits node) (command : RaftCommand) (tx : Nat) : Waits (node.propose command tx).1 := by
  unfold RaftConsensus.propose
  repeat' split
  all_goals try exact waits
  rename_i encoded built _ _
  refine ⟨waits.log, fun proposal member => ?_, waits.waiting⟩
  rcases mem_append.mp member with old | new
  · exact waits.pending proposal old
  · rw [mem_singleton.mp new]
    exact RaftCommand.decode_of_encode built

theorem buildInstallSnapshot_quiet : Quiet node (node.buildInstallSnapshot io).1 := by
  have upkeep := buildInstallSnapshot_upkeep node io
  refine ⟨upkeep.housekeeping.log, .inl ⟨upkeep.stores.clients, fun active => ?_, upkeep.frame.engine⟩⟩
  exact Role.was upkeep.housekeeping.role rfl active ▸ active

def callIo : Call → Option Io
  | .appendEntries io _ | .installSnapshot io _ | .onAppendSuccess io _ _ | .flushPendingProposes io
  | .buildInstallSnapshot io => some io
  | _ => none

/-- While clients wait, nothing keeps the leader from applying what gets committed. -/
def Applies (node : RaftConsensus) : Call → Prop
  | .onAppendSuccess io _ _ => node.state.waiters ≠ [] → node.Ready io
  | .flushPendingProposes io =>
    node.state.pending ≠ [] → node.Ready io ∧ node.engine.lastApplied ≤ node.log.lastIndex
  | _ => True

instance (node : RaftConsensus) (call : Call) : Decidable (node.Applies call) := by
  rcases call with ⟨⟩ <;> unfold Applies <;> infer_instance

theorem Waits.call (waits : Waits node) {call : Call} (delivers : Delivers call) (applies : node.Applies call) :
    Answers (callIo call) node (node.call call) := by
  have quiet : ∀ {after : RaftConsensus}, Quiet node after → Answers (callIo call) node after :=
    fun quiet => .nobody (waits.quiet quiet) quiet.acknowledged
  cases call with
  | appendEntries io request => exact waits.handleAppendEntries io delivers.1 delivers.2
  | installSnapshot io request => exact waits.handleInstallSnapshot io delivers _ _
  | becomeLeader term =>
    refine .nobody (waits.becomeLeader term) ?_
    simp only [RaftConsensus.call, RaftConsensus.becomeLeader]
    split <;> rfl
  | onAppendSuccess io peer matchIndex => exact waits.onAppendSuccess applies peer matchIndex
  | onSnapshotSuccess peer index =>
    apply quiet
    simp only [RaftConsensus.call, onSnapshotSuccess]
    split
    · exact .refl node
    · obtain ⟨_, _, counted⟩ := advanceCommitIndex_frame node.log node.id (recordMatch node.state peer index)
      unfold recordMatch at counted
      rw [counted]
      exact ⟨.refl, .inl ⟨rfl, fun active => active, rfl⟩⟩
  | propose command tx =>
    refine .nobody (waits.propose command tx) ?_
    simp only [RaftConsensus.call, RaftConsensus.propose]
    repeat' split
    all_goals rfl
  | flushPendingProposes io => exact waits.flushPendingProposes applies
  | buildInstallSnapshot io => exact quiet buildInstallSnapshot_quiet
  | _ =>
    apply quiet
    simp only [RaftConsensus.call, startElection, handleRequestVote, maybeStepDown, onAppendFailure, onPeerUnreachable,
      ensurePeerCursors]
    repeat' split
    all_goals first
      | exact .refl node
      | exact ⟨.refl, .inr rfl⟩
      | exact ⟨.refl, .inl ⟨rfl, fun active => active, rfl⟩⟩

end RaftConsensus

namespace Cluster

open RaftConsensus

variable {cluster : Cluster} {label : Label} {peer : Nat} {request : AppendEntriesRequest}

def callOf : Label → Option Call
  | .runElection _ => some .startElection
  | .requestVote _ request => some (.requestVote request)
  | .appendEntries io _ request => some (.appendEntries io request)
  | .installSnapshot io _ request => some (.installSnapshot io request)
  | .maybeStepDown reply => (replyTerm reply).map fun waiting => .maybeStepDown waiting.2
  | .becomeLeader _ term => some (.becomeLeader term)
  | .appendReply io peer _ term success matchIndex =>
    some (if success then .onAppendSuccess io peer matchIndex else .onAppendFailure peer term matchIndex)
  | .snapshotReply peer _ _ lastIncludedIndex => some (.onSnapshotSuccess peer lastIncludedIndex)
  | .onPeerUnreachable _ peer => some (.onPeerUnreachable peer)
  | .ensurePeerCursors _ peer => some (.ensurePeerCursors peer)
  | .propose _ command tx => some (.propose command tx)
  | .flushPendingProposes io _ => some (.flushPendingProposes io)
  | .sendSnapshot io _ _ _ => some (.buildInstallSnapshot io)
  | .recordVoteGranted _ _ _ | .sendAppendEntries _ _ => none

def Delivered (net : List Message) (i : Nat) : Call → Prop
  | .appendEntries _ request => .appendEntries i request ∈ net
  | .installSnapshot _ request => .installSnapshot i request ∈ net
  | _ => True

theorem step_call (cluster : Cluster) (label : Label) (i : Nat) :
    (cluster.step label).nodes i = cluster.nodes i ∨ i = actor label ∧ ∃ call, callOf label = some call ∧
      Delivered cluster.net i call ∧ (cluster.step label).nodes i = (cluster.nodes i).call call := by
  by_cases here : i = actor label
  · subst here
    have stepped := cluster.step_stepped label
    generalize cluster.step label = after at stepped ⊢
    cases stepped with
    | idle => exact .inl rfl
    | recordVoteGranted _ => exact .inl ((congrFun (tally_nodes _ _ _ _) _).trans (act_nodes_self _ _ _ _))
    | sendAppendEntries _ _ => exact .inl (act_nodes_self _ _ _ _)
    | maybeStepDown _ waiting =>
      simp only [actor, callOf, waiting]
      exact .inr ⟨trivial, _, rfl, trivial, act_nodes_self _ _ _ _⟩
    | runElection =>
      exact .inr ⟨rfl, _, rfl, trivial, (congrFun (tally_nodes _ _ _ _) _).trans (act_nodes_self _ _ _ _)⟩
    | appendEntries sent | installSnapshot sent _ => exact .inr ⟨rfl, _, rfl, sent, act_nodes_self _ _ _ _⟩
    | sendSnapshot _ built | buildFailed built =>
      exact .inr ⟨rfl, _, rfl, trivial, (act_nodes_self _ _ _ _).trans (congrArg Prod.fst built).symm⟩
    | _ => exact .inr ⟨rfl, _, rfl, trivial, act_nodes_self _ _ _ _⟩
  · exact .inl (nodes_step_ne cluster label here)

theorem appendEntries_sent (sent : .appendEntries peer request ∈ (cluster.step label).net) :
    .appendEntries peer request ∈ cluster.net ∨ ∃ leader, requestFor (cluster.nodes leader) peer = some request := by
  have stepped := cluster.step_stepped label
  generalize cluster.step label = after at stepped sent
  cases stepped with
  | idle => exact .inl sent
  | sendAppendEntries _ built =>
    rcases mem_append.mp sent with old | new
    · exact .inl old
    · cases mem_singleton.mp new
      exact .inr ⟨_, built⟩
  | runElection =>
    rcases mem_append.mp sent with old | new
    · exact .inl old
    · unfold electionMessages at new
      split at new
      · cases mem_singleton.mp new
      · obtain ⟨_, _, same⟩ := mem_map.mp new
        cases same
  | installSnapshot _ answers =>
    rcases mem_append.mp sent with old | new
    · exact .inl old
    · obtain ⟨_, _, _, same⟩ := answers _ new
      cases same
  | recordVoteGranted _ =>
    left
    dsimp only at sent
    split at sent
    all_goals simpa [act_net] using sent
  | _ => exact .inl (by simpa [act_net] using sent)

theorem requestFor_entries {node : RaftConsensus} {full : List RaftLogEntry} (holds : Holds node.log full)
    (built : requestFor node peer = some request) : ∀ entry ∈ request.entries, entry ∈ full := by
  intro entry member
  obtain ⟨_, cursor, rfl⟩ := Option.map_eq_some_iff.mp built
  unfold leaderPeerCursor at cursor
  dsimp only at cursor
  repeat' split at cursor
  all_goals cases cursor
  have held := (mem_filter.mp (mem_of_mem_take member)).1
  rw [holds.entries] at held
  exact mem_of_mem_drop held

structure Waiting (cluster : Cluster) : Prop where
  chronology : Chronology cluster
  waits : ∀ i, Waits (cluster.nodes i)
  requests : ∀ peer request, .appendEntries peer request ∈ cluster.net →
    ∀ entry ∈ request.entries, Readable entry.command

/-- While clients wait for a node, nothing keeps it from applying what gets committed: the catalog and the memtable
    take the entries, and the log reaches back to the last one applied. -/
def Applies (cluster : Cluster) (label : Label) : Prop :=
  ∀ call ∈ callOf label, (cluster.nodes (actor label)).Applies call

instance : Decidable (Applies cluster label) :=
  inferInstanceAs (Decidable (∀ _ ∈ _, _))

/-- The clients that the step answers with `Ok` have their entries applied by it. -/
def Acknowledges (cluster : Cluster) (label : Label) : Prop :=
  ∀ i, Honest ((callOf label).bind callIo) (cluster.nodes i) ((cluster.step label).nodes i)

theorem Waiting.step (waiting : Waiting cluster) (applies : Applies cluster label) :
    Waiting (cluster.step label) ∧ Acknowledges cluster label := by
  have answers : ∀ i, Answers ((callOf label).bind callIo) (cluster.nodes i) ((cluster.step label).nodes i) := by
    intro i
    rcases step_call cluster label i with same | ⟨rfl, call, found, delivered, moved⟩
    · rw [same]
      exact .nobody (waiting.waits i) rfl
    have delivers : Delivers call := by
      cases call with
      | appendEntries io request =>
        exact ⟨(waiting.chronology.messages _ delivered).1, waiting.requests _ _ delivered⟩
      | installSnapshot io request => exact (waiting.chronology.messages _ delivered).1
      | _ => trivial
    rw [moved, found]
    exact (waiting.waits _).call delivers (applies call found)
  refine ⟨⟨waiting.chronology.step label, fun i => (answers i).waits, fun peer request sent entry member => ?_⟩,
    fun i => (answers i).honest⟩
  rcases appendEntries_sent sent with old | ⟨leader, built⟩
  · exact waiting.requests peer request old entry member
  · obtain ⟨full, holds, readable⟩ := (waiting.waits leader).log
    exact readable entry (requestFor_entries holds built entry member)

/-- Acknowledged proposals are applied: in every run in which nothing keeps a node that has clients from applying
    what gets committed. -/
theorem acknowledged_applied (io : Io) (membership : ClusterMembership) (threshold : Nat → Nat) (labels : List Label)
    (applies : Along step Applies (start io membership threshold) labels) :
    Along step Acknowledges (start io membership threshold) labels := by
  refine applies.each (P := Waiting) ⟨start_chronology io membership threshold, fun i => ?_, ?_⟩
    (fun cluster label waiting applies => waiting.step applies)
  · exact ⟨⟨[], .create, nofun⟩, nofun,
      nofun⟩
  · nofun

/-- A cluster of one node. -/
def solo : ClusterMembership := .fromEndpoints [(1, "n1:9000")]

/-- Client 7 proposes a put to the only node, which flushes its queue. -/
def soloPut (io : Io) : List Label :=
  [.runElection 1, .becomeLeader 1 1, .propose 1 (.put ⟨[97]⟩ ⟨[49]⟩) 7, .flushPendingProposes io 1]

theorem acknowledged_applied_soloPut :
    Along step Acknowledges (start (Io.reliable solo) solo (fun _ => 0)) (soloPut (Io.reliable solo)) :=
  acknowledged_applied (Io.reliable solo) solo (fun _ => 0) (soloPut (Io.reliable solo)) (by decide +kernel)

/-- The engine is closed when the leader applies. Client 7 is told `Ok`, and nothing has been applied. -/
theorem acknowledged_unapplied :
    let node := (run step (start (Io.reliable solo) solo (fun _ => 0))
      (soloPut { Io.reliable solo with metaInstall := false })).nodes 1
    node.state.role = .leader ∧ node.acknowledged = [(0, 1), (7, 2)] ∧ node.engine.lastApplied = 0 := by
  decide +kernel

end Cluster

end Takyonic
