import Takyonic.Raft.ElectionSafety
import Takyonic.Raft.MembershipReplay

namespace Takyonic

open Foundation List RaftLog CommittedEntry Io

inductive Call where
  | startElection
  | requestVote (request : RequestVoteRequest)
  | appendEntries (io : Io) (request : AppendEntriesRequest)
  | installSnapshot (io : Io) (request : InstallSnapshotRequest)
  | maybeStepDown (remoteTerm : Nat)
  | becomeLeader (term : Nat)
  | onAppendSuccess (io : Io) (peer matchIndex : Nat)
  | onAppendFailure (peer remoteTerm hint : Nat)
  | onSnapshotSuccess (peer lastIncludedIndex : Nat)
  | onPeerUnreachable (peer : Nat)
  | ensurePeerCursors (peer : Nat)
  | propose (command : RaftCommand) (tx : Nat)
  | flushPendingProposes (io : Io)
  | buildInstallSnapshot (io : Io)

namespace RaftConsensus

def call (node : RaftConsensus) : Call → RaftConsensus
  | .startElection => node.startElection.1
  | .requestVote request => (node.handleRequestVote request.term request.candidateId
      request.lastLogIndex request.lastLogTerm).1
  | .appendEntries io request => (node.handleAppendEntries io request.term request.leaderId
      request.prevLogIndex request.prevLogTerm request.entries request.leaderCommit).1
  | .installSnapshot io request => (node.handleInstallSnapshot io request.term request.leaderId
      request.lastIncludedIndex request.lastIncludedTerm request.data request.done).1
  | .maybeStepDown remoteTerm => node.maybeStepDown remoteTerm
  | .becomeLeader term => node.becomeLeader term
  | .onAppendSuccess io peer matchIndex => node.onAppendSuccess io peer matchIndex
  | .onAppendFailure peer remoteTerm hint => node.onAppendFailure peer remoteTerm hint
  | .onSnapshotSuccess peer lastIncludedIndex => node.onSnapshotSuccess peer lastIncludedIndex
  | .onPeerUnreachable peer => node.onPeerUnreachable peer
  | .ensurePeerCursors peer => node.ensurePeerCursors peer
  | .propose command tx => (node.propose command tx).1
  | .flushPendingProposes io => (node.flushPendingProposes io).1
  | .buildInstallSnapshot io => (node.buildInstallSnapshot io).1

def bootstrap (io : Io) (id : Nat) (boot : ClusterMembership) (threshold : Nat) : RaftConsensus :=
  newWithThreshold io id boot .create ⟨0⟩ none threshold

variable {node node' : RaftConsensus} {io : Io} {boot base : ClusterMembership} {log log' : RaftLog}
  {prev n count current applied snap commit kept term leaderId prevTerm : Nat}
  {entries full rest : List RaftLogEntry} {batch : List CommittedEntry}

structure Spliced (io : Io) (node node' : RaftConsensus) (kept : Nat) (rest : List RaftLogEntry) : Prop
    extends Bookkeeping io node node' where
  retained : node.log.snapshot.lastIncludedIndex ≤ kept
  within : kept ≤ node.log.whole.length
  shape : Holds node'.log node'.log.whole
  whole : node'.log.whole = node.log.whole.take kept ++ rest
  live : node'.state.membership = if kept < node.log.whole.length
    then foldConfig node.state.baseMembership
      ((node.log.whole.take kept).drop node.log.snapshot.lastIncludedIndex ++ rest)
    else foldConfig node.state.membership rest

theorem Spliced.unchanged (holds : Holds node.log node.log.whole) :
    Spliced io node node node.log.whole.length [] where
  toBookkeeping := (Frame.refl io node).toBookkeeping
  retained := holds.inside
  within := le_rfl
  shape := holds
  whole := by simp
  live := by simp [foldConfig]

theorem Bookkeeping.relog (boundary : log.snapshot = node.log.snapshot) :
    Bookkeeping io node { node with log := log } where
  base := rfl
  engine := rfl
  commit := rfl
  boundary := by
    rw [boundary]
    exact le_max_left _ _
  file := fun _ current => current

theorem appendBatch_whole {batch : List RaftLogEntry}
    (appended : log.appendBatch batch = .ok log') : log'.whole = log.whole ++ batch := by
  unfold appendBatch at appended
  split at appended
  · rename_i empty
    cases appended
    rw [isEmpty_iff.mp empty, append_nil]
  · split at appended
    · cases appended
    · cases appended
      exact whole_extend batch

theorem storeBatch_frame (holds : Holds node.log node.log.whole) {batch : List RaftLogEntry}
    (stored : node.storeBatch io batch = some node') :
    Bookkeeping io node node' ∧ Holds node'.log node'.log.whole ∧
      node'.log.whole = node.log.whole ++ batch ∧
      node'.state.membership = foldConfig node.state.membership batch := by
  obtain ⟨log, appended, _, rfl⟩ := storeBatch_some node io stored
  have whole := appendBatch_whole appended
  have extended : Holds log log.whole := by
    rw [whole]
    exact holds.appendBatch appended
  have frame := (applyAppendedConfigChanges_upkeep { node with log := log } io batch).frame
  obtain ⟨after, same⟩ := frame.whole extended
  have relogged : Bookkeeping io node { node with log := log } := .relog (appendBatch_snapshot appended)
  exact ⟨relogged.trans frame.toBookkeeping, after, same.trans whole, applyAppendedConfigChanges_membership batch⟩

theorem finishStore_spliced (holds : Holds node.log node.log.whole) (inside : prev ≤ node.log.whole.length)
    (consecutive : Consecutive (prev + 1) entries) :
    ∃ kept rest, Spliced io node (finishStore io (storeEntries io node.log.snapshot.lastIncludedIndex
        entries node [] false)).1 kept rest ∧
      (kept < node.log.whole.length → ∃ old new, node.log.whole[kept]? = some old ∧ new ∈ entries ∧
        new.index = kept + 1 ∧ old.term ≠ new.term) := by
  have scan := storeEntries_scan io holds entries prev inside consecutive
  generalize storeEntries io node.log.snapshot.lastIncludedIndex entries node [] false = result at scan ⊢
  cases scan with
  | same written kept => exact ⟨_, [], .unchanged holds, fun shorter => absurd shorter (lt_irrefl _)⟩
  | extended rest nonempty suffix written kept next =>
    obtain ⟨rolled, rollback, outcome⟩ := finishStore_cases node io rest false
    rw [rollback] at outcome
    rcases outcome with ⟨empty, _⟩ | ⟨_, _, finished⟩ | ⟨last, _, stored, finished⟩
    · exact absurd empty nonempty
    · rw [finished]
      exact ⟨_, [], .unchanged holds, fun shorter => absurd shorter (lt_irrefl _)⟩
    · rw [finished]
      obtain ⟨bookkeeping, shape, whole, live⟩ := storeBatch_frame holds stored
      refine ⟨node.log.whole.length, rest, ?_, fun shorter => absurd shorter (lt_irrefl _)⟩
      exact { bookkeeping with
              retained := holds.inside, within := le_rfl, shape := shape
              whole := by rw [take_length, whole], live := by rw [if_neg (lt_irrefl _), live] }
  | replaced j rest nonempty suffix above below written kept next conflict =>
    have retained : node.log.snapshot.lastIncludedIndex ≤ j := by omega
    have cut := whole_truncateAfter holds retained
    have shape : Holds (node.log.truncateAfter j) (node.log.truncateAfter j).whole := by
      rw [cut]
      exact holds.truncateAfter retained
    have truncated : Bookkeeping io node { node with log := node.log.truncateAfter j } := .relog rfl
    obtain ⟨rolled, rollback, outcome⟩ := finishStore_cases { node with log := node.log.truncateAfter j } io rest true
    rw [if_pos rfl] at rollback
    have frame : Frame io { node with log := node.log.truncateAfter j } rolled := by
      rw [rollback]
      exact (rebuildMembershipFromLog_upkeep _ io).frame
    have live : rolled.state.membership = foldConfig node.state.baseMembership
        ((node.log.whole.take j).drop node.log.snapshot.lastIncludedIndex) := by
      rw [rollback, rebuildMembershipFromLog_membership shape, cut]
      rfl
    obtain ⟨rolledShape, rolledWhole⟩ := frame.whole shape
    have rolledWhole : rolled.log.whole = node.log.whole.take j := rolledWhole.trans cut
    have bookkeeping := truncated.trans frame.toBookkeeping
    have clash : ∃ old new, node.log.whole[j]? = some old ∧ new ∈ entries ∧ new.index = j + 1 ∧
        old.term ≠ new.term := by
      obtain ⟨old, new, there, first, different⟩ := conflict
      obtain ⟨tail, rfl⟩ : ∃ tail, rest = new :: tail := by
        cases rest with
        | nil => cases first
        | cons head tail =>
          cases first
          exact ⟨tail, rfl⟩
      exact ⟨old, new, there, mem_of_mem_drop (suffix.mem mem_cons_self), (Consecutive.cons_iff.mp next).1, different⟩
    rcases outcome with ⟨empty, _⟩ | ⟨_, _, finished⟩ | ⟨last, _, stored, finished⟩
    · exact absurd empty nonempty
    · rw [finished]
      refine ⟨j, [], ?_, fun _ => clash⟩
      exact { bookkeeping with
              retained := retained, within := le_of_lt below, shape := rolledShape
              whole := by rw [rolledWhole, append_nil]
              live := by rw [if_pos below, append_nil, live] }
    · rw [finished]
      obtain ⟨appended, lastShape, lastWhole, lastLive⟩ := storeBatch_frame rolledShape stored
      refine ⟨j, rest, ?_, fun _ => clash⟩
      exact { bookkeeping.trans appended with
              retained := retained, within := le_of_lt below, shape := lastShape
              whole := by rw [lastWhole, rolledWhole]
              live := by rw [if_pos below, foldConfig_append, lastLive, live] }

def commitEntry (base : ClusterMembership) (committed : CommittedEntry) : ClusterMembership :=
  if committed.command.isConfigChange then applyConfigTo base committed.command else base

theorem commitEntry_eq (base : ClusterMembership) (committed : CommittedEntry) :
    commitEntry base committed = applyConfigTo base committed.command := by
  unfold commitEntry
  split
  · rfl
  · rename_i other
    exact (applyConfigTo_other (Bool.not_eq_true _ ▸ other) base).symm

theorem committedBatch_read (holds : Holds log full)
    (retained : log.snapshot.lastIncludedIndex ≤ n) (inside : n ≤ full.length)
    (read : committedBatch log (n + 1) count = .ok batch) :
    batch.length ≤ count ∧ n + batch.length ≤ full.length ∧
      batch.map index = range' (n + 1) batch.length ∧
      ∀ base, batch.foldl commitEntry base = foldConfig base ((full.drop n).take batch.length) := by
  induction count generalizing n batch with
  | zero =>
    cases read
    exact ⟨le_rfl, inside, rfl, fun _ => rfl⟩
  | succ count ih =>
    unfold committedBatch at read
    have found := holds.entry (n + 1)
    rw [if_pos (by omega), Nat.add_sub_cancel] at found
    rw [found] at read
    cases there : full[n]? with
    | none =>
      rw [there] at read
      cases read
      exact ⟨Nat.zero_le _, inside, rfl, fun _ => rfl⟩
    | some entry =>
      rw [there] at read
      obtain ⟨command, decoded, read⟩ := bind_eq_ok read
      obtain ⟨rest, readRest, built⟩ := bind_eq_ok read
      cases built
      obtain ⟨below, entryEq⟩ := List.getElem?_eq_some_iff.mp there
      obtain ⟨short, reach, indices, folded⟩ := ih (by omega) (by omega) readRest
      refine ⟨?_, ?_, ?_, fun base => ?_⟩
      · simpa using short
      · simp only [length_cons]
        omega
      · simp [indices, range'_succ]
      · rw [drop_eq_getElem_cons below, entryEq, length_cons, take_succ_cons, foldConfig_cons,
          foldl_cons, folded, commitEntry_eq]
        simp only [foldConfig, foldl_cons, foldl_nil, decoded]

theorem applyLog_consecutive (later : current ≤ applied)
    (indices : batch.map index = range' (applied + 1) batch.length) :
    Engine.applyLog current applied (applied + 1) batch = (applied + batch.length, .ok ()) := by
  induction batch generalizing applied with
  | nil => rfl
  | cons committed rest ih =>
    simp only [map_cons, length_cons, range'_succ, cons.injEq] at indices
    obtain ⟨here, rest'⟩ := indices
    unfold Engine.applyLog
    rw [if_neg (by omega), if_neg (by omega), here, max_eq_right (by omega), ih (by omega) rest']
    simp only [length_cons, Prod.mk.injEq, and_true]
    omega

theorem applyCommitted_flushed {engine : Engine} (flushed : io.flush = true)
    (indices : batch.map index = range' (engine.lastApplied + 1) batch.length) :
    engine.applyCommitted io batch = (engine, .error .io) ∨
      engine.applyCommitted io batch = (⟨engine.lastApplied + batch.length⟩, .ok ()) := by
  unfold Engine.applyCommitted
  rw [applyLog_consecutive le_rfl indices]
  split
  · rename_i empty
    rw [isEmpty_iff.mp empty]
    exact .inr rfl
  split
  · exact .inl rfl
  · exact .inr rfl

theorem foldl_commitEntry_quiet (base : ClusterMembership)
    (quiet : batch.any (fun committed => committed.command.isConfigChange) = false) :
    batch.foldl commitEntry base = base := by
  induction batch generalizing base with
  | nil => rfl
  | cons committed rest ih =>
    rw [any_cons, Bool.or_eq_false_iff] at quiet
    rw [foldl_cons, ih _ quiet.2, commitEntry, quiet.1]
    rfl

theorem writeMembership_log : (node.writeMembership io).log = node.log := by
  unfold writeMembership
  split <;> rfl

theorem writeMembership_engine : (node.writeMembership io).engine = node.engine := by
  unfold writeMembership
  split <;> rfl

theorem noteCommitted_freezes (node : RaftConsensus) (io : Io) (batch : List CommittedEntry) :
    (node.noteCommitted io batch).state.baseMembership = batch.foldl commitEntry node.state.baseMembership ∧
      (node.noteCommitted io batch).state.membership = node.state.membership ∧
      (node.noteCommitted io batch).state.commitIndex = node.state.commitIndex ∧
      (node.noteCommitted io batch).engine = node.engine ∧ (node.noteCommitted io batch).log = node.log := by
  have frozen : (node.freezeBase io batch).state.baseMembership = batch.foldl commitEntry node.state.baseMembership ∧
      (node.freezeBase io batch).state.membership = node.state.membership ∧
      (node.freezeBase io batch).state.commitIndex = node.state.commitIndex ∧
      (node.freezeBase io batch).engine = node.engine ∧ (node.freezeBase io batch).log = node.log := by
    unfold freezeBase
    split
    · rw [writeMembership_state, writeMembership_engine, writeMembership_log]
      exact ⟨rfl, rfl, rfl, rfl, rfl⟩
    · rename_i quiet
      exact ⟨(foldl_commitEntry_quiet _ (Bool.not_eq_true _ ▸ quiet)).symm, rfl, rfl, rfl, rfl⟩
  unfold noteCommitted
  dsimp only
  split <;> exact frozen

/-- The live membership is the bootstrap membership folded over the whole log, the base the one folded
    over what has been applied. -/
structure Tracked (boot : ClusterMembership) (node : RaftConsensus) : Prop where
  shape : Holds node.log node.log.whole
  live : node.state.membership = foldConfig boot node.log.whole
  base : node.state.baseMembership = foldConfig boot (node.log.whole.take node.engine.lastApplied)
  compacted : node.log.snapshot.lastIncludedIndex ≤ node.engine.lastApplied
  applied : node.engine.lastApplied ≤ node.state.commitIndex
  committed : node.state.commitIndex ≤ node.log.whole.length

theorem replay_whole (covers : base = foldConfig boot (full.take applied)) (retained : snap ≤ applied)
    (inside : applied ≤ full.length) : foldConfig base (full.drop snap) = foldConfig boot full := by
  have split : full.drop snap = (full.take applied).drop snap ++ full.drop applied := by
    rw [← drop_append_of_le_length (by rw [length_take]; omega), take_append_drop]
  have start : full = full.take snap ++ ((full.take applied).drop snap ++ full.drop applied) := by
    rw [← split, take_append_drop]
  rw [split]
  have target : foldConfig boot full =
      foldConfig (foldConfig boot (full.take snap)) ((full.take applied).drop snap ++ full.drop applied) := by
    rw [← foldConfig_append, ← start]
  rw [target]
  apply foldConfig_rebase
  rw [← target, covers, ← foldConfig_append, take_append_drop]

namespace Tracked

variable (tracked : Tracked boot node)
include tracked

theorem frame (frame : Frame io node node') (live : node'.state.membership = node.state.membership) :
    Tracked boot node' := by
  obtain ⟨shape, whole⟩ := frame.whole tracked.shape
  have boundary := frame.boundary
  have compacted := tracked.compacted
  refine ⟨shape, ?_, ?_, ?_, ?_, ?_⟩
  · rw [live, whole, tracked.live]
  · rw [frame.base, frame.engine, whole, tracked.base]
  · rw [frame.engine]
    omega
  · rw [frame.engine, frame.commit]
    exact tracked.applied
  · rw [frame.commit, whole]
    exact tracked.committed

theorem raise (later : node.state.commitIndex ≤ commit) (inside : commit ≤ node.log.whole.length) :
    Tracked boot { node with state := { node.state with commitIndex := commit } } :=
  { tracked with applied := tracked.applied.trans later, committed := inside }

theorem applyCommittedTo (flushed : io.flush = true) :
    Tracked boot (node.applyCommittedTo io node.state.commitIndex).1 := by
  have compacted := tracked.compacted
  have committed := tracked.committed
  unfold RaftConsensus.applyCommittedTo
  split
  · exact tracked
  dsimp only
  rw [snapshotMeta, max_eq_left (by omega)]
  split
  · exact tracked
  split
  · exact tracked
  rename_i behind _ batch read
  obtain ⟨short, reach, indices, folded⟩ := committedBatch_read tracked.shape compacted (by omega) read
  split
  · exact tracked
  rcases applyCommitted_flushed flushed indices with failed | applied
  · rw [failed]
    exact { tracked with }
  rw [applied]
  refine frame ?_ (maybeCompact_upkeep _ io).frame maybeCompact_membership
  obtain ⟨base, live, commit, engine, log⟩ := noteCommitted_freezes
    { node with engine := ⟨node.engine.lastApplied + batch.length⟩ } io batch
  have covers : batch.foldl commitEntry node.state.baseMembership =
      foldConfig boot (node.log.whole.take (node.engine.lastApplied + batch.length)) := by
    rw [folded, tracked.base, ← foldConfig_append, take_add]
  refine ⟨?_, ?_, ?_, ?_, ?_, ?_⟩
  · rw [log]
    exact tracked.shape
  · rw [live, log]
    exact tracked.live
  · rw [base, engine, log]
    exact covers
  · rw [engine, log]
    dsimp only
    omega
  · rw [engine, commit]
    dsimp only
    omega
  · rw [commit, log]
    exact committed

theorem spliced (spliced : Spliced io node node' kept rest)
    (stays : node'.log.whole.take node.state.commitIndex = node.log.whole.take node.state.commitIndex) :
    Tracked boot node' := by
  have compacted := tracked.compacted
  have applied := tracked.applied
  have boundary := spliced.boundary
  have retained := spliced.retained
  have within := spliced.within
  have reaches : node.state.commitIndex ≤ node'.log.whole.length := by
    have lengths := congrArg length stays
    have committed := tracked.committed
    simp only [length_take] at lengths
    omega
  have covers : node.state.baseMembership = foldConfig boot (node'.log.whole.take node.engine.lastApplied) := by
    have earlier := congrArg (take node.engine.lastApplied) stays
    rw [take_take, take_take, min_eq_left applied] at earlier
    rw [earlier, tracked.base]
  refine ⟨spliced.shape, ?_, ?_, ?_, ?_, ?_⟩
  · rw [spliced.live]
    split
    · rw [← replay_whole covers compacted (applied.trans reaches), spliced.whole,
        drop_append_of_le_length (by rw [length_take]; omega)]
    · rw [tracked.live, ← foldConfig_append, spliced.whole, take_of_length_le (by omega)]
  · rw [spliced.base, spliced.engine]
    exact covers
  · rw [spliced.engine]
    omega
  · rw [spliced.engine, spliced.commit]
    exact applied
  · rw [spliced.commit]
    exact reaches

theorem advance {state : SoftState} (membership : state.membership = node.state.membership)
    (base : state.baseMembership = node.state.baseMembership)
    (commit : state.commitIndex = node.state.commitIndex) :
    Tracked boot { node with state := advanceCommitIndex node.log node.id state } := by
  obtain ⟨matchIndex, n, shape⟩ := advanceCommitIndex_frame node.log node.id state
  obtain ⟨_, m, reached, _, advanced⟩ := advanceCommitIndex_spec node.log node.id state
  have same : n = m := by
    rw [shape] at reached
    exact congrArg SoftState.commitIndex reached
  have committed := tracked.committed
  have last := tracked.shape.lastIndex
  rw [shape]
  have raised : Tracked boot { node with state := { node.state with commitIndex := n } } :=
    tracked.raise (by omega) (by omega)
  exact { raised with live := membership.trans raised.live, base := base.trans raised.base }

theorem acceptLeader (term leaderId : Nat) : Tracked boot (node.acceptLeader term leaderId) := by
  unfold RaftConsensus.acceptLeader
  split <;> exact { tracked with }

end Tracked

theorem whole_compacts (holds : Holds log log.whole) (compacts : Compacts log log') :
    log'.whole = log.whole := by
  have kept := compacts.preserve (P := fun after => Holds after after.whole ∧ after.whole = log.whole)
    ⟨holds, rfl⟩ (fun before after index term held compacted => ?_)
  · exact kept.2
  · have same := whole_compactThrough held.1 compacted
    exact ⟨same ▸ held.1.compactThrough compacted, same.trans held.2⟩

theorem handleAppendEntries_splices (holds : Holds node.log node.log.whole) (io : Io) (term leaderId : Nat)
    (prevTerm leaderCommit : Nat) (consecutive : Consecutive (prev + 1) entries) :
    let result := (node.handleAppendEntries io term leaderId prev prevTerm entries leaderCommit).1
    result = node ∨ result = node.acceptLeader term leaderId ∨
      ∃ next kept rest, Spliced io (node.acceptLeader term leaderId) next kept rest ∧
        (kept < node.log.whole.length → ∃ old new, node.log.whole[kept]? = some old ∧ new ∈ entries ∧
          new.index = kept + 1 ∧ old.term ≠ new.term) ∧
        (result = next ∨ result =
          next.commitTo io (followerCommit next.state.commitIndex leaderCommit next.log.lastIndex)) := by
  unfold handleAppendEntries
  split
  · exact .inl rfl
  have log := acceptLeader_log node term leaderId
  generalize node.acceptLeader term leaderId = follower at log ⊢
  rw [← log] at holds ⊢
  dsimp only
  split
  · exact .inr (.inl rfl)
  rename_i matches'
  have inside : prev ≤ follower.log.whole.length := by
    by_contra beyond
    refine matches' ⟨by omega, ?_⟩
    have retained := holds.inside
    rw [holds.termAt (by omega) (by omega), getElem?_eq_none (by omega)]
    simp
  obtain ⟨kept, rest, spliced, conflict⟩ : ∃ kept rest, Spliced io follower _ kept rest ∧ _ :=
    finishStore_spliced holds inside consecutive
  rw [snapshotMeta]
  generalize finishStore io _ = outcome at spliced ⊢
  obtain ⟨next, acknowledged⟩ := outcome
  refine .inr (.inr ⟨next, kept, rest, spliced, conflict, ?_⟩)
  cases acknowledged with
  | false => exact .inl rfl
  | true =>
    right
    unfold commitTo followerCommit
    dsimp only
    split <;> rfl

theorem Tracked.commitTo (tracked : Tracked boot node) (flushed : io.flush = true)
    (later : node.state.commitIndex ≤ commit) (inside : commit ≤ node.log.whole.length) :
    Tracked boot (node.commitTo io commit) :=
  (tracked.raise later inside).applyCommittedTo flushed

theorem Tracked.handleAppendEntries (tracked : Tracked boot node)
    (flushed : io.flush = true) (consecutive : Consecutive (prev + 1) entries)
    (stays : (node.handleAppendEntries io term leaderId prev prevTerm entries commit).1.log.whole.take
      node.state.commitIndex = node.log.whole.take node.state.commitIndex) :
    Tracked boot (node.handleAppendEntries io term leaderId prev prevTerm entries commit).1 := by
  have accepted := tracked.acceptLeader term leaderId
  rcases handleAppendEntries_splices tracked.shape io term leaderId prevTerm commit consecutive with
    same | same | ⟨next, kept, rest, spliced, _, outcome⟩
  · rwa [same]
  · rwa [same]
  have commitKept : (node.acceptLeader term leaderId).state.commitIndex = node.state.commitIndex :=
    acceptLeader_commit term leaderId
  rw [← commitKept, ← acceptLeader_log node term leaderId] at stays
  rcases outcome with same | same
  · rw [same] at stays ⊢
    exact accepted.spliced spliced stays
  rw [same] at stays ⊢
  have compacts := (commitTo_housekeeping next io (followerCommit next.state.commitIndex commit next.log.lastIndex)).log
  rw [whole_compacts spliced.shape compacts] at stays
  have stored := accepted.spliced spliced stays
  have committed := stored.committed
  have last := stored.shape.lastIndex
  refine stored.commitTo flushed ?_ ?_
  all_goals
    unfold followerCommit
    split <;> omega

theorem filterMap_entry_appended (full batch : List RaftLogEntry) (holds : Holds log (full ++ batch))
    (retained : log.snapshot.lastIncludedIndex ≤ full.length) :
    (range' (full.length + 1) batch.length).filterMap log.entry = batch := by
  induction batch generalizing full with
  | nil => rfl
  | cons entry rest ih =>
    have found : log.entry (full.length + 1) = some entry := by
      rw [holds.entry, if_pos (by omega), Nat.add_sub_cancel]
      simp
    have later := ih (full ++ [entry]) (by simpa using holds) (by simp; omega)
    rw [length_append, length_singleton] at later
    rw [length_cons, range'_succ, filterMap_cons_some found, later]

def proposedEntries (node : RaftConsensus) : List RaftLogEntry :=
  numbered node.state.currentTerm (node.log.lastIndex + 1) (node.state.pending.map PendingPropose.encoded)

theorem appendedLog_extend (queued : node.state.pending ≠ []) :
    node.appendedLog = node.log.extend node.proposedEntries := by
  unfold appendedLog appendCommands
  rw [if_neg (by simpa using queued)]
  rfl

theorem publishProposes_spliced (holds : Holds node.log node.log.whole) (queued : node.state.pending ≠ []) :
    Spliced io node (applyAppendedConfigChanges { node with
        state := { node.state with pending := [] }, log := node.appendedLog } io
      ((range' (node.log.lastIndex + 1) node.state.pending.length).filterMap node.appendedLog.entry))
      node.log.whole.length node.proposedEntries := by
  have last := holds.lastIndex
  have extended : Holds node.appendedLog (node.log.whole ++ node.proposedEntries) := by
    rw [appendedLog_extend queued]
    apply holds.extend
    rw [← last]
    exact numbered_consecutive _ _ _
  have whole : node.appendedLog.whole = node.log.whole ++ node.proposedEntries := by
    rw [appendedLog_extend queued, whole_extend]
  have snapshot : node.appendedLog.snapshot = node.log.snapshot := by
    rw [appendedLog_extend queued]
    rfl
  have length : node.state.pending.length = node.proposedEntries.length := by
    rw [proposedEntries, numbered_length, length_map]
  have appended : (range' (node.log.lastIndex + 1) node.state.pending.length).filterMap
      node.appendedLog.entry = node.proposedEntries := by
    rw [last, length]
    exact filterMap_entry_appended _ _ extended (by rw [snapshot]; exact holds.inside)
  rw [appended]
  have frame := (applyAppendedConfigChanges_upkeep { node with
    state := { node.state with pending := [] }, log := node.appendedLog } io node.proposedEntries).frame
  obtain ⟨shape, same⟩ := frame.whole (whole ▸ extended)
  have relogged : Bookkeeping io node { node with
      state := { node.state with pending := [] }, log := node.appendedLog } :=
    { base := rfl, engine := rfl, commit := rfl, file := fun _ current => current
      boundary := by rw [snapshot]; exact le_max_left _ _ }
  exact { relogged.trans frame.toBookkeeping with
          retained := holds.inside, within := le_rfl, shape := shape
          whole := by rw [same, whole, take_length]
          live := by rw [if_neg (lt_irrefl _), applyAppendedConfigChanges_membership] }

section

variable (tracked : Tracked boot node)
include tracked

theorem Tracked.commitProposes (flushed : io.flush = true) (pending : List PendingPropose) (start : Nat) :
    Tracked boot (node.commitProposes io pending start) := by
  have counted : Tracked boot { node with
      state := advanceCommitIndex node.log node.id (node.awaitProposes pending start) } :=
    tracked.advance rfl rfl rfl
  unfold RaftConsensus.commitProposes
  dsimp only
  split
  · exact { counted.applyCommittedTo flushed with }
  · exact counted

theorem Tracked.flushPendingProposes (flushed : io.flush = true) :
    Tracked boot (node.flushPendingProposes io).1 := by
  rcases flushPendingProposes_cases node io with ⟨pending, sent, _, same⟩ | ⟨_, queued, published⟩
  · rw [same]
    exact { tracked with }
  · rw [published]
    have spliced : Spliced io node _ _ _ := publishProposes_spliced tracked.shape queued
    refine commitProposes (tracked.spliced spliced ?_) flushed _ _
    rw [spliced.whole, take_length, take_append_of_le_length tracked.committed]

theorem Tracked.onAppendSuccess (flushed : io.flush = true) (peer matchIndex : Nat) :
    Tracked boot (node.onAppendSuccess io peer matchIndex) := by
  unfold RaftConsensus.onAppendSuccess
  split
  · exact tracked
  · have counted : Tracked boot { node with
        state := advanceCommitIndex node.log node.id (recordMatch node.state peer matchIndex) } :=
      tracked.advance rfl rfl rfl
    exact { counted.applyCommittedTo flushed with }

theorem Tracked.onSnapshotSuccess (peer index : Nat) : Tracked boot (node.onSnapshotSuccess peer index) := by
  unfold RaftConsensus.onSnapshotSuccess
  split
  · exact tracked
  · exact tracked.advance rfl rfl rfl

end

/-- A run without InstallSnapshot whose AppendEntries requests are consecutive from `prev_log_index + 1`
    and truncate no committed entry. -/
def Regular (node : RaftConsensus) : Call → Prop
  | .installSnapshot _ _ => False
  | .appendEntries io request => Consecutive (request.prevLogIndex + 1) request.entries ∧
      (node.call (.appendEntries io request)).log.whole.take node.state.commitIndex =
        node.log.whole.take node.state.commitIndex
  | _ => True

instance (node : RaftConsensus) (call : Call) : Decidable (Regular node call) := by
  rcases call with ⟨⟩ <;> unfold Regular <;> infer_instance

def Flushes : Call → Prop
  | .appendEntries io _ | .onAppendSuccess io _ _ | .flushPendingProposes io => io.flush = true
  | _ => True

instance (call : Call) : Decidable (Flushes call) := by
  rcases call with ⟨⟩ <;> unfold Flushes <;> infer_instance

theorem Tracked.call (tracked : Tracked boot node) {call : Call} (regular : Regular node call)
    (flushed : Flushes call) : Tracked boot (node.call call) := by
  cases call with
  | appendEntries io request => exact tracked.handleAppendEntries flushed regular.1 regular.2
  | installSnapshot io request => exact regular.elim
  | onAppendSuccess io peer matchIndex => exact tracked.onAppendSuccess flushed peer matchIndex
  | onSnapshotSuccess peer index => exact tracked.onSnapshotSuccess peer index
  | flushPendingProposes io => exact tracked.flushPendingProposes flushed
  | buildInstallSnapshot io =>
    exact tracked.frame (buildInstallSnapshot_upkeep node io).frame buildInstallSnapshot_membership
  | _ =>
    simp only [RaftConsensus.call, startElection, handleRequestVote, maybeStepDown, becomeLeader, onAppendFailure,
      onPeerUnreachable, ensurePeerCursors, propose]
    repeat' split
    all_goals exact { tracked with }

theorem bootstrap_base (boot : ClusterMembership) :
    (if boot.isEmpty && !boot.isEmpty then boot else boot) = boot := ite_self boot

theorem bootstrap_tracked (io : Io) (id : Nat) (boot : ClusterMembership) (threshold : Nat) :
    Tracked boot (bootstrap io id boot threshold) where
  shape := .create
  live := bootstrap_base boot
  base := bootstrap_base boot
  compacted := le_rfl
  applied := le_rfl
  committed := le_rfl

/-- Membership follows the log in every regular run in which no flush fails after an apply. -/
theorem membership_follows_log (io : Io) (id : Nat) (boot : ClusterMembership) (threshold : Nat)
    (calls : List Call) (regular : Along call Regular (bootstrap io id boot threshold) calls)
    (flushed : Along call (fun _ => Flushes) (bootstrap io id boot threshold) calls) :
    (run call (bootstrap io id boot threshold) calls).state.membership =
      foldConfig boot (run call (bootstrap io id boot threshold) calls).log.whole := by
  have tracked := (regular.and flushed).invariant (P := Tracked boot)
    (bootstrap_tracked io id boot threshold) (fun node call tracked both => tracked.call both.1 both.2)
  exact tracked.live

open Cluster (trio noopCommand)

def addFour : Bytes :=
  match (RaftCommand.addNode 4 "n4:9000").encode with
  | .ok encoded => encoded
  | .error _ => []

def putOne : Bytes :=
  match (RaftCommand.put ⟨[97]⟩ ⟨[49]⟩).encode with
  | .ok encoded => encoded
  | .error _ => []

/-- Node 3 applies a write and AddNode 4 but the flush of the write fails, so that the base misses node 4. Once the
    entry is compacted, the truncation of entry 4 rebuilds the membership from that base. -/
def failedFlush : List Call :=
  let io := reliable trio
  [.appendEntries { io with flush := false } ⟨1, 1, 0, 0, [⟨1, 1, putOne⟩, ⟨1, 2, addFour⟩], 2⟩,
    .appendEntries io ⟨1, 1, 2, 1, [⟨1, 3, noopCommand⟩, ⟨1, 4, noopCommand⟩], 3⟩,
    .appendEntries io ⟨2, 2, 3, 1, [⟨2, 4, noopCommand⟩], 3⟩]

theorem committed_change_lost :
    Along call Regular (bootstrap (reliable trio) 3 trio 1) failedFlush ∧
      (run call (bootstrap (reliable trio) 3 trio 1) failedFlush).state.membership ≠
        foldConfig trio (run call (bootstrap (reliable trio) 3 trio 1) failedFlush).log.whole := by
  decide +kernel

/-- The same requests without a failure: AddNode 4 is compacted and survives the truncation. -/
def truncatedTail : List Call :=
  let io := reliable trio
  [.appendEntries io ⟨1, 1, 0, 0, [⟨1, 1, putOne⟩, ⟨1, 2, addFour⟩], 2⟩,
    .appendEntries io ⟨1, 1, 2, 1, [⟨1, 3, noopCommand⟩, ⟨1, 4, noopCommand⟩], 3⟩,
    .appendEntries io ⟨2, 2, 3, 1, [⟨2, 4, noopCommand⟩], 3⟩]

theorem membership_follows_log_truncatedTail :
    (run call (bootstrap (reliable trio) 3 trio 1) truncatedTail).log.snapshot.lastIncludedIndex = 3 ∧
      (run call (bootstrap (reliable trio) 3 trio 1) truncatedTail).state.membership =
        foldConfig trio (run call (bootstrap (reliable trio) 3 trio 1) truncatedTail).log.whole :=
  ⟨by decide +kernel, membership_follows_log (reliable trio) 3 trio 1 truncatedTail (by decide +kernel)
    (by decide +kernel)⟩

end RaftConsensus

end Takyonic
