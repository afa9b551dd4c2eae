import Takyonic.Raft.LogRecovery
import Takyonic.Raft.MembershipLog

namespace Takyonic

open Foundation List Io RaftLog RaftCommand

namespace RaftConsensus

variable {node node' : RaftConsensus} {io : Io} {boot : ClusterMembership}

/-- The node created anew on the directory it left behind. The history of compacted entries goes on. -/
def restart (node : RaftConsensus) (io : Io) (boot : ClusterMembership) (engine : Engine) : RaftConsensus :=
  newWithThreshold io node.id boot { node.log.reopen with compacted := node.log.compacted } engine
    node.membershipFile node.snapshotThreshold

/-- `MEMBERSHIP.meta` holds the live membership. -/
def Filed (node : RaftConsensus) : Prop := node.membershipFile = some node.state.membership

namespace Filed

variable (filed : Filed node)
include filed

theorem of_eq (file : node'.membershipFile = node.membershipFile)
    (membership : node'.state.membership = node.state.membership) : Filed node' := by
  unfold Filed
  rw [file, membership]
  exact filed

theorem acceptLeader (term leaderId : Nat) : Filed (node.acceptLeader term leaderId) := by
  unfold RaftConsensus.acceptLeader
  split <;> exact filed.of_eq rfl rfl

theorem advance {state : SoftState} (membership : state.membership = node.state.membership) :
    Filed { node with state := advanceCommitIndex node.log node.id state } := by
  obtain ⟨matchIndex, n, shape⟩ := advanceCommitIndex_frame node.log node.id state
  rw [shape]
  exact filed.of_eq rfl membership

variable (written : io.membershipWrite = true)
include written

theorem frame (bookkeeping : Bookkeeping io node node') : Filed node' := bookkeeping.file written filed

theorem noteCommitted (batch : List CommittedEntry) : Filed (node.noteCommitted io batch) := by
  have frozen : Filed (node.freezeBase io batch) := by
    unfold freezeBase
    split
    · unfold writeMembership
      rw [if_pos written]
      rfl
    · exact filed
  unfold RaftConsensus.noteCommitted
  dsimp only
  split
  · exact frozen.of_eq rfl rfl
  · exact frozen

theorem applyCommittedTo (commit : Nat) : Filed (node.applyCommittedTo io commit).1 := by
  unfold RaftConsensus.applyCommittedTo
  dsimp only
  repeat' split
  all_goals try exact filed
  refine frame ?_ written (maybeCompact_upkeep _ io).frame.toBookkeeping
  refine noteCommitted ?_ written _
  exact filed

theorem handleAppendEntries (holds : Holds node.log node.log.whole) {prev : Nat} {entries : List RaftLogEntry}
    (consecutive : Consecutive (prev + 1) entries) :
    Filed (node.handleAppendEntries io term leaderId prev prevTerm entries commit).1 := by
  have accepted := filed.acceptLeader term leaderId
  rcases handleAppendEntries_splices holds io term leaderId prevTerm commit consecutive with
    same | same | ⟨next, kept, rest, spliced, _, same | same⟩
  · rwa [same]
  · rwa [same]
  · rw [same]
    exact accepted.frame written spliced.toBookkeeping
  · rw [same]
    have stored : Filed next := accepted.frame written spliced.toBookkeeping
    refine applyCommittedTo ?_ written _
    exact stored

theorem commitProposes (pending : List PendingPropose) (start : Nat) :
    Filed (node.commitProposes io pending start) := by
  have counted : Filed { node with
      state := advanceCommitIndex node.log node.id (node.awaitProposes pending start) } := filed.advance rfl
  unfold RaftConsensus.commitProposes
  dsimp only
  split
  · exact (counted.applyCommittedTo written _).of_eq rfl rfl
  · exact counted

theorem flushPendingProposes (holds : Holds node.log node.log.whole) : Filed (node.flushPendingProposes io).1 := by
  rcases flushPendingProposes_cases node io with ⟨pending, sent, _, same⟩ | ⟨_, queued, published⟩
  · rw [same]
    exact filed.of_eq rfl rfl
  · rw [published]
    have spliced : Spliced io node _ _ _ := publishProposes_spliced holds queued
    exact commitProposes (filed.frame written spliced.toBookkeeping) written _ _

theorem onAppendSuccess (peer matchIndex : Nat) : Filed (node.onAppendSuccess io peer matchIndex) := by
  unfold RaftConsensus.onAppendSuccess
  split
  · exact filed
  · have counted : Filed { node with
        state := advanceCommitIndex node.log node.id (recordMatch node.state peer matchIndex) } :=
      filed.advance rfl
    exact (counted.applyCommittedTo written _).of_eq rfl rfl

end Filed

/-- Every write of `MEMBERSHIP.meta` in the call succeeds. -/
def FilesMembership : Call → Prop
  | .appendEntries io _ | .onAppendSuccess io _ _ | .flushPendingProposes io | .buildInstallSnapshot io =>
    io.membershipWrite = true
  | _ => True

instance (call : Call) : Decidable (FilesMembership call) := by
  rcases call with ⟨⟩ <;> unfold FilesMembership <;> infer_instance

theorem Filed.call (filed : Filed node) (holds : Holds node.log node.log.whole) {call : Call}
    (regular : Regular node call) (written : FilesMembership call) : Filed (node.call call) := by
  cases call with
  | appendEntries io request => exact filed.handleAppendEntries written holds regular.1
  | installSnapshot io request => exact regular.elim
  | onAppendSuccess io peer matchIndex => exact filed.onAppendSuccess written peer matchIndex
  | onSnapshotSuccess peer index =>
    simp only [RaftConsensus.call, onSnapshotSuccess]
    split
    · exact filed
    · exact filed.advance rfl
  | flushPendingProposes io => exact filed.flushPendingProposes written holds
  | buildInstallSnapshot io => exact filed.frame written (buildInstallSnapshot_upkeep node io).frame.toBookkeeping
  | _ =>
    simp only [RaftConsensus.call, RaftConsensus.startElection, handleRequestVote, maybeStepDown, becomeLeader,
      onAppendFailure, onPeerUnreachable, ensurePeerCursors, propose]
    repeat' split
    all_goals exact filed

theorem restart_shape (shape : Holds node.log node.log.whole) (durable : Same node.log.reopen node.log)
    (live : node.state.membership = foldConfig boot node.log.whole) (filed : Filed node)
    (populated : node.state.membership.isEmpty = true → boot.isEmpty = true) (io : Io) (engine : Engine) :
    Holds (node.restart io boot engine).log (node.restart io boot engine).log.whole ∧
      (node.restart io boot engine).log.whole = node.log.whole ∧
      (node.restart io boot engine).state.baseMembership = foldConfig boot node.log.whole ∧
      (node.restart io boot engine).state.membership = foldConfig boot node.log.whole := by
  obtain ⟨snapshot, entries⟩ := same_iff.mp durable
  have whole : (node.restart io boot engine).log.whole = node.log.whole := by
    show node.log.compacted ++ node.log.reopen.entries = node.log.compacted ++ node.log.entries
    rw [entries]
  have reopened : Holds (node.restart io boot engine).log (node.restart io boot engine).log.whole := by
    rw [whole]
    refine ⟨?_, ?_, shape.consecutive, ?_, ?_⟩
    · show node.log.reopen.entries = node.log.whole.drop node.log.reopen.snapshot.lastIncludedIndex
      rw [entries, snapshot]
      exact shape.entries
    · show node.log.reopen.snapshot.lastIncludedIndex ≤ _
      rw [snapshot]
      exact shape.inside
    · show node.log.reopen.snapshot.lastIncludedTerm = termBefore _ node.log.reopen.snapshot.lastIncludedIndex
      rw [snapshot]
      exact shape.boundary
    · show node.log.compacted <:+ node.log.whole.take node.log.reopen.snapshot.lastIncludedIndex
      rw [snapshot]
      exact shape.compacted
  have base : (node.restart io boot engine).state.baseMembership = foldConfig boot node.log.whole := by
    show (if (node.membershipFile.getD boot).isEmpty && !boot.isEmpty then boot
      else node.membershipFile.getD boot) = _
    rw [filed, ← live]
    split
    · rename_i fallback
      rw [Bool.and_eq_true] at fallback
      rw [populated fallback.1] at fallback
      cases fallback.2
    · rfl
  refine ⟨reopened, whole, base, ?_⟩
  have replayed : (node.restart io boot engine).state.membership =
      foldConfig (node.restart io boot engine).state.baseMembership
        ((node.restart io boot engine).log.entriesFrom
          ((node.restart io boot engine).log.snapshot.lastIncludedIndex + 1)) := rfl
  rw [replayed, base, reopened.entriesFrom (le_of_eq (Nat.add_sub_cancel ..).symm), whole]
  refine replay_whole (by rw [take_length]) ?_ le_rfl
  rw [← whole]
  exact reopened.inside

def DropsNoChange (node : RaftConsensus) (request : AppendEntriesRequest) : Prop :=
  ∀ new ∈ request.entries, node.log.snapshot.lastIncludedIndex < new.index →
    (node.log.termAt new.index).any (fun term => decide (term ≠ new.term)) = true →
      ∀ old ∈ node.log.entries, new.index ≤ old.index → changesConfig old.command = false

instance : Decidable (DropsNoChange node request) :=
  inferInstanceAs (Decidable (∀ new ∈ request.entries, _ → _ → _))

theorem DropsNoChange.quiet {request : AppendEntriesRequest} (safe : DropsNoChange node request)
    (holds : Holds node.log node.log.whole) {kept : Nat} (retained : node.log.snapshot.lastIncludedIndex ≤ kept)
    {old new : RaftLogEntry} (there : node.log.whole[kept]? = some old) (member : new ∈ request.entries)
    (index : new.index = kept + 1) (conflict : old.term ≠ new.term) :
    ∀ entry ∈ node.log.whole.drop kept, changesConfig entry.command = false := by
  have read : node.log.termAt new.index = some old.term := by
    rw [holds.termAt (by omega) (by omega), index, Nat.add_sub_cancel, there]
    rfl
  intro entry dropped
  obtain ⟨k, found⟩ := getElem?_of_mem dropped
  rw [getElem?_drop] at found
  have position := holds.consecutive _ entry found
  refine safe new member (by omega) (by simp [read, conflict]) entry ?_ (by omega)
  rw [holds.entries]
  refine mem_of_getElem? (i := kept + k - node.log.snapshot.lastIncludedIndex) ?_
  rw [getElem?_drop, ← found]
  congr 1
  omega

theorem acceptLeader_memberships (term leaderId : Nat) :
    (node.acceptLeader term leaderId).state.membership = node.state.membership ∧
      (node.acceptLeader term leaderId).state.baseMembership = node.state.baseMembership := by
  unfold acceptLeader
  split <;> exact ⟨rfl, rfl⟩

theorem Spliced.live_of_quiet {kept : Nat} {rest : List RaftLogEntry} (spliced : Spliced io node node' kept rest)
    (base : node.state.baseMembership = foldConfig boot node.log.whole)
    (live : node.state.membership = foldConfig boot node.log.whole) (quiet : kept < node.log.whole.length →
      ∀ entry ∈ node.log.whole.drop kept, changesConfig entry.command = false) :
    node'.state.membership = foldConfig boot node'.log.whole := by
  have within := spliced.within
  rw [spliced.live, spliced.whole]
  split
  · rename_i shorter
    have covers : node.state.baseMembership = foldConfig boot ((node.log.whole.take kept).take kept) := by
      have parts := foldConfig_append boot (node.log.whole.take kept) (node.log.whole.drop kept)
      rw [take_append_drop, foldConfig_quiet _ (quiet shorter)] at parts
      rw [take_take, Nat.min_self, ← parts, base]
    have length : (node.log.whole.take kept).length = kept := by
      rw [length_take]
      omega
    rw [foldConfig_append, replay_whole covers spliced.retained length.ge, ← foldConfig_append]
  · rw [live, ← foldConfig_append, take_of_length_le (by omega)]

/-- A restarted node rolls back to the right membership when the truncated suffix changes none. -/
theorem membership_survives_restart (io : Io) (id : Nat) (boot : ClusterMembership) (threshold : Nat)
    (calls : List Call) (created : io.membershipWrite = true)
    (regular : Along call Regular (bootstrap io id boot threshold) calls)
    (flushed : Along call (fun _ => Flushes) (bootstrap io id boot threshold) calls)
    (filed : Along call (fun _ => FilesMembership) (bootstrap io id boot threshold) calls)
    (durable : Same (run call (bootstrap io id boot threshold) calls).log.reopen
      (run call (bootstrap io id boot threshold) calls).log)
    (populated : (run call (bootstrap io id boot threshold) calls).state.membership.isEmpty = true →
      boot.isEmpty = true) (restartIo : Io) (engine : Engine) (requestIo : Io) (request : AppendEntriesRequest)
    (consecutive : Consecutive (request.prevLogIndex + 1) request.entries)
    (safe : DropsNoChange ((run call (bootstrap io id boot threshold) calls).restart restartIo boot engine) request) :
    (((run call (bootstrap io id boot threshold) calls).restart restartIo boot engine).call
        (.appendEntries requestIo request)).state.membership =
      foldConfig boot (((run call (bootstrap io id boot threshold) calls).restart restartIo boot engine).call
        (.appendEntries requestIo request)).log.whole := by
  have reached := ((regular.and flushed).and filed).invariant (P := fun node => Tracked boot node ∧ Filed node)
    ⟨bootstrap_tracked io id boot threshold, by simp [Filed, bootstrap, newWithThreshold, created]⟩
    (fun node call held conditions => ⟨held.1.call conditions.1.1 conditions.1.2,
      held.2.call held.1.shape conditions.1.1 conditions.2⟩)
  generalize run call (bootstrap io id boot threshold) calls = node at *
  obtain ⟨tracked, current⟩ := reached
  obtain ⟨shape, whole, base, live⟩ :=
    restart_shape tracked.shape durable tracked.live current populated restartIo engine
  generalize node.restart restartIo boot engine = fresh at *
  rw [← whole] at base live
  have log := acceptLeader_log fresh request.term request.leaderId
  have accepted : (fresh.acceptLeader request.term request.leaderId).state.membership = fresh.state.membership ∧
      (fresh.acceptLeader request.term request.leaderId).state.baseMembership = fresh.state.baseMembership :=
    acceptLeader_memberships _ _
  obtain ⟨sameLive, sameBase⟩ := accepted
  simp only [RaftConsensus.call]
  rcases handleAppendEntries_splices shape requestIo request.term request.leaderId request.prevLogTerm
    request.leaderCommit consecutive with same | same | ⟨next, kept, rest, spliced, conflict, outcome⟩
  · rw [same, live]
  · rw [same, sameLive, log, live]
  have stored : next.state.membership = foldConfig boot next.log.whole := by
    refine spliced.live_of_quiet (by rw [sameBase, log, base]) (by rw [sameLive, log, live]) ?_
    have retained := spliced.retained
    rw [log] at retained ⊢
    intro shorter
    obtain ⟨old, new, there, member, index, different⟩ := conflict shorter
    exact safe.quiet shape retained there member index different
  rcases outcome with same | same
  · rw [same, stored]
  · have compacts := (commitTo_housekeeping next requestIo
      (followerCommit next.state.commitIndex request.leaderCommit next.log.lastIndex)).log
    rw [same, whole_compacts spliced.shape compacts, ← stored]
    exact applyCommittedTo_membership _ requestIo _

open Cluster (trio noopCommand)

def uncommittedChange : List Call :=
  [.appendEntries (reliable trio) ⟨1, 1, 0, 0, [⟨1, 1, addFour⟩, ⟨1, 2, noopCommand⟩], 0⟩]

def replaceBoth : AppendEntriesRequest := ⟨2, 2, 0, 0, [⟨2, 1, noopCommand⟩], 0⟩

theorem rolled_back_change_returns :
    let fresh := (run call (bootstrap (reliable trio) 3 trio 0) uncommittedChange).restart (reliable trio) trio ⟨0⟩
    (fresh.call (.appendEntries (reliable trio) replaceBoth)).log.whole = replaceBoth.entries ∧
      (fresh.call (.appendEntries (reliable trio) replaceBoth)).state.membership ≠
        foldConfig trio (fresh.call (.appendEntries (reliable trio) replaceBoth)).log.whole := by
  decide +kernel

def replaceSecond : AppendEntriesRequest := ⟨2, 2, 1, 1, [⟨2, 2, noopCommand⟩], 0⟩

theorem membership_survives_restart_replaceSecond :
    let fresh := (run call (bootstrap (reliable trio) 3 trio 0) uncommittedChange).restart (reliable trio) trio ⟨0⟩
    (fresh.call (.appendEntries (reliable trio) replaceSecond)).log.lastTerm = 2 ∧
      (fresh.call (.appendEntries (reliable trio) replaceSecond)).state.membership =
        foldConfig trio (fresh.call (.appendEntries (reliable trio) replaceSecond)).log.whole :=
  ⟨by decide +kernel, membership_survives_restart (reliable trio) 3 trio 0 uncommittedChange rfl
    (by decide +kernel) (by decide +kernel) (by decide +kernel)
    (same_iff.mpr ⟨by decide +kernel, by decide +kernel⟩) (by decide +kernel) (reliable trio) ⟨0⟩
    (reliable trio) replaceSecond (by decide +kernel) (by decide +kernel)⟩

end RaftConsensus

end Takyonic
