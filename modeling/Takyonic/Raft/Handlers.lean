import Takyonic.Raft.Housekeeping

namespace Takyonic

open Function RaftLog

theorem RaftLog.appendBatch_snapshot {log log' : RaftLog} {batch : List RaftLogEntry}
    (appended : log.appendBatch batch = .ok log') : log'.snapshot = log.snapshot := by
  unfold appendBatch at appended
  split at appended
  · cases appended
    rfl
  · split at appended
    · cases appended
    · cases appended
      rfl

namespace RaftConsensus

structure Steady (node node' : RaftConsensus) : Prop where
  id : node'.id = node.id
  term : node'.state.currentTerm = node.state.currentTerm
  vote : node'.state.votedFor = node.state.votedFor
  role : node'.state.role = node.state.role ∨
    node.state.role = .leader ∧ node'.state.role = .follower

namespace Steady

theorem of_eq {node node' : RaftConsensus} (id : node'.id = node.id)
    (term : node'.state.currentTerm = node.state.currentTerm) (vote : node'.state.votedFor = node.state.votedFor)
    (role : node'.state.role = node.state.role) : Steady node node' :=
  ⟨id, term, vote, .inl role⟩

theorem refl (node : RaftConsensus) : Steady node node := .of_eq rfl rfl rfl rfl

theorem trans {first second third : RaftConsensus} (before : Steady first second)
    (after : Steady second third) : Steady first third where
  id := after.id.trans before.id
  term := after.term.trans before.term
  vote := after.vote.trans before.vote
  role := Role.kept_trans before.role after.role

end Steady

variable {node' next node : RaftConsensus} {bound : Nat}

theorem Routine.steady (kept : Routine node node') : Steady node node' := ⟨kept.id, kept.term, kept.vote, kept.role⟩

theorem Housekeeping.steady (kept : Housekeeping node node') : Steady node node' := kept.toRoutine.steady

theorem tryCommit_foldl (log : RaftLog) (state : SoftState) (indices : List Nat) :
    ∃ n, indices.foldl (tryCommit log) state = { state with commitIndex := n } ∧
      (n = state.commitIndex ∨ n ∈ indices ∧ log.termAt n = some state.currentTerm ∧
        state.membership.quorum ≤ countMatch state n) := by
  induction indices generalizing state with
  | nil => exact ⟨state.commitIndex, rfl, .inl rfl⟩
  | cons index rest ih =>
    rw [List.foldl_cons]
    by_cases committed : log.termAt index = some state.currentTerm ∧
        state.membership.quorum ≤ countMatch state index
    · have taken : tryCommit log state index = { state with commitIndex := index } := by simp [tryCommit, committed]
      rw [taken]
      obtain ⟨n, result, known⟩ := ih { state with commitIndex := index }
      refine ⟨n, result, .inr ?_⟩
      rcases known with rfl | ⟨member, current, counted⟩
      · exact ⟨by simp, committed⟩
      · exact ⟨List.mem_cons_of_mem _ member, current, counted⟩
    · have skipped : tryCommit log state index = state := by
        unfold tryCommit
        split
        · rfl
        · rename_i current
          rw [if_neg (fun counted => committed ⟨not_not.mp current, counted⟩)]
      rw [skipped]
      obtain ⟨n, result, known⟩ := ih state
      refine ⟨n, result, known.imp_right ?_⟩
      rintro ⟨member, current, counted⟩
      exact ⟨List.mem_cons_of_mem _ member, current, counted⟩

theorem advanceCommitIndex_spec (log : RaftLog) (selfId : Nat) (state : SoftState) :
    ∃ base n, advanceCommitIndex log selfId state = { base with commitIndex := n } ∧
      (base = state ∨ state.role = .leader ∧ base = matchSelf log selfId state) ∧
      (n = state.commitIndex ∨ state.role = .leader ∧ base = matchSelf log selfId state ∧
        state.commitIndex < n ∧ n ≤ log.lastIndex ∧ log.termAt n = some state.currentTerm ∧
        state.membership.quorum ≤ countMatch base n) := by
  unfold advanceCommitIndex
  split
  · exact ⟨state, state.commitIndex, rfl, .inl rfl, .inl rfl⟩
  rename_i led
  have led := not_not.mp led
  obtain ⟨n, result, known⟩ := tryCommit_foldl log (matchSelf log selfId state)
    (List.range' (state.commitIndex + 1) (log.lastIndex - state.commitIndex))
  refine ⟨_, n, result, .inr ⟨led, rfl⟩, ?_⟩
  have frame : (matchSelf log selfId state).commitIndex = state.commitIndex ∧
      (matchSelf log selfId state).currentTerm = state.currentTerm ∧
      (matchSelf log selfId state).membership = state.membership := by
    unfold matchSelf
    split <;> exact ⟨rfl, rfl, rfl⟩
  rw [frame.1, frame.2.1, frame.2.2] at known
  rcases known with same | ⟨member, current, counted⟩
  · exact .inl same
  · rw [List.mem_range'_1] at member
    exact .inr ⟨led, rfl, by omega, by omega, current, counted⟩

theorem advanceCommitIndex_frame (log : RaftLog) (selfId : Nat) (state : SoftState) :
    ∃ matchIndex n, advanceCommitIndex log selfId state =
      { state with matchIndex := matchIndex, commitIndex := n } := by
  obtain ⟨base, n, result, shape, _⟩ := advanceCommitIndex_spec log selfId state
  rw [result]
  rcases shape with rfl | ⟨_, rfl⟩
  · exact ⟨base.matchIndex, n, rfl⟩
  · unfold matchSelf
    split
    · exact ⟨_, n, rfl⟩
    · exact ⟨state.matchIndex, n, rfl⟩

variable (node : RaftConsensus) (io : Io) {batch entries : List RaftLogEntry}
  {commit index term leaderId peer prev prevTerm indexTerm : Nat}

theorem propose_steady (command : RaftCommand) (tx : Nat) :
    Steady node (node.propose command tx).1 := by
  unfold propose
  repeat' split
  all_goals exact .of_eq rfl rfl rfl rfl

theorem propose_log (command : RaftCommand) (tx : Nat) :
    (node.propose command tx).1.log = node.log := by
  unfold propose
  repeat' split
  all_goals rfl

theorem Housekeeping.advanced {node : RaftConsensus} {state : SoftState}
    (kept : Housekeeping { node with state := advanceCommitIndex node.log node.id state } node')
    (term : state.currentTerm = node.state.currentTerm) (vote : state.votedFor = node.state.votedFor)
    (role : state.role = node.state.role) : Steady node node' := by
  obtain ⟨matchIndex, n, advanced⟩ := advanceCommitIndex_frame node.log node.id state
  rw [advanced] at kept
  refine .trans ?_ kept.steady
  exact .of_eq rfl term vote role

def awaitProposes (node : RaftConsensus) (pending : List PendingPropose) (start : Nat) : SoftState :=
  { node.state with
    waiters := node.state.waiters ++ (pending.zipIdx start).map (fun proposal => ⟨proposal.2, proposal.1.tx⟩)
    matchIndex := update node.state.matchIndex node.id (some node.log.lastIndex) }

section

variable (pending : List PendingPropose)

theorem commitProposes_advances (start : Nat) :
    Housekeeping { node with state := advanceCommitIndex node.log node.id (node.awaitProposes pending start) }
      (node.commitProposes io pending start) := by
  unfold commitProposes
  dsimp only
  split
  · exact (applyCommittedTo_housekeeping _ io le_rfl).trans (notifyWaiters_housekeeping _)
  · exact .refl _

theorem publishProposes_steady (start : Nat) :
    Steady node (node.publishProposes io pending start) :=
  (applyAppendedConfigChanges_upkeep node io _).housekeeping.steady.trans
    ((commitProposes_advances _ io pending start).advanced rfl rfl rfl)

theorem publishProposes_log (start : Nat) :
    Compacts node.log (node.publishProposes io pending start).log :=
  (applyAppendedConfigChanges_upkeep node io _).housekeeping.log.trans (commitProposes_advances _ io pending start).log

theorem commitProposes_membership (start : Nat) :
    (node.commitProposes io pending start).state.membership = node.state.membership := by
  have advanced : (advanceCommitIndex node.log node.id
      (node.awaitProposes pending start)).membership = node.state.membership := by
    obtain ⟨matchIndex, n, shape⟩ := advanceCommitIndex_frame node.log node.id (node.awaitProposes pending start)
    rw [shape]
    rfl
  unfold commitProposes
  dsimp only
  split
  · exact (applyCommittedTo_membership _ io _).trans advanced
  · exact advanced

end

def appendedLog (node : RaftConsensus) : RaftLog :=
  (node.log.appendCommands node.state.currentTerm (node.state.pending.map PendingPropose.encoded)).1

theorem flushPendingProposes_cases :
    (∃ pending sent, (pending = node.state.pending ∨ pending = []) ∧ (node.flushPendingProposes io).1 =
        { node with state := { node.state with pending := pending }, sent := sent }) ∨
      node.state.role = .leader ∧ node.state.pending ≠ [] ∧
        (node.flushPendingProposes io).1 = publishProposes { node with
          state := { node.state with pending := [] }
          log := node.appendedLog } io node.state.pending (node.log.lastIndex + 1) := by
  unfold flushPendingProposes
  split
  · exact .inl ⟨node.state.pending, node.sent, .inl rfl, rfl⟩
  rename_i active
  rw [not_or, not_not] at active
  split
  · exact .inl ⟨node.state.pending, node.sent, .inl rfl, rfl⟩
  rename_i queued
  dsimp only
  split
  · exact .inl ⟨[], _, .inr rfl, rfl⟩
  have nonempty : node.state.pending ≠ [] := fun empty => queued (by rw [empty]; rfl)
  have start : (node.log.appendCommands node.state.currentTerm
      (node.state.pending.map PendingPropose.encoded)).2 = node.log.lastIndex + 1 := by
    unfold appendCommands
    rw [if_neg (by simpa using nonempty)]
  rw [start]
  exact .inr ⟨active.1, nonempty, rfl⟩

theorem flushPendingProposes_steady : Steady node (node.flushPendingProposes io).1 := by
  rcases node.flushPendingProposes_cases io with ⟨pending, sent, _, same⟩ | ⟨_, _, published⟩
  · rw [same]
    exact .of_eq rfl rfl rfl rfl
  · rw [published]
    refine .trans ?_ (publishProposes_steady _ io _ _)
    exact .of_eq rfl rfl rfl rfl

theorem storeBatch_some (stored : node.storeBatch io batch = some next) :
    ∃ log, node.log.appendBatch batch = .ok log ∧ io.append batch = true ∧
      next = applyAppendedConfigChanges { node with log := log } io batch := by
  unfold storeBatch at stored
  split at stored
  · cases stored
  · rename_i durable
    split at stored
    · cases stored
    · rename_i log appended
      exact ⟨log, appended, by simpa using durable, (Option.some.inj stored).symm⟩

/-- Upkeep, or a change of the log behind its snapshot. -/
inductive Store (io : Io) (node : RaftConsensus) : RaftConsensus → Prop
  | upkeep {node' : RaftConsensus} (move : Move io node node') : Store io node node'
  | relog (log : RaftLog) (same : log.snapshot = node.log.snapshot) : Store io node { node with log }

def Stores (io : Io) : RaftConsensus → RaftConsensus → Prop := Relation.ReflTransGen (Store io)

variable {io} in
theorem Upkeep.stores {node : RaftConsensus} (upkeep : Upkeep io node node') : Stores io node node' := by
  induction upkeep with
  | refl => exact .refl
  | tail _ move ih => exact ih.tail (.upkeep move)

variable {io} in
theorem Stores.routine {node : RaftConsensus} (stores : Stores io node node') : Routine node node' := by
  induction stores with
  | refl => exact .refl node
  | tail _ step ih =>
    refine ih.trans ?_
    cases step with
    | upkeep move => exact move.housekeeping.toRoutine
    | relog log same => exact .of_eq rfl rfl rfl rfl rfl rfl rfl rfl same

theorem storeBatch_stores (stored : node.storeBatch io batch = some next) : Stores io node next := by
  obtain ⟨log, appended, _, rfl⟩ := storeBatch_some node io stored
  exact .head (.relog log (appendBatch_snapshot appended)) (applyAppendedConfigChanges_upkeep _ io _).stores

theorem storeEntries_stores (snapIdx : Nat) (entries toAppend : List RaftLogEntry) (truncated : Bool) :
    Stores io node (storeEntries io snapIdx entries node toAppend truncated).node := by
  induction entries generalizing node toAppend truncated with
  | nil => exact .refl
  | cons entry rest ih =>
    unfold storeEntries
    split
    · exact ih node toAppend truncated
    split
    · split
      · split
        · exact .head (.relog (node.log.truncateAfter _) rfl) (ih _ _ _)
        · split
          · exact .refl
          · rename_i stored
            exact (storeBatch_stores node io stored).trans (.head (.relog (truncateAfter _ _) rfl) (ih _ _ _))
      · exact ih node toAppend truncated
    · split
      · exact ih node _ truncated
      · split
        · exact .refl
        · exact ih node toAppend truncated

theorem finishStore_cases (toAppend : List RaftLogEntry) (truncated : Bool) :
    ∃ rolled, rolled = (if truncated then node.rebuildMembershipFromLog io else node) ∧
      (toAppend = [] ∧ finishStore io (.scanned node toAppend truncated) = (rolled, true) ∨
        toAppend ≠ [] ∧ rolled.storeBatch io toAppend = none ∧
          finishStore io (.scanned node toAppend truncated) = (rolled, false) ∨
        ∃ next, toAppend ≠ [] ∧ rolled.storeBatch io toAppend = some next ∧
          finishStore io (.scanned node toAppend truncated) = (next, true)) := by
  refine ⟨_, rfl, ?_⟩
  unfold finishStore
  dsimp only
  generalize (if truncated then node.rebuildMembershipFromLog io else node) = rolled
  cases toAppend with
  | nil => exact .inl ⟨rfl, rfl⟩
  | cons entry rest =>
    cases stored : rolled.storeBatch io (entry :: rest) with
    | none => exact .inr (.inl ⟨by simp, rfl, by simp⟩)
    | some next => exact .inr (.inr ⟨next, by simp, rfl, by simp⟩)

theorem finishStore_stores (result : StoreResult) : Stores io result.node (finishStore io result).1 := by
  cases result with
  | stopped node => exact .refl
  | scanned node toAppend truncated =>
    obtain ⟨rolled, rollback, outcome⟩ := finishStore_cases node io toAppend truncated
    have rebuilt : Stores io node rolled := by
      rw [rollback]
      split
      · exact (rebuildMembershipFromLog_upkeep node io).stores
      · exact .refl
    rcases outcome with ⟨_, finished⟩ | ⟨_, _, finished⟩ | ⟨next, _, stored, finished⟩ <;> rw [finished]
    · exact rebuilt
    · exact rebuilt
    · exact rebuilt.trans (storeBatch_stores rolled io stored)

theorem acceptLeader_log (term leaderId : Nat) :
    (node.acceptLeader term leaderId).log = node.log := by
  unfold acceptLeader
  split <;> rfl

theorem acceptLeader_id : (node.acceptLeader term leaderId).id = node.id := by
  unfold acceptLeader
  split <;> rfl

theorem acceptLeader_within (within : node.Within bound) (term leaderId : Nat) :
    (node.acceptLeader term leaderId).Within bound := by
  unfold acceptLeader
  split <;> exact within

omit io in
/-- What an answer to a vote request is: a refusal, as the node was or in the later term, or the vote. -/
theorem handleRequestVote_rule {motive : RaftConsensus → Nat → Bool → Prop} {term candidateId lastIndex lastTerm : Nat}
    (refused : motive node node.state.currentTerm false)
    (later : node.state.currentTerm < term → motive (node.becomeFollower term none) term false)
    (granted : node.state.currentTerm < term → node.log.isUpToDate lastIndex lastTerm →
      motive { node.becomeFollower term none with
        state := { (node.becomeFollower term none).state with votedFor := some candidateId } } term true)
    (voted : node.state.currentTerm = term → node.log.isUpToDate lastIndex lastTerm →
      (∀ other, node.state.votedFor = some other → other = candidateId) →
        motive { node with state := { node.state with votedFor := some candidateId } } node.state.currentTerm true) :
    let reply := node.handleRequestVote term candidateId lastIndex lastTerm
    motive reply.1 reply.2.1 reply.2.2 := by
  unfold handleRequestVote
  split
  · exact refused
  split
  · exact refused
  split
  · exact refused
  dsimp only
  by_cases higher : node.state.currentTerm < term
  · rw [if_pos higher]
    split
    · rename_i eligible
      rw [Bool.and_eq_true] at eligible
      exact granted higher eligible.1
    · exact later higher
  · rw [if_neg higher]
    split
    · rename_i eligible
      rw [Bool.and_eq_true] at eligible
      refine voted (by omega) eligible.1 fun other held => ?_
      simpa [held] using eligible.2
    · exact refused

theorem handleAppendEntries_stale (stale : term < node.state.currentTerm) :
    node.handleAppendEntries io term leaderId prev prevTerm entries commit =
      (node, node.state.currentTerm, false, 0) := by
  unfold handleAppendEntries
  rw [if_pos stale]

theorem handleInstallSnapshot_stale (stale : term < node.state.currentTerm) :
    node.handleInstallSnapshot io term leaderId index indexTerm data done = (node, .ok node.state.currentTerm) := by
  unfold handleInstallSnapshot
  rw [if_pos stale]

def commitTo (node : RaftConsensus) (io : Io) (commit : Nat) : RaftConsensus :=
  (applyCommittedTo { node with state := { node.state with commitIndex := commit } } io commit).1

theorem commitTo_housekeeping (commit : Nat) :
    Housekeeping { node with state := { node.state with commitIndex := commit } } (node.commitTo io commit) :=
  applyCommittedTo_housekeeping _ io le_rfl

/-- The entries are stored, the commit index may follow the leader, and what is committed is applied. -/
theorem handleAppendEntries_cases (fresh : node.state.currentTerm ≤ term) (leaderId prev prevTerm : Nat)
    (entries : List RaftLogEntry) (commit : Nat) :
    let result := (node.handleAppendEntries io term leaderId prev prevTerm entries commit).1
    ∃ stored, Stores io (node.acceptLeader term leaderId) stored ∧ (result = stored ∨
      ∃ n, (n = stored.state.commitIndex ∨ n ≤ commit) ∧ result = stored.commitTo io n) := by
  unfold handleAppendEntries
  rw [if_neg (by omega)]
  dsimp only
  generalize node.acceptLeader term leaderId = accepted
  split
  · exact ⟨accepted, .refl, .inl rfl⟩
  have stores := (storeEntries_stores accepted io accepted.log.snapshotMeta.lastIncludedIndex
    entries [] false).trans (finishStore_stores io _)
  split
  all_goals
    rename_i stored finished
    rw [finished] at stores
    refine ⟨stored, stores, ?_⟩
  · exact .inl rfl
  · split
    · exact .inr ⟨_, .inr (Nat.min_le_left _ _), rfl⟩
    · exact .inr ⟨_, .inl rfl, rfl⟩

theorem handleAppendEntries_steady (term leaderId prev prevTerm : Nat) (entries : List RaftLogEntry)
    (commit : Nat) (fresh : node.state.currentTerm ≤ term) :
    Steady (node.acceptLeader term leaderId)
      (node.handleAppendEntries io term leaderId prev prevTerm entries commit).1 := by
  obtain ⟨stored, stores, same | ⟨n, _, same⟩⟩ :=
    node.handleAppendEntries_cases io fresh leaderId prev prevTerm entries commit
  all_goals
    rw [same]
    refine stores.routine.steady.trans ?_
  · exact .refl stored
  · refine .trans ?_ (commitTo_housekeeping stored io n).steady
    exact .of_eq rfl rfl rfl rfl

theorem handleAppendEntries_boundary (term leaderId prev prevTerm : Nat) (entries : List RaftLogEntry)
    (commit : Nat) : node.log.snapshot.lastIncludedIndex ≤
      (node.handleAppendEntries io term leaderId prev prevTerm entries commit).1.log.snapshot.lastIncludedIndex := by
  by_cases stale : term < node.state.currentTerm
  · rw [handleAppendEntries_stale node io stale]
  rw [← acceptLeader_log node term leaderId]
  obtain ⟨stored, stores, same | ⟨n, _, same⟩⟩ :=
    node.handleAppendEntries_cases io (le_of_not_gt stale) leaderId prev prevTerm entries commit
  all_goals
    rw [same]
    refine stores.routine.boundary.trans ?_
  · exact le_rfl
  · exact (commitTo_housekeeping stored io n).boundary

theorem handleAppendEntries_within (within : node.Within bound) (committed : commit ≤ bound) :
    (node.handleAppendEntries io term leaderId prev prevTerm entries commit).1.Within bound := by
  by_cases stale : term < node.state.currentTerm
  · rw [handleAppendEntries_stale node io stale]
    exact within
  obtain ⟨stored, stores, same | ⟨n, moved, same⟩⟩ :=
    node.handleAppendEntries_cases io (le_of_not_gt stale) leaderId prev prevTerm entries commit
  all_goals
    rw [same]
    have inside := stores.routine.within bound (acceptLeader_within node within term leaderId)
  · exact inside
  · refine (commitTo_housekeeping stored io n).within bound ⟨?_, inside.2⟩
    rcases moved with rfl | le
    · exact inside.1
    · exact le.trans committed

theorem acceptLeader_follows : (node.acceptLeader term leaderId).state.role = .follower := by
  unfold acceptLeader
  split
  · rfl
  · rename_i same
    rw [not_or, not_not] at same
    exact same.2

theorem Steady.follows {node : RaftConsensus} (kept : Steady node node') (follows : node.state.role = .follower) :
    node'.state.role = .follower := by
  rcases kept.role with same | ⟨_, retired⟩
  · rw [same, follows]
  · exact retired

theorem handleInstallSnapshot_log (term leaderId index indexTerm : Nat) (data : Foundation.Bytes)
    (done : Bool) (fresh : node.state.currentTerm ≤ term) :
    let result := node.handleInstallSnapshot io term leaderId index indexTerm data done
    (result.1.log = node.log ∨
        done = true ∧ result.1.log = node.log.installSnapshot index indexTerm) ∧
      (∀ reply, result.2 = .ok reply →
        reply = term ∧ (done = true → result.1.log = node.log.installSnapshot index indexTerm)) := by
  unfold handleInstallSnapshot
  rw [if_neg (by omega)]
  cases done with
  | false =>
    refine ⟨.inl rfl, fun reply answered => ?_⟩
    cases answered
    exact ⟨rfl, nofun⟩
  | true =>
    rw [if_neg (by simp)]
    split
    · exact ⟨.inl rfl, nofun⟩
    · exact ⟨.inl rfl, nofun⟩
    · split
      · exact ⟨.inl rfl, nofun⟩
      split
      · refine ⟨.inr ⟨rfl, rfl⟩, fun reply answered => ?_⟩
        cases answered
        exact ⟨rfl, fun _ => rfl⟩
      unfold writeMembership
      split
      all_goals
        refine ⟨.inr ⟨rfl, rfl⟩, fun reply answered => ?_⟩
        cases answered
        exact ⟨rfl, fun _ => rfl⟩

theorem handleInstallSnapshot_steady (term leaderId index indexTerm : Nat) (data : Foundation.Bytes)
    (done : Bool) (fresh : node.state.currentTerm ≤ term) :
    Steady (node.becomeFollower term (some leaderId))
      (node.handleInstallSnapshot io term leaderId index indexTerm data done).1 := by
  unfold handleInstallSnapshot
  rw [if_neg (by omega)]
  dsimp only
  generalize node.becomeFollower term (some leaderId) = stepped
  split
  · exact .of_eq rfl rfl rfl rfl
  split
  · exact .of_eq rfl rfl rfl rfl
  · exact .of_eq rfl rfl rfl rfl
  · split
    · exact .of_eq rfl rfl rfl rfl
    · split
      · exact .of_eq rfl rfl rfl rfl
      · refine .trans ?_ (writeMembership_housekeeping _ io).steady
        exact .of_eq rfl rfl rfl rfl

theorem handleInstallSnapshot_within (within : node.Within bound) (included : index ≤ bound) :
    (node.handleInstallSnapshot io term leaderId index indexTerm data done).1.Within bound := by
  unfold handleInstallSnapshot
  split
  · exact within
  dsimp only
  split
  · exact within
  split
  · exact within
  · exact ⟨within.1, included, within.2.2⟩
  · split
    · exact ⟨within.1, included, within.2.2⟩
    · split
      · exact ⟨Nat.max_le.mpr ⟨within.1, included⟩, included, included⟩
      · refine (writeMembership_housekeeping _ io).within bound ?_
        exact ⟨Nat.max_le.mpr ⟨within.1, included⟩, included, included⟩

def recordMatch (state : SoftState) (peer matchIndex : Nat) : SoftState :=
  { state with
    matchIndex := update state.matchIndex peer (some matchIndex)
    nextIndex := update state.nextIndex peer (some (matchIndex + 1)) }

theorem onAppendSuccess_advances (leads : node.state.role = .leader) (peer matchIndex : Nat) :
    Housekeeping { node with state := advanceCommitIndex node.log node.id (recordMatch node.state peer matchIndex) }
      (node.onAppendSuccess io peer matchIndex) := by
  unfold onAppendSuccess
  rw [if_neg (not_not.mpr leads)]
  exact (applyCommittedTo_housekeeping _ io le_rfl).trans (notifyWaiters_housekeeping _)

theorem onSnapshotSuccess_advances (leads : node.state.role = .leader) (peer index : Nat) :
    node.onSnapshotSuccess peer index =
      { node with state := advanceCommitIndex node.log node.id (recordMatch node.state peer index) } := by
  unfold onSnapshotSuccess
  rw [if_neg (not_not.mpr leads)]
  rfl

theorem onAppendSuccess_steady (peer matchIndex : Nat) :
    Steady node (node.onAppendSuccess io peer matchIndex) := by
  by_cases leads : node.state.role = .leader
  · exact (onAppendSuccess_advances node io leads peer matchIndex).advanced rfl rfl rfl
  · rw [onAppendSuccess, if_pos leads]
    exact .refl node

theorem onAppendSuccess_log (peer matchIndex : Nat) :
    Compacts node.log (node.onAppendSuccess io peer matchIndex).log := by
  by_cases leads : node.state.role = .leader
  · exact (onAppendSuccess_advances node io leads peer matchIndex).log
  · rw [onAppendSuccess, if_pos leads]
    exact .refl

theorem onSnapshotSuccess_log (peer index : Nat) :
    (node.onSnapshotSuccess peer index).log = node.log := by
  unfold onSnapshotSuccess
  split <;> rfl

theorem onSnapshotSuccess_steady (peer index : Nat) :
    Steady node (node.onSnapshotSuccess peer index) := by
  by_cases leads : node.state.role = .leader
  · rw [onSnapshotSuccess_advances node leads]
    exact (Housekeeping.refl _).advanced rfl rfl rfl
  · rw [onSnapshotSuccess, if_pos leads]
    exact .refl node

theorem onPeerUnreachable_housekeeping (peer : Nat) :
    Housekeeping node (node.onPeerUnreachable peer) := by
  unfold onPeerUnreachable
  split
  · exact .refl node
  · exact .of_eq rfl rfl rfl rfl rfl rfl rfl rfl rfl

theorem ensurePeerCursors_housekeeping (peer : Nat) :
    Housekeeping node (node.ensurePeerCursors peer) := by
  unfold ensurePeerCursors
  split
  · exact .refl node
  refine { id := rfl, term := rfl, vote := rfl, commit := rfl, pending := rfl, role := .inl rfl,
           log := .refl, progress := ?_, boundary := le_rfl, within := fun _ within => within }
  intro other n known
  simp only [update_apply] at known
  split at known
  · rename_i same
    cases recorded : node.state.matchIndex other with
    | none => simp_all
    | some m => simp_all
  · exact .inr known

theorem forceBoundary_upkeep (forced : node.forceBoundary io = .ok next) :
    Upkeep io node next := by
  unfold forceBoundary at forced
  repeat' split at forced
  all_goals cases forced
  · exact .refl
  · exact .single (.compact ‹_›)

theorem buildInstallSnapshot_upkeep : Upkeep io node (node.buildInstallSnapshot io).1 := by
  unfold buildInstallSnapshot
  split
  · exact .refl
  split
  · exact .refl
  · rename_i next forced
    have kept := forceBoundary_upkeep node io forced
    dsimp only
    repeat' split
    all_goals exact kept

theorem buildInstallSnapshot_built {node : RaftConsensus} {io : Io}
    {result : Except TakyonicError (Nat × Nat × Nat × Nat × Foundation.Bytes)}
    (built : node.buildInstallSnapshot io = (node', result)) : Housekeeping node node' := by
  have kept := buildInstallSnapshot_upkeep node io
  rw [built] at kept
  exact kept.housekeeping

theorem leaderPeerCursor_leads {node : RaftConsensus}
    (cursor : node.leaderPeerCursor peer = some (term, leaderId, prev, prevTerm, entries, commit)) :
    node.state.role = .leader ∧ term = node.state.currentTerm ∧ leaderId = node.id ∧
      commit = node.state.commitIndex := by
  unfold leaderPeerCursor at cursor
  split at cursor
  · cases cursor
  rename_i leads
  dsimp only at cursor
  split at cursor
  · cases cursor
  · cases cursor
    exact ⟨not_not.mp leads, rfl, rfl, rfl⟩

theorem buildInstallSnapshot_leads {node : RaftConsensus} {io : Io} {data : Foundation.Bytes}
    (built : node.buildInstallSnapshot io = (next, .ok (term, leaderId, index, indexTerm, data))) :
    node.state.role = .leader ∧ term = node.state.currentTerm ∧ leaderId = node.id ∧
      index = next.log.snapshot.lastIncludedIndex := by
  unfold buildInstallSnapshot at built
  split at built
  · cases built
  rename_i leads
  split at built
  · cases built
  rename_i bounded forced
  have kept := (forceBoundary_upkeep node io forced).housekeeping
  dsimp only at built
  split at built
  · cases built
  · split at built
    · cases built
    · cases built
      exact ⟨not_not.mp leads, kept.term, kept.id, rfl⟩

/-- What a message of a leader makes of a node. -/
def Obeys (node next : RaftConsensus) : Prop := next = node ∨ next.id = node.id ∧ next.state.role = .follower

theorem handleAppendEntries_obeys :
    Obeys node (node.handleAppendEntries io term leaderId prev prevTerm entries commit).1 := by
  by_cases stale : term < node.state.currentTerm
  · exact .inl (by rw [handleAppendEntries_stale _ _ stale])
  · have kept := handleAppendEntries_steady node io term leaderId prev prevTerm entries commit (by omega)
    exact .inr ⟨kept.id.trans (acceptLeader_id _), kept.follows (acceptLeader_follows _)⟩

theorem handleInstallSnapshot_obeys :
    Obeys node (node.handleInstallSnapshot io term leaderId index indexTerm data done).1 := by
  by_cases stale : term < node.state.currentTerm
  · exact .inl (by rw [handleInstallSnapshot_stale _ _ stale])
  · have kept := handleInstallSnapshot_steady node io term leaderId index indexTerm data done (by omega)
    exact .inr ⟨kept.id, kept.follows rfl⟩

/-- What a reply of another term, or a refused append, makes of a node. -/
inductive Retreats (node : RaftConsensus) : RaftConsensus → Prop
  | down {term : Nat} (later : node.state.currentTerm < term) : Retreats node (node.becomeFollower term none)
  | stay (nextIndex : Nat → Option Nat) : Retreats node { node with state := { node.state with nextIndex } }

theorem maybeStepDown_retreats : Retreats node (node.maybeStepDown term) := by
  unfold maybeStepDown
  split
  · exact .down (by assumption)
  · exact .stay _

theorem onAppendFailure_retreats : Retreats node (node.onAppendFailure peer term hint) := by
  unfold onAppendFailure
  split
  · exact .down (by assumption)
  · split <;> exact .stay _

theorem startElection_frame (node : RaftConsensus) :
    node.startElection.1.id = node.id ∧
      node.startElection.1.state.membership = node.state.membership ∧
      node.startElection.1.log = node.log ∧ node.startElection.1.engine = node.engine ∧
      node.startElection.1.state.commitIndex = node.state.commitIndex ∧
      node.startElection.1.state.matchIndex = node.state.matchIndex := by
  unfold startElection
  split <;> exact ⟨rfl, rfl, rfl, rfl, rfl, rfl⟩

theorem startElection_stands (node : RaftConsensus) :
    node.startElection.1.state.role = node.state.role ∧
        node.startElection.1.state.currentTerm = node.state.currentTerm ∨
      node.startElection.1.state.role = .candidate ∧
        node.state.currentTerm < node.startElection.1.state.currentTerm := by
  unfold startElection
  split
  · exact .inl ⟨rfl, rfl⟩
  · exact .inr ⟨rfl, Nat.lt_succ_self _⟩

theorem startElection_request (node : RaftConsensus) :
    node.startElection.2 = (node.startElection.1.state.currentTerm, node.log.lastIndex, node.log.lastTerm) := by
  unfold startElection
  split <;> rfl

end RaftConsensus

end Takyonic
