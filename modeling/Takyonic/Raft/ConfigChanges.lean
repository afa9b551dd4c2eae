import Takyonic.Raft.Chronology
import Takyonic.Raft.ElectionSafety

namespace Takyonic

open Foundation List RaftCommand RaftLog

theorem RaftLog.Compacts.sublist {log log' : RaftLog} (compacts : Compacts log log') :
    log'.entries.Sublist log.entries := by
  refine compacts.preserve (P := fun after => after.entries.Sublist log.entries) (.refl _) ?_
  intro before after index term kept compacted
  unfold compactThrough at compacted
  split at compacted
  · cases compacted
    exact kept
  split at compacted
  · cases compacted
    exact kept
  split at compacted
  · cases compacted
  · cases compacted
    exact filter_sublist.trans kept

namespace RaftConsensus

variable {node node' first second third : RaftConsensus} {io : Io}

def uncommittedChanges (node : RaftConsensus) : Nat :=
  node.log.entries.countP (fun entry => decide (node.state.commitIndex < entry.index) &&
    decide (entry.term = node.state.currentTerm) && changesConfig entry.command)

def queuedChanges (node : RaftConsensus) : Nat :=
  node.state.pending.countP (fun proposal => changesConfig proposal.encoded)

def openChanges (node : RaftConsensus) : Nat := node.uncommittedChanges + node.queuedChanges

theorem uncommittedChanges_le (entries : node'.log.entries.Sublist node.log.entries)
    (commit : node.state.commitIndex ≤ node'.state.commitIndex)
    (term : node'.state.currentTerm = node.state.currentTerm) :
    node'.uncommittedChanges ≤ node.uncommittedChanges := by
  refine le_trans (countP_mono_left fun entry _ counted => ?_) (entries.countP_le)
  simp only [Bool.and_eq_true, decide_eq_true_eq, term] at counted ⊢
  exact ⟨⟨by omega, counted.1.2⟩, counted.2⟩

def Reigns (node node' : RaftConsensus) : Prop :=
  node'.state.role = .leader → node.state.role = .leader ∧ node'.openChanges ≤ node.openChanges

namespace Reigns

theorem refl (node : RaftConsensus) : Reigns node node := fun leads => ⟨leads, le_rfl⟩

theorem trans (before : Reigns first second) (after : Reigns second third) : Reigns first third := by
  intro leads
  obtain ⟨led, fewer⟩ := after leads
  exact ⟨(before led).1, fewer.trans (before led).2⟩

theorem follower (follows : node'.state.role ≠ .leader) : Reigns node node' :=
  fun leads => absurd leads follows

theorem of_le (role : node'.state.role = .leader → node.state.role = .leader)
    (entries : node'.log.entries.Sublist node.log.entries)
    (commit : node.state.commitIndex ≤ node'.state.commitIndex)
    (term : node'.state.currentTerm = node.state.currentTerm)
    (pending : node'.state.pending.Sublist node.state.pending) : Reigns node node' := by
  intro leads
  have stored := uncommittedChanges_le entries commit term
  have queued : node'.queuedChanges ≤ node.queuedChanges := pending.countP_le
  exact ⟨role leads, Nat.add_le_add stored queued⟩

theorem of_eq (role : node'.state.role = node.state.role) (log : node'.log = node.log)
    (commit : node'.state.commitIndex = node.state.commitIndex)
    (term : node'.state.currentTerm = node.state.currentTerm)
    (pending : node'.state.pending = node.state.pending) : Reigns node node' :=
  .of_le (fun leads => role ▸ leads) (log ▸ .refl _) commit.ge term (pending ▸ .refl _)

end Reigns

theorem Housekeeping.reigns (kept : Housekeeping node node') : Reigns node node' := by
  refine .of_le (fun leads => ?_) kept.log.sublist kept.commit.ge kept.term (kept.pending ▸ .refl _)
  rcases kept.role with same | ⟨led, _⟩
  · rw [← same, leads]
  · exact led

theorem advanceCommitIndex_reigns (state : SoftState) (role : state.role = node.state.role)
    (commit : state.commitIndex = node.state.commitIndex)
    (term : state.currentTerm = node.state.currentTerm) (pending : state.pending = node.state.pending) :
    Reigns node { node with state := advanceCommitIndex node.log node.id state } := by
  obtain ⟨matchIndex, n, shape⟩ := advanceCommitIndex_frame node.log node.id state
  obtain ⟨_, m, reached, _, advanced⟩ := advanceCommitIndex_spec node.log node.id state
  have raised : state.commitIndex ≤ n := by
    have same : n = m := by
      rw [shape] at reached
      exact congrArg SoftState.commitIndex reached
    omega
  rw [shape]
  exact .of_le (fun leads => role ▸ leads) (.refl _) (commit ▸ raised) term (pending ▸ .refl _)

theorem becomeFollower_reigns (term : Nat) (leader : Option Nat) :
    Reigns node (node.becomeFollower term leader) := .follower (by simp [becomeFollower, dropProposals])

theorem Retreats.reigns (retreats : Retreats node node') : Reigns node node' := by
  cases retreats with
  | down _ => exact becomeFollower_reigns _ _
  | stay _ => exact .of_eq rfl rfl rfl rfl rfl

theorem startElection_reigns : Reigns node node.startElection.1 := by
  unfold startElection
  split
  · exact .refl node
  · exact .follower (by simp [dropProposals])

theorem handleRequestVote_reigns :
    Reigns node (node.handleRequestVote term candidateId lastLogIndex lastLogTerm).1 := by
  have follows : Reigns node (node.becomeFollower term none) := becomeFollower_reigns term none
  refine handleRequestVote_rule node (motive := fun next _ _ => Reigns node next) (.refl node) ?_ ?_ ?_
  · exact fun _ => follows
  · exact fun _ _ => follows.trans (.of_eq rfl rfl rfl rfl rfl)
  · exact fun _ _ _ => .of_eq rfl rfl rfl rfl rfl

theorem Obeys.reigns (obeys : Obeys node node') : Reigns node node' := by
  rcases obeys with rfl | ⟨-, follows⟩
  · exact .refl _
  · exact .follower (by rw [follows]; decide)

theorem onAppendSuccess_reigns : Reigns node (node.onAppendSuccess io peer matchIndex) := by
  by_cases leads : node.state.role = .leader
  · have kept := onAppendSuccess_advances node io leads peer matchIndex
    exact (advanceCommitIndex_reigns (recordMatch node.state peer matchIndex) rfl rfl rfl rfl).trans kept.reigns
  · unfold onAppendSuccess
    rw [if_pos leads]
    exact .refl node

theorem onSnapshotSuccess_reigns (peer index : Nat) : Reigns node (node.onSnapshotSuccess peer index) := by
  by_cases leads : node.state.role = .leader
  · rw [onSnapshotSuccess_advances node leads]
    exact advanceCommitIndex_reigns _ rfl rfl rfl rfl
  · unfold onSnapshotSuccess
    rw [if_pos leads]
    exact .refl node

theorem numbered_countP (term start : Nat) (commands : List Bytes) :
    (numbered term start commands).countP (fun entry => changesConfig entry.command) =
      commands.countP changesConfig := by
  induction commands generalizing start with
  | nil => rfl
  | cons command rest ih => simp [numbered, countP_cons, ih]

theorem appendedLog_changes :
    ({ node with state := { node.state with pending := [] }, log := node.appendedLog } :
      RaftConsensus).openChanges ≤ node.openChanges := by
  unfold openChanges queuedChanges
  rw [countP_nil, add_zero]
  unfold uncommittedChanges appendedLog appendCommands
  split
  · exact Nat.le_add_right _ _
  dsimp only [extend]
  rw [countP_append]
  refine Nat.add_le_add_left ?_ _
  calc List.countP _ _
      ≤ List.countP (fun entry => changesConfig entry.command)
          (numbered node.state.currentTerm (node.log.lastIndex + 1) (node.state.pending.map PendingPropose.encoded)) :=
        countP_mono_left (fun entry _ counted => (Bool.and_eq_true _ _ ▸ counted).2)
    _ = node.queuedChanges := by
        rw [numbered_countP, countP_map]
        rfl

theorem publishProposes_reigns : Reigns node (node.publishProposes io pending start) := by
  unfold publishProposes
  generalize (List.range' start pending.length).filterMap node.log.entry = appended
  have changed := (applyAppendedConfigChanges_upkeep node io appended).housekeeping.reigns
  generalize node.applyAppendedConfigChanges io appended = middle at changed ⊢
  have counted := advanceCommitIndex_reigns (middle.awaitProposes pending start) rfl rfl rfl rfl
  exact changed.trans (counted.trans (commitProposes_advances middle io pending start).reigns)

theorem flushPendingProposes_reigns : Reigns node (node.flushPendingProposes io).1 := by
  rcases flushPendingProposes_cases node io with ⟨pending, sent, queue, same⟩ | ⟨leads, _, published⟩
  · rw [same]
    refine .of_le (fun leads => leads) (.refl _) le_rfl rfl ?_
    rcases queue with rfl | rfl
    · exact .refl _
    · exact nil_sublist _
  · rw [published]
    exact Reigns.trans (fun _ => ⟨leads, appendedLog_changes⟩) publishProposes_reigns

theorem uncommittedChanges_eq_zero (dated : Dated node) (none : node.hasUncommittedConfigChange = false) :
    node.uncommittedChanges = 0 := by
  obtain ⟨full, represents, _⟩ := dated.log
  unfold uncommittedChanges
  rw [countP_eq_zero]
  intro entry member counted
  simp only [Bool.and_eq_true, decide_eq_true_eq] at counted
  obtain ⟨held, found⟩ := represents.mem_entries member
  have last : entry.index ≤ node.log.lastIndex := by
    have := (List.getElem?_eq_some_iff.mp found).1
    rw [represents.lastIndex]
    omega
  have read : node.log.entry entry.index = some entry := by rw [represents.entry, if_pos held, found]
  unfold hasUncommittedConfigChange at none
  rw [any_eq_false] at none
  refine none entry.index ?_ ?_
  · rw [mem_range'_1]
    omega
  · rw [read]
    exact counted.2

def QueueClear (node : RaftConsensus) (command : RaftCommand) : Prop :=
  command.isConfigChange = true → ∀ proposal ∈ node.state.pending, changesConfig proposal.encoded = false

instance : Decidable (QueueClear node command) := inferInstanceAs (Decidable (_ → _))

theorem propose_openChanges (dated : Dated node) {command : RaftCommand} (clear : QueueClear node command)
    (single : node.state.role = .leader → node.openChanges ≤ 1) (tx : Nat)
    (leads : (node.propose command tx).1.state.role = .leader) :
    (node.propose command tx).1.openChanges ≤ 1 := by
  have led : node.state.role = .leader := by
    rcases (propose_steady node command tx).role with same | ⟨led, _⟩
    · rw [← same, leads]
    · exact led
  unfold propose
  split
  · exact single led
  rename_i admitted
  split
  · exact single led
  rename_i encoded built
  split
  · exact single led
  split
  · exact single led
  unfold openChanges queuedChanges
  rw [countP_append, countP_singleton]
  split
  · rename_i changes
    have config := changesConfig_encode built changes
    have stored : node.uncommittedChanges = 0 := by
      refine uncommittedChanges_eq_zero dated ?_
      simpa [config] using admitted
    have queued : List.countP (fun proposal => changesConfig proposal.encoded) node.state.pending = 0 := by
      rw [countP_eq_zero]
      exact fun proposal member => by simp [clear config proposal member]
    rw [queued]
    exact (Nat.add_le_add_right stored.le _).trans le_rfl
  · exact single led

theorem noopProposal_queued : noopProposal.countP (fun proposal => changesConfig proposal.encoded) = 0 := by
  decide +kernel

theorem becomeLeader_openChanges (dated : Dated node) (term : Nat)
    (single : node.state.role = .leader → node.openChanges ≤ 1)
    (leads : (node.becomeLeader term).state.role = .leader) :
    (node.becomeLeader term).openChanges ≤ 1 := by
  unfold becomeLeader at leads ⊢
  by_cases kept : node.state.currentTerm ≠ term ∨ node.state.role ≠ .candidate
  · rw [if_pos kept] at leads ⊢
    exact single leads
  rw [if_neg kept]
  rw [not_or, not_not, not_not] at kept
  obtain ⟨full, represents, _, older⟩ := dated.log
  have stored : node.uncommittedChanges = 0 := by
    unfold uncommittedChanges
    rw [countP_eq_zero]
    intro entry member counted
    simp only [Bool.and_eq_true, decide_eq_true_eq] at counted
    have := older kept.2 entry (mem_of_getElem? (represents.mem_entries member).2)
    omega
  unfold openChanges queuedChanges
  rw [dated.idle kept.2, nil_append]
  exact stored.le.trans (Nat.zero_le 1)

end RaftConsensus

namespace Cluster

open RaftConsensus

variable {cluster : Cluster}

def ChangesQueuedAlone (cluster : Cluster) : Label → Prop
  | .propose i command _ => QueueClear (cluster.nodes i) command
  | _ => True

instance : Decidable (ChangesQueuedAlone cluster label) := by
  rcases label with ⟨⟩ <;> unfold ChangesQueuedAlone <;> infer_instance

def OneChange (cluster : Cluster) : Prop :=
  ∀ i, (cluster.nodes i).state.role = .leader → (cluster.nodes i).openChanges ≤ 1

section

variable (single : OneChange cluster) {i candidate term : Nat} {node : RaftConsensus} {sent : List Message}
include single

theorem OneChange.act
    (here : node.state.role = .leader → node.openChanges ≤ 1) : OneChange (cluster.act i node sent) :=
  forall_act (P := fun _ node => node.state.role = .leader → node.openChanges ≤ 1) here (fun j _ => single j)

theorem OneChange.reigns (reigns : Reigns (cluster.nodes i) node) : OneChange (cluster.act i node sent) := by
  refine single.act (fun leads => ?_)
  obtain ⟨led, fewer⟩ := reigns leads
  exact fewer.trans (single i led)

theorem OneChange.tally {votes : Finset Nat} :
    OneChange (cluster.tally candidate term votes) := single

theorem OneChange.step (history : Chronology cluster) {label : Label} (alone : ChangesQueuedAlone cluster label) :
    OneChange (cluster.step label) := by
  have stepped := cluster.step_stepped label
  generalize cluster.step label = after at stepped ⊢
  cases stepped with
  | idle => exact single
  | runElection => exact tally (single.reigns startElection_reigns)
  | requestVote _ => exact single.reigns handleRequestVote_reigns
  | appendEntries _ => exact single.reigns (handleAppendEntries_obeys ..).reigns
  | installSnapshot _ _ => exact single.reigns (handleInstallSnapshot_obeys ..).reigns
  | maybeStepDown _ _ => exact single.reigns (maybeStepDown_retreats _).reigns
  | recordVoteGranted _ => exact tally (single.reigns (.refl _))
  | becomeLeader _ => exact single.act (becomeLeader_openChanges (history.dated _) _ (single _))
  | onAppendSuccess _ => exact single.reigns onAppendSuccess_reigns
  | onAppendFailure _ => exact single.reigns (onAppendFailure_retreats _).reigns
  | onSnapshotSuccess _ => exact single.reigns (onSnapshotSuccess_reigns _ _)
  | onPeerUnreachable => exact single.reigns (onPeerUnreachable_housekeeping _ _).reigns
  | ensurePeerCursors => exact single.reigns (ensurePeerCursors_housekeeping _ _).reigns
  | propose => exact single.act (propose_openChanges (history.dated _) alone (single _) _)
  | flushPendingProposes => exact single.reigns flushPendingProposes_reigns
  | sendAppendEntries _ _ => exact single.reigns (.refl _)
  | sendSnapshot _ built | buildFailed built => exact single.reigns (buildInstallSnapshot_built built).reigns

end

/-- One configuration change at a time, in every run whose leaders admit no change while another one
    waits in their queue. -/
theorem one_config_change (io : Io) (membership : ClusterMembership) (threshold : Nat → Nat)
    (labels : List Label) (alone : Along step ChangesQueuedAlone (start io membership threshold) labels)
    (i : Nat) (leads : ((run step (start io membership threshold) labels).nodes i).state.role = .leader) :
    ((run step (start io membership threshold) labels).nodes i).uncommittedChanges ≤ 1 := by
  have reached := alone.invariant (P := fun cluster => Chronology cluster ∧ OneChange cluster)
    ⟨start_chronology io membership threshold, fun i leads => by cases leads⟩
    (fun cluster label held alone => ⟨held.1.step label, held.2.step held.1 alone⟩)
  exact (Nat.le_add_right _ _).trans (reached.2 i leads)

def queuedTwice : List Label :=
  firstTerm ++ [.propose 1 (.addNode 4 "n4:9000") 7, .propose 1 (.addNode 5 "n5:9000") 8,
    .flushPendingProposes (Io.reliable trio) 1]

theorem two_config_changes_open :
    ((run step (start (Io.reliable trio) trio (fun _ => 1)) queuedTwice).nodes 1).state.role = .leader ∧
      ((run step (start (Io.reliable trio) trio (fun _ => 1)) queuedTwice).nodes 1).uncommittedChanges = 2 := by
  decide +kernel

def flushedBetween : List Label :=
  firstTerm ++ [.propose 1 (.addNode 4 "n4:9000") 7, .flushPendingProposes (Io.reliable trio) 1,
    .propose 1 (.addNode 5 "n5:9000") 8, .flushPendingProposes (Io.reliable trio) 1]

theorem one_config_change_flushedBetween :
    ((run step (start (Io.reliable trio) trio (fun _ => 1)) flushedBetween).nodes 1).state.role = .leader ∧
      ((run step (start (Io.reliable trio) trio (fun _ => 1)) flushedBetween).nodes 1).uncommittedChanges ≤ 1 :=
  ⟨by decide +kernel, one_config_change (Io.reliable trio) trio (fun _ => 1) flushedBetween (by decide +kernel) 1
    (by decide +kernel)⟩

end Cluster

end Takyonic
