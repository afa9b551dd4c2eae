import Takyonic.Raft.Refinement

namespace Takyonic

open Foundation List RaftLog

def DatedWithin (entries : List RaftLogEntry) (t : Nat) : Prop := ∀ entry ∈ entries, entry.term ≤ t

namespace RaftConsensus

variable {node node' : RaftConsensus} {io : Io}

/-- The log of a node is older than its term, strictly so while the node stands for election; a
    candidate has no proposals queued. -/
structure Dated (node : RaftConsensus) : Prop where
  log : ∃ full, Represents node.log full ∧ DatedWithin full node.state.currentTerm ∧
    (node.state.role = .candidate → ∀ entry ∈ full, entry.term < node.state.currentTerm)
  active : node.state.role ≠ .follower → 1 ≤ node.state.currentTerm
  idle : node.state.role = .candidate → node.state.pending = []

variable {full entries : List RaftLogEntry} {indexTerm leaderId peer index term : Nat}

namespace Dated

theorem settled (settled : node.state.role ≠ .candidate)
    (active : node.state.role ≠ .follower → 1 ≤ node.state.currentTerm) (represents : Represents node.log full)
    (dated : DatedWithin full node.state.currentTerm) :
    Dated node where
  log := ⟨full, represents, dated, fun stands => absurd stands settled⟩
  active := active
  idle := fun stands => absurd stands settled

theorem follower (follows : node.state.role = .follower) (represents : Represents node.log full)
    (dated : DatedWithin full node.state.currentTerm) : Dated node :=
  .settled (by rw [follows]; decide) (fun working => absurd follows working) represents dated

def boundaryLog (index term : Nat) : List RaftLogEntry :=
  numbered term 1 (List.replicate index [])

theorem installSnapshot_holds (log : RaftLog) (below : 0 < index) {commands : List Bytes}
    (length : commands.length = index) :
    Holds (log.installSnapshot index term) (numbered term 1 commands) := by
  have lengths : (numbered term 1 commands).length = index := (numbered_length _ _ _).trans length
  refine .installSnapshot log (numbered_consecutive _ _ _) lengths ?_
  have last : index - 1 < (numbered term 1 commands).length := by omega
  have there := numbered_term term 1 commands _ (getElem_mem last)
  simp [termBefore, ne_of_gt below, List.getElem?_eq_getElem last, there]

theorem boundaryLog_represents (log : RaftLog) (below : 0 < index) (positive : 1 ≤ term) :
    Represents (log.installSnapshot index term) (boundaryLog index term) where
  toHolds := installSnapshot_holds log below length_replicate
  positive := fun entry member => (numbered_term _ _ _ entry member).symm ▸ positive

variable (dated : Dated node)
include dated

theorem steady (kept : Steady node node') (log : Compacts node.log node'.log)
    (queue : node.state.role = .candidate → node'.state.pending = node.state.pending) : Dated node' := by
  obtain ⟨full, represents, within, older⟩ := dated.log
  refine ⟨⟨full, represents.compacts log, by rwa [kept.term], fun stands => ?_⟩, ?_, fun stands => ?_⟩
  · rw [kept.term]
    exact older (Role.was kept.role stands nofun)
  · intro working
    rw [kept.term]
    exact dated.active (Role.was kept.role rfl working ▸ working)
  · have stood := Role.was kept.role stands nofun
    rw [queue stood]
    exact dated.idle stood

theorem housekeeping (kept : Housekeeping node node') : Dated node' :=
  dated.steady kept.steady kept.log (fun _ => kept.pending)

variable {term index prev prevTerm commit : Nat}

theorem becomeFollower (later : node.state.currentTerm ≤ term) (leader : Option Nat) :
    Dated (node.becomeFollower term leader) := by
  obtain ⟨full, represents, within, _⟩ := dated.log
  exact .follower rfl represents (fun entry member => (within entry member).trans later)

theorem startElection : Dated node.startElection.1 := by
  unfold RaftConsensus.startElection
  split
  · exact dated
  · obtain ⟨full, represents, within, _⟩ := dated.log
    refine ⟨⟨full, represents, ?_, ?_⟩, ?_, fun _ => rfl⟩
    · exact fun entry member => (within entry member).trans (Nat.le_succ _)
    · exact fun _ entry member => Nat.lt_succ_of_le (within entry member)
    · exact fun _ => Nat.succ_pos _

theorem handleRequestVote (term candidateId lastLogIndex lastLogTerm : Nat) :
    Dated (node.handleRequestVote term candidateId lastLogIndex lastLogTerm).1 := by
  refine handleRequestVote_rule node (motive := fun next _ _ => Dated next) dated ?_ ?_ ?_
  · exact fun later => dated.becomeFollower later.le none
  · intro later _
    have follows := dated.becomeFollower later.le none
    exact ⟨follows.log, follows.active, follows.idle⟩
  · exact fun _ _ _ => ⟨dated.log, dated.active, dated.idle⟩

theorem handleAppendEntries (io : Io)
    (consecutive : Consecutive (prev + 1) entries) (bounds : ∀ entry ∈ entries, 1 ≤ entry.term ∧ entry.term ≤ term) :
    Dated (node.handleAppendEntries io term leaderId prev prevTerm entries commit).1 := by
  obtain ⟨full, represents, within, _⟩ := dated.log
  by_cases stale : term < node.state.currentTerm
  · rwa [RaftConsensus.handleAppendEntries_stale _ _ stale]
  have fresh : node.state.currentTerm ≤ term := by omega
  have steady := handleAppendEntries_steady node io term leaderId prev prevTerm entries commit fresh
  have current := steady.term.trans (acceptLeader_term leaderId fresh)
  obtain ⟨full', after, outcome⟩ := handleAppendEntries_spec io represents fresh consecutive
    (fun entry member => (bounds entry member).1)
  refine .follower (steady.follows (acceptLeader_follows _)) after ?_
  rw [current]
  intro entry member
  have old : entry ∈ full → entry.term ≤ term := fun there => (within entry there).trans fresh
  rcases outcome with ⟨_, rfl, _⟩ | ⟨_, _, rfl, _⟩ | ⟨_, _, rfl, _⟩
  · exact old member
  · exact old (mem_cut member)
  · rcases mem_overwrite member with there | new
    · exact old there
    · exact (bounds entry (mem_of_mem_drop new)).2

theorem handleInstallSnapshot (io : Io) (below : 0 < index) (positive : 1 ≤ indexTerm) (included : indexTerm ≤ term)
    (data : Bytes) (done : Bool) :
    Dated (node.handleInstallSnapshot io term leaderId index indexTerm data done).1 := by
  by_cases stale : term < node.state.currentTerm
  · rwa [RaftConsensus.handleInstallSnapshot_stale _ _ stale]
  have fresh : node.state.currentTerm ≤ term := by omega
  have steady := handleInstallSnapshot_steady node io term leaderId index indexTerm data done fresh
  have follows := steady.follows rfl
  have current : _ = term := steady.term
  rcases (handleInstallSnapshot_log node io term leaderId index indexTerm data done fresh).1 with
    same | ⟨_, installed⟩
  · obtain ⟨full, represents, within, _⟩ := dated.log
    refine .follower follows (same ▸ represents) ?_
    rw [current]
    exact fun entry member => (within entry member).trans fresh
  · refine .follower follows (installed ▸ boundaryLog_represents node.log below positive) ?_
    rw [current]
    intro entry member
    rw [numbered_term _ _ _ entry member]
    exact included

theorem becomeLeader (term : Nat) : Dated (node.becomeLeader term) := by
  unfold RaftConsensus.becomeLeader
  split
  · exact dated
  · rename_i eligible
    push Not at eligible
    obtain ⟨full, represents, within, _⟩ := dated.log
    refine .settled (by simp) (fun _ => ?_) represents within
    exact dated.active (by rw [eligible.2]; decide)

theorem propose (command : RaftCommand) (tx : Nat) : Dated (node.propose command tx).1 := by
  unfold RaftConsensus.propose
  repeat' split
  all_goals try exact dated
  rename_i leads
  refine ⟨dated.log, dated.active, fun stands => absurd stands ?_⟩
  rw [not_not.mp leads]
  decide

theorem flushPendingProposes (io : Io) : Dated (node.flushPendingProposes io).1 := by
  obtain ⟨full, represents, within, _⟩ := dated.log
  have steady := flushPendingProposes_steady node io
  rcases flushPendingProposes_cases node io with ⟨pending, sent, queue, same⟩ | ⟨leads, _⟩
  · refine dated.steady steady ?_ (fun stands => ?_)
    · rw [same]
      exact .refl
    · rw [same]
      rcases queue with rfl | rfl
      · rfl
      · exact (dated.idle stands).symm
  · have working : node.state.role ≠ .follower := by rw [leads]; decide
    obtain ⟨entries, appended, own, _⟩ :=
      flushPendingProposes_represents represents io (fun _ => dated.active working)
    refine .settled ?_ (fun _ => ?_) appended (fun entry member => ?_)
    · intro stands
      rw [Role.was steady.role stands nofun] at leads
      cases leads
    · rw [steady.term]
      exact dated.active working
    · rw [steady.term]
      rcases mem_append.mp member with old | new
      · exact within entry old
      · exact (own entry new).le

theorem onAppendSuccess (io : Io) (peer matchIndex : Nat) : Dated (node.onAppendSuccess io peer matchIndex) := by
  refine dated.steady (onAppendSuccess_steady node io _ _) (onAppendSuccess_log node io _ _) (fun stands => ?_)
  unfold RaftConsensus.onAppendSuccess
  rw [if_pos (by rw [stands]; decide)]

theorem onSnapshotSuccess (peer index : Nat) : Dated (node.onSnapshotSuccess peer index) := by
  refine dated.steady (onSnapshotSuccess_steady node _ _) ?_ (fun stands => ?_)
  · rw [onSnapshotSuccess_log]
    exact .refl
  · unfold RaftConsensus.onSnapshotSuccess
    rw [if_pos (by rw [stands]; decide)]

theorem retreat {next : RaftConsensus} (retreats : node.Retreats next) : Dated next := by
  cases retreats with
  | down later => exact dated.becomeFollower later.le none
  | stay _ => exact ⟨dated.log, dated.active, dated.idle⟩

end Dated

theorem requestFor_dated (dated : Dated node) {request : AppendEntriesRequest}
    (built : Cluster.requestFor node peer = some request) :
    Consecutive (request.prevLogIndex + 1) request.entries ∧
      ∀ entry ∈ request.entries, 1 ≤ entry.term ∧ entry.term ≤ request.term := by
  obtain ⟨full, represents, within, _⟩ := dated.log
  have batch := requestFor_batch represents built
  have term := (leaderPeerCursor_leads (Cluster.requestFor_cursor built)).2.1
  refine ⟨batch.consecutive represents.wellNumbered, fun entry member => ?_⟩
  refine ⟨batch.positive represents.wellNumbered entry member, ?_⟩
  rw [term]
  rw [batch.1] at member
  exact within entry (mem_of_mem_drop (mem_of_mem_take member))

theorem termBefore_mem (below : 0 < index) (inside : index ≤ full.length) :
    ∃ entry ∈ full, termBefore full index = entry.term := by
  have last : index - 1 < full.length := by omega
  refine ⟨full[index - 1], getElem_mem last, ?_⟩
  simp [termBefore, ne_of_gt below, List.getElem?_eq_getElem last]

theorem buildInstallSnapshot_dated (dated : Dated node) {data : Bytes}
    (built : node.buildInstallSnapshot io = (node', .ok (term, leaderId, index, indexTerm, data))) :
    0 < index ∧ 1 ≤ indexTerm ∧ indexTerm ≤ term := by
  obtain ⟨full, represents, within, _⟩ := dated.log
  obtain ⟨below, inside, boundary⟩ := buildInstallSnapshot_boundary represents built
  obtain ⟨entry, member, last⟩ := termBefore_mem below inside
  rw [boundary, last, (buildInstallSnapshot_leads built).2.1]
  exact ⟨below, represents.positive entry member, within entry member⟩

end RaftConsensus

namespace Cluster

open RaftConsensus

variable {cluster : Cluster}

def DatedMessage : Message → Prop
  | .appendEntries _ request => Consecutive (request.prevLogIndex + 1) request.entries ∧
      ∀ entry ∈ request.entries, 1 ≤ entry.term ∧ entry.term ≤ request.term
  | .installSnapshot _ request => 0 < request.lastIncludedIndex ∧ 1 ≤ request.lastIncludedTerm ∧
      request.lastIncludedTerm ≤ request.term
  | _ => True

structure Chronology (cluster : Cluster) : Prop where
  dated : ∀ i, Dated (cluster.nodes i)
  messages : ∀ message ∈ cluster.net, DatedMessage message

namespace Chronology

variable {i candidate term : Nat} {node : RaftConsensus}

variable (history : Chronology cluster)
include history

theorem act {sent : List Message} (dated : Dated node) (messages : ∀ message ∈ sent, DatedMessage message) :
    Chronology (cluster.act i node sent) where
  dated := forall_act (P := fun _ => Dated) dated (fun j _ => history.dated j)
  messages := forall_mem_append.mpr ⟨history.messages, messages⟩

theorem reply {message : Message} (dated : Dated node) (trivially : DatedMessage message) :
    Chronology (cluster.act i node [message]) :=
  history.act dated (fun _ member => mem_singleton.mp member ▸ trivially)

theorem silent (dated : Dated node) : Chronology (cluster.act i node []) :=
  history.act dated (fun _ member => absurd member not_mem_nil)

theorem tally {votes : Finset Nat} : Chronology (cluster.tally candidate term votes) :=
  ⟨history.dated, history.messages⟩

theorem step (label : Label) : Chronology (cluster.step label) := by
  have stepped := cluster.step_stepped label
  generalize cluster.step label = after at stepped ⊢
  cases stepped with
  | idle => exact history
  | @runElection i =>
    refine tally (history.act (history.dated i).startElection (fun message member => ?_))
    unfold electionMessages at member
    split at member
    · rw [mem_singleton.mp member]
      trivial
    · obtain ⟨peer, _, rfl⟩ := mem_map.mp member
      trivial
  | requestVote _ => exact history.reply ((history.dated _).handleRequestVote _ _ _ _) trivial
  | appendEntries sent =>
    obtain ⟨consecutive, bounds⟩ := history.messages _ sent
    exact history.reply ((history.dated _).handleAppendEntries _ consecutive bounds) trivial
  | installSnapshot sent answers =>
    obtain ⟨below, positive, included⟩ := history.messages _ sent
    refine history.act ((history.dated _).handleInstallSnapshot _ below positive included _ _) fun reply member => ?_
    obtain ⟨_, _, _, rfl⟩ := answers reply member
    trivial
  | maybeStepDown _ _ => exact history.silent ((history.dated _).retreat (maybeStepDown_retreats _))
  | recordVoteGranted _ =>
    refine tally (history.act (history.dated _) (fun message member => ?_))
    split at member
    · rw [mem_singleton.mp member]
      trivial
    · cases member
  | becomeLeader _ => exact history.silent ((history.dated _).becomeLeader _)
  | onAppendSuccess _ => exact history.silent ((history.dated _).onAppendSuccess _ _ _)
  | onAppendFailure _ => exact history.silent ((history.dated _).retreat (onAppendFailure_retreats _))
  | onSnapshotSuccess _ => exact history.silent ((history.dated _).onSnapshotSuccess _ _)
  | onPeerUnreachable => exact history.silent ((history.dated _).housekeeping (onPeerUnreachable_housekeeping _ _))
  | ensurePeerCursors => exact history.silent ((history.dated _).housekeeping (ensurePeerCursors_housekeeping _ _))
  | propose => exact history.silent ((history.dated _).propose _ _)
  | flushPendingProposes => exact history.silent ((history.dated _).flushPendingProposes _)
  | sendAppendEntries _ built => exact history.reply (history.dated _) (requestFor_dated (history.dated _) built)
  | sendSnapshot _ built =>
    refine history.act ((history.dated _).housekeeping (buildInstallSnapshot_built built)) (fun message member => ?_)
    obtain ⟨chunk, _, rfl⟩ := mem_map.mp member
    exact buildInstallSnapshot_dated (history.dated _) built
  | buildFailed built => exact history.silent ((history.dated _).housekeeping (buildInstallSnapshot_built built))

end Chronology

theorem start_chronology (io : Io) (membership : ClusterMembership) (threshold : Nat → Nat) :
    Chronology (start io membership threshold) where
  dated := fun _ => .follower rfl .create (by simp [DatedWithin])
  messages := by simp [start]

theorem run_chronology (io : Io) (membership : ClusterMembership) (threshold : Nat → Nat) (labels : List Label) :
    Chronology (run step (start io membership threshold) labels) := by
  have allowed : ∀ label ∈ labels, True := fun _ _ => True.intro
  apply run_invariant allowed (start_chronology io membership threshold)
  exact fun _ label history _ => history.step label

end Cluster

end Takyonic
