import Takyonic.Raft.Cluster
import Takyonic.Raft.Handlers

namespace Takyonic

open RaftConsensus List

namespace Cluster

def Granted (cluster : Cluster) (voter term candidate : Nat) : Prop :=
  .voteReply voter candidate term term true ∈ cluster.net

def Backed (membership : ClusterMembership) (cluster : Cluster) (candidate term : Nat) : Prop :=
  ∃ supporters ⊆ membership.members, membership.quorum ≤ supporters.card ∧
    ∀ voter ∈ supporters, voter = candidate ∨ cluster.Granted voter term candidate

structure Polls (membership : ClusterMembership) (cluster : Cluster) : Prop where
  ids : ∀ i, (cluster.nodes i).id = i
  member : ∀ i, (cluster.nodes i).state.role = .candidate → i ∈ membership.members
  asked : ∀ voter request, .requestVote voter request ∈ cluster.net → voter ≠ request.candidateId
  apart : ∀ voter term candidate, cluster.Granted voter term candidate → voter ≠ candidate
  counted : ∀ candidate term voter, voter ∈ cluster.votes candidate term →
    voter ∈ membership.members ∧ cluster.Granted voter term candidate
  backed : ∀ candidate term, .elected candidate term ∈ cluster.net → Backed membership cluster candidate term

variable {membership : ClusterMembership} {cluster : Cluster} {candidate term i : Nat} {node : RaftConsensus}
  {sent : List Message}

theorem Backed.mono {larger : Cluster} (backed : Backed membership cluster candidate term)
    (sent : ∀ message ∈ cluster.net, message ∈ larger.net) : Backed membership larger candidate term := by
  obtain ⟨supporters, members, quorum, votes⟩ := backed
  refine ⟨supporters, members, quorum, fun voter counted => ?_⟩
  exact (votes voter counted).imp_right (sent _)

def Fair (membership : ClusterMembership) (cluster : Cluster) : Message → Prop
  | .requestVote voter request => voter ≠ request.candidateId
  | .voteReply voter candidate _ _ granted => granted = true → voter ≠ candidate
  | .elected candidate term => Backed membership cluster candidate term
  | _ => True

structure PollStep (membership : ClusterMembership) (cluster : Cluster) (i : Nat)
    (node : RaftConsensus) (sent : List Message) : Prop where
  id : node.id = i
  member : node.state.role = .candidate → i ∈ membership.members
  fair : ∀ message ∈ sent, Fair membership cluster message

theorem Polls.act (polls : Polls membership cluster) (ok : PollStep membership cluster i node sent) :
    Polls membership (cluster.act i node sent) := by
  have grows : ∀ message ∈ cluster.net, message ∈ (cluster.act i node sent).net :=
    fun _ member => mem_append_left _ member
  refine { ids := ?_, member := ?_, asked := ?_, apart := ?_, counted := ?_, backed := ?_ }
  · exact forall_act (P := fun j node => node.id = j) ok.id (fun j _ => polls.ids j)
  · exact forall_act (P := fun j node => node.state.role = .candidate → j ∈ membership.members) ok.member
      (fun j _ => polls.member j)
  · intro voter request asked
    rcases mem_append.mp asked with old | new
    · exact polls.asked voter request old
    · exact ok.fair _ new
  · intro voter term candidate granted
    rcases mem_append.mp granted with old | new
    · exact polls.apart voter term candidate old
    · exact ok.fair _ new rfl
  · intro candidate term voter counted
    obtain ⟨member, granted⟩ := polls.counted candidate term voter counted
    exact ⟨member, grows _ granted⟩
  · intro candidate term elected
    rcases mem_append.mp elected with old | new
    · exact (polls.backed candidate term old).mono grows
    · exact Backed.mono (ok.fair _ new) grows

theorem Polls.tally (polls : Polls membership cluster) {votes : Finset Nat}
    (counted : ∀ voter ∈ votes, voter ∈ membership.members ∧ cluster.Granted voter term candidate) :
    Polls membership (cluster.tally candidate term votes) := by
  refine { polls with counted := ?_ }
  intro other otherTerm voter member
  rcases mem_tally _ _ _ _ member with old | ⟨rfl, rfl, new⟩
  · exact polls.counted other otherTerm voter old
  · exact counted voter new

theorem sole_voter (candidate term : Nat) (alone : membership.peersExcept candidate = ∅)
    (small : membership.quorum ≤ 1) : Backed membership cluster candidate term := by
  have only : ∀ id ∈ membership.members, id = candidate := by
    intro id member
    by_contra other
    have peer : id ∈ membership.peersExcept candidate := Finset.mem_erase.mpr ⟨other, member⟩
    rw [alone] at peer
    simp at peer
  have someone : ∃ id, id ∈ membership.members := by
    by_contra nobody
    have empty : membership.members = ∅ := Finset.eq_empty_of_forall_notMem (not_exists.mp nobody)
    simp [ClusterMembership.quorum, ClusterMembership.isEmpty, ClusterMembership.len, empty,
      ClusterMembership.usizeMax] at small
  obtain ⟨id, member⟩ := someone
  obtain rfl := only id member
  exact ⟨{id}, by simpa using member, by simpa using small, by simp⟩

theorem electionMessages_fair (node : RaftConsensus) (request : RequestVoteRequest) (i : Nat)
    (fixed : node.state.membership = membership) (id : node.id = i) (own : request.candidateId = i) :
    ∀ message ∈ electionMessages node request, Fair membership cluster message := by
  intro message sent
  unfold electionMessages peers at sent
  rw [fixed, id] at sent
  split at sent
  · rename_i alone
    obtain rfl := mem_singleton.mp sent
    exact sole_voter i request.term alone.1 alone.2
  obtain ⟨peer, listed, rfl⟩ := mem_map.mp sent
  have peers : peer ∈ membership.peersExcept i := by simpa [ascending] using (mem_filter.mp listed).2
  show peer ≠ request.candidateId
  rw [own]
  exact (Finset.mem_erase.mp peers).1

section

variable (polls : Polls membership cluster)
include polls

theorem Polls.startElection (i : Nat) (fixed : (cluster.nodes i).state.membership = membership)
    (stands : (cluster.nodes i).startElection.1.state.role = .candidate) : i ∈ membership.members := by
  unfold RaftConsensus.startElection at stands
  split at stands
  · exact polls.member i stands
  · rename_i allowed
    simp only [fixed, Bool.or_eq_true, Bool.not_eq_eq_eq_not, Bool.not_true, not_or,
      Bool.not_eq_false, ClusterMembership.contains, decide_eq_true_eq, polls.ids i] at allowed
    exact allowed.2

theorem Polls.recordVoteGranted {voter : Nat} (fixed : (cluster.nodes candidate).state.membership = membership)
    (granted : cluster.Granted voter term candidate) :
    let result := (cluster.nodes candidate).recordVoteGranted term voter (cluster.votes candidate term)
    (∀ id ∈ result.1, id ∈ membership.members ∧ cluster.Granted id term candidate) ∧
      (result.2 = true → Backed membership cluster candidate term) := by
  unfold RaftConsensus.recordVoteGranted
  split
  · exact ⟨polls.counted candidate term, nofun⟩
  split
  · exact ⟨polls.counted candidate term, nofun⟩
  rename_i active foreign
  simp only [not_or, not_not] at active
  have distinct := polls.apart _ _ _ granted
  have voterMember : voter ∈ membership.members := by
    simpa [fixed, ClusterMembership.contains, polls.ids candidate, distinct] using foreign
  have supporters : ∀ id ∈ insert voter (cluster.votes candidate term),
      id ∈ membership.members ∧ cluster.Granted id term candidate := by
    intro id member
    rcases Finset.mem_insert.mp member with rfl | member
    · exact ⟨voterMember, granted⟩
    · exact polls.counted candidate term id member
  refine ⟨supporters, fun won => ?_⟩
  have absent : candidate ∉ insert voter (cluster.votes candidate term) := by
    intro member
    exact polls.apart _ _ _ (supporters candidate member).2 rfl
  refine ⟨insert candidate (insert voter (cluster.votes candidate term)), ?_, ?_, ?_⟩
  · intro id member
    rcases Finset.mem_insert.mp member with rfl | member
    · exact polls.member _ active.1
    · exact (supporters id member).1
  · rw [Finset.card_insert_of_notMem absent]
    simpa [fixed] using won
  · intro id member
    rcases Finset.mem_insert.mp member with rfl | member
    · exact .inl rfl
    · exact .inr (supporters id member).2

theorem PollStep.steady (kept : Steady (cluster.nodes i) node)
    (fair : ∀ message ∈ sent, Fair membership cluster message) : PollStep membership cluster i node sent where
  id := kept.id.trans (polls.ids i)
  member := by
    intro stands
    exact polls.member i (Role.was kept.role stands nofun)
  fair := fair

theorem PollStep.follower (id : node.id = (cluster.nodes i).id) (follows : node.state.role = .follower)
    (fair : ∀ message ∈ sent, Fair membership cluster message) : PollStep membership cluster i node sent where
  id := id.trans (polls.ids i)
  member := by
    intro stands
    rw [follows] at stands
    cases stands
  fair := fair

theorem Polls.handleRequestVote {voter : Nat} {request : RequestVoteRequest}
    (asked : .requestVote voter request ∈ cluster.net) :
    let reply := (cluster.nodes voter).handleRequestVote request.term request.candidateId
      request.lastLogIndex request.lastLogTerm
    PollStep membership cluster voter reply.1
      [.voteReply voter request.candidateId request.term reply.2.1 reply.2.2] := by
  have distinct := polls.asked voter request asked
  have fair : ∀ term granted, ∀ message ∈
      [Message.voteReply voter request.candidateId request.term term granted], Fair membership cluster message := by
    simp [Fair, distinct]
  refine handleRequestVote_rule _ (motive := fun node term granted => PollStep membership cluster voter node
    [.voteReply voter request.candidateId request.term term granted])
    (.steady polls (.refl _) (fair _ _)) ?_ ?_ ?_
  · exact fun _ => .follower polls rfl rfl (fair _ _)
  · exact fun _ _ => .follower polls rfl rfl (fair _ _)
  · exact fun _ _ _ => ⟨polls.ids voter, polls.member voter, fair _ _⟩

theorem Polls.retreat (retreats : (cluster.nodes i).Retreats node) : PollStep membership cluster i node [] := by
  cases retreats with
  | down _ => exact .follower polls rfl rfl (by simp)
  | stay _ => exact .steady polls (.of_eq rfl rfl rfl rfl) (by simp)

theorem Polls.becomeLeader (i term : Nat) :
    PollStep membership cluster i ((cluster.nodes i).becomeLeader term) [] := by
  unfold RaftConsensus.becomeLeader
  split
  · exact .steady polls (.refl _) (by simp)
  · exact ⟨polls.ids i, nofun, by simp⟩

theorem Polls.obey (obeys : (cluster.nodes i).Obeys node)
    (fair : ∀ message ∈ sent, Fair membership cluster message) : PollStep membership cluster i node sent := by
  rcases obeys with rfl | ⟨id, follows⟩
  · exact .steady polls (.refl _) fair
  · exact .follower polls id follows fair

theorem Polls.step (label : Label) (fixed : ∀ i, (cluster.nodes i).state.membership = membership) :
    Polls membership (cluster.step label) := by
  have silent : ∀ {i node}, Steady (cluster.nodes i) node → Polls membership (cluster.act i node []) :=
    fun steady => polls.act (.steady polls steady (by simp))
  have stepped := cluster.step_stepped label
  generalize cluster.step label = after at stepped ⊢
  cases stepped with
  | idle => exact polls
  | @runElection i =>
    have frame := startElection_frame (cluster.nodes i)
    refine (polls.act ⟨frame.1.trans (polls.ids i), polls.startElection i (fixed i), ?_⟩).tally (by simp)
    exact electionMessages_fair _ _ i (frame.2.1.trans (fixed i)) (frame.1.trans (polls.ids i)) rfl
  | requestVote asked => exact polls.act (polls.handleRequestVote asked)
  | appendEntries _ => exact polls.act (polls.obey (handleAppendEntries_obeys ..) (by simp [Fair]))
  | installSnapshot _ answers =>
    refine polls.act (polls.obey (handleInstallSnapshot_obeys ..) fun reply member => ?_)
    obtain ⟨_, _, _, rfl⟩ := answers reply member
    exact True.intro
  | maybeStepDown _ _ => exact polls.act (polls.retreat (maybeStepDown_retreats _))
  | @recordVoteGranted voter candidate term granted =>
    obtain ⟨counted, won⟩ := polls.recordVoteGranted (fixed candidate) granted
    refine (polls.act (.steady polls (.refl _) ?_)).tally ?_
    · split
      · rename_i quorum
        simpa [Fair] using won quorum
      · simp
    · intro id member
      exact ⟨(counted id member).1, mem_append_left _ (counted id member).2⟩
  | becomeLeader _ => exact polls.act (polls.becomeLeader _ _)
  | onAppendSuccess _ => exact silent (onAppendSuccess_steady _ _ _ _)
  | onAppendFailure _ => exact polls.act (polls.retreat (onAppendFailure_retreats _))
  | onSnapshotSuccess _ => exact silent (onSnapshotSuccess_steady _ _ _)
  | onPeerUnreachable => exact silent (onPeerUnreachable_housekeeping _ _).steady
  | ensurePeerCursors => exact silent (ensurePeerCursors_housekeeping _ _).steady
  | propose => exact silent (propose_steady _ _ _)
  | flushPendingProposes => exact silent (flushPendingProposes_steady _ _)
  | sendAppendEntries _ _ => exact polls.act (.steady polls (.refl _) (by simp [Fair]))
  | sendSnapshot _ built =>
    refine polls.act (.steady polls (buildInstallSnapshot_built built).steady fun message sent => ?_)
    obtain ⟨chunk, _, rfl⟩ := mem_map.mp sent
    exact True.intro
  | buildFailed built => exact silent (buildInstallSnapshot_built built).steady

end

theorem start_polls (io : Io) (membership : ClusterMembership) (threshold : Nat → Nat) :
    Polls membership (start io membership threshold) where
  ids := fun _ => rfl
  member := fun _ stands => nomatch stands
  asked := fun _ _ sent => nomatch sent
  apart := fun _ _ _ granted => nomatch granted
  counted := fun _ _ _ counted => nomatch counted
  backed := fun _ _ elected => nomatch elected

end Cluster

end Takyonic
