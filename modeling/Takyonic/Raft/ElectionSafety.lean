import Takyonic.Raft.Polls

namespace Takyonic

open Foundation RaftConsensus List Io

namespace Cluster

def Pledged (node : RaftConsensus) (term candidate : Nat) : Prop :=
  term < node.state.currentTerm ∨
    term = node.state.currentTerm ∧ node.state.votedFor = some candidate ∧
      node.state.role = .follower

def Pinned (node : RaftConsensus) (term : Nat) : Prop :=
  term < node.state.currentTerm ∨
    term = node.state.currentTerm ∧ node.state.votedFor = some node.id ∧
      node.state.role ≠ .candidate

/-- The invariant behind election safety for one fixed membership. -/
structure Ballots (membership : ClusterMembership) (cluster : Cluster) : Prop
    extends Polls membership cluster where
  selfVote : ∀ i, (cluster.nodes i).state.role ≠ .follower → (cluster.nodes i).state.votedFor = some i
  held : ∀ voter term candidate, cluster.Granted voter term candidate → Pledged (cluster.nodes voter) term candidate
  unique : ∀ voter term first second, cluster.Granted voter term first →
    cluster.Granted voter term second → first = second
  led : ∀ term leader, (term, leader) ∈ cluster.leaders →
    Backed membership cluster leader term ∧ Pinned (cluster.nodes leader) term ∧
      ∀ candidate, ¬ cluster.Granted leader term candidate
  recorded : LeadersRecorded cluster
  appendAuthority : ∀ peer request, .appendEntries peer request ∈ cluster.net →
    (request.term, request.leaderId) ∈ cluster.leaders ∧ peer ≠ request.leaderId
  snapshotAuthority : ∀ peer request, .installSnapshot peer request ∈ cluster.net →
    (request.term, request.leaderId) ∈ cluster.leaders ∧ peer ≠ request.leaderId

variable {membership : ClusterMembership} {cluster : Cluster} {term i candidate peer : Nat} {node : RaftConsensus}
  {sent : List Message} {leader : Nat} {request : InstallSnapshotRequest}

theorem Ballots.one_leader (inv : Ballots membership cluster) {a b : Nat} (first : (term, a) ∈ cluster.leaders)
    (second : (term, b) ∈ cluster.leaders) : a = b := by
  obtain ⟨⟨firstQuorum, firstMembers, firstCard, firstVotes⟩, _, firstOwn⟩ := inv.led term a first
  obtain ⟨⟨secondQuorum, secondMembers, secondCard, secondVotes⟩, _, secondOwn⟩ := inv.led term b second
  obtain ⟨voter, inFirst, inSecond⟩ := ClusterMembership.quorums_meet firstMembers secondMembers firstCard secondCard
  rcases firstVotes voter inFirst with rfl | forFirst
  · rcases secondVotes voter inSecond with same | forSecond
    · exact same
    · exact absurd forSecond (firstOwn b)
  · rcases secondVotes voter inSecond with rfl | forSecond
    · exact absurd forFirst (secondOwn a)
    · exact inv.unique voter term a b forFirst forSecond

def Lawful (membership : ClusterMembership) (cluster : Cluster) (i : Nat) (node : RaftConsensus) :
    Message → Prop
  | .requestVote voter request => voter ≠ request.candidateId
  | .voteReply voter candidate requestTerm term granted =>
    granted = true → voter = i ∧ voter ≠ candidate ∧ term = requestTerm ∧
      term = node.state.currentTerm ∧ node.state.votedFor = some candidate ∧
      node.state.role = .follower ∧ (term, voter) ∉ cluster.leaders ∧
      ∀ other, cluster.Granted voter term other → other = candidate
  | .elected candidate term => Backed membership cluster candidate term
  | .appendEntries peer request => (request.term, request.leaderId) ∈ cluster.leaders ∧ peer ≠ request.leaderId
  | .installSnapshot peer request => (request.term, request.leaderId) ∈ cluster.leaders ∧ peer ≠ request.leaderId
  | .appendReply .. => True
  | .snapshotReply .. => True

structure BallotStep (membership : ClusterMembership) (cluster : Cluster) (i : Nat)
    (node : RaftConsensus) (sent : List Message) : Prop where
  id : node.id = i
  selfVote : node.state.role ≠ .follower → node.state.votedFor = some i
  member : node.state.role = .candidate → i ∈ membership.members
  pledges : ∀ term candidate, Pledged (cluster.nodes i) term candidate → i ≠ candidate → Pledged node term candidate
  pins : ∀ term, (term, i) ∈ cluster.leaders → Pinned (cluster.nodes i) term → Pinned node term
  crowned : node.state.role = .leader → (node.state.currentTerm, i) ∈ cluster.leaders ∨
    Backed membership cluster i node.state.currentTerm ∧
      ∀ candidate, ¬ cluster.Granted i node.state.currentTerm candidate
  lawful : ∀ message ∈ sent, Lawful membership cluster i node message

open BallotStep

theorem BallotStep.poll (ok : BallotStep membership cluster i node sent) :
    PollStep membership cluster i node sent where
  id := ok.id
  member := ok.member
  fair := by
    intro message member
    have lawful := ok.lawful message member
    cases message with
    | voteReply => exact fun granted => (lawful granted).2.1
    | requestVote | elected => exact lawful
    | _ => exact True.intro

theorem Ballots.act (inv : Ballots membership cluster) (ok : BallotStep membership cluster i node sent) :
    Ballots membership (cluster.act i node sent) := by
  have grows : ∀ message ∈ cluster.net, message ∈ (cluster.act i node sent).net :=
    fun _ member => mem_append_left _ member
  have leaders : ∀ {pair}, pair ∈ cluster.leaders → pair ∈ (cluster.act i node sent).leaders :=
    fun member => (mem_act_leaders _ _ _ sent).mpr (.inl member)
  -- A grant of the new state is an old one, or the one just given.
  have grants : ∀ {voter term candidate}, (cluster.act i node sent).Granted voter term candidate →
      cluster.Granted voter term candidate ∨
        Lawful membership cluster i node (.voteReply voter candidate term term true) := by
    intro voter term candidate granted
    rcases mem_append.mp granted with old | new
    · exact .inl old
    · exact .inr (ok.lawful _ new)
  refine
    { toPolls := inv.toPolls.act ok.poll, selfVote := ?_, held := ?_, unique := ?_, led := ?_,
      recorded := ?_, appendAuthority := ?_, snapshotAuthority := ?_ }
  · exact forall_act (P := fun j node => node.state.role ≠ .follower → node.state.votedFor = some j) ok.selfVote
      (fun j _ => inv.selfVote j)
  · intro voter term candidate granted
    rcases grants granted with old | new
    · have pledged := inv.held voter term candidate old
      by_cases other : voter = i
      · subst other
        rw [act_nodes_self]
        exact ok.pledges term candidate pledged (inv.apart _ _ _ old)
      · rwa [act_nodes_ne _ _ _ _ other]
    · obtain ⟨rfl, _, _, current, vote, role, _, _⟩ := new rfl
      rw [act_nodes_self]
      exact .inr ⟨current, vote, role⟩
  · intro voter term first second forFirst forSecond
    rcases grants forFirst with oldFirst | newFirst
    · rcases grants forSecond with oldSecond | newSecond
      · exact inv.unique voter term first second oldFirst oldSecond
      · obtain ⟨_, _, _, _, _, _, _, only⟩ := newSecond rfl
        exact only first oldFirst
    · obtain ⟨_, _, _, _, vote, _, _, only⟩ := newFirst rfl
      rcases grants forSecond with oldSecond | newSecond
      · exact (only second oldSecond).symm
      · obtain ⟨_, _, _, _, voteSecond, _⟩ := newSecond rfl
        exact Option.some.inj (vote.symm.trans voteSecond)
  · intro term leader led
    rcases (mem_act_leaders _ _ _ sent).mp led with old | ⟨leads, pair⟩
    · obtain ⟨backed, pinned, own⟩ := inv.led term leader old
      refine ⟨backed.mono grows, ?_, fun candidate granted => ?_⟩
      · by_cases other : leader = i
        · subst other
          rw [act_nodes_self]
          exact ok.pins term old pinned
        · rwa [act_nodes_ne _ _ _ _ other]
      · rcases grants granted with oldGrant | newGrant
        · exact own candidate oldGrant
        · obtain ⟨_, _, _, _, _, _, notLeader, _⟩ := newGrant rfl
          exact notLeader old
    · cases pair
      have fresh : Backed membership cluster i node.state.currentTerm ∧
          ∀ candidate, ¬ cluster.Granted i node.state.currentTerm candidate := by
        rcases ok.crowned leads with old | crowned
        · obtain ⟨backed, _, own⟩ := inv.led _ _ old
          exact ⟨backed, own⟩
        · exact crowned
      refine ⟨fresh.1.mono grows, ?_, fun candidate granted => ?_⟩
      · rw [act_nodes_self]
        have voted := ok.selfVote (by rw [leads]; decide)
        exact .inr ⟨rfl, by rw [voted, ok.id], by rw [leads]; decide⟩
      · rcases grants granted with oldGrant | newGrant
        · exact fresh.2 candidate oldGrant
        · obtain ⟨_, _, _, _, _, follows, _, _⟩ := newGrant rfl
          rw [leads] at follows
          cases follows
  · exact inv.recorded.act i node sent
  · intro peer request member
    rcases mem_append.mp member with old | new
    · exact (inv.appendAuthority peer request old).imp_left leaders
    · exact (ok.lawful _ new).imp_left leaders
  · intro peer request member
    rcases mem_append.mp member with old | new
    · exact (inv.snapshotAuthority peer request old).imp_left leaders
    · exact (ok.lawful _ new).imp_left leaders

theorem Ballots.tally (inv : Ballots membership cluster) {votes : Finset Nat}
    (counted : ∀ voter ∈ votes, voter ∈ membership.members ∧ cluster.Granted voter term candidate) :
    Ballots membership (cluster.tally candidate term votes) :=
  { inv with toPolls := inv.toPolls.tally counted }

namespace BallotStep

variable {i : Nat} {node node' : RaftConsensus} {sent : List Message}

theorem refl (inv : Ballots membership cluster) (i : Nat) :
    BallotStep membership cluster i (cluster.nodes i) [] where
  id := inv.ids i
  selfVote := inv.selfVote i
  member := inv.member i
  pledges := fun _ _ pledged _ => pledged
  pins := fun _ _ pinned => pinned
  crowned := fun leads => .inl (inv.recorded i leads)
  lawful := by simp

theorem steady (ok : BallotStep membership cluster i node []) (kept : Steady node node')
    (lawful : ∀ message ∈ sent, Lawful membership cluster i node' message) :
    BallotStep membership cluster i node' sent where
  id := kept.id.trans ok.id
  selfVote := by
    intro active
    rw [kept.vote]
    exact ok.selfVote (Role.was kept.role rfl active ▸ active)
  member := by
    intro stands
    exact ok.member (Role.was kept.role stands nofun)
  pledges := by
    intro term candidate pledged distinct
    rcases ok.pledges term candidate pledged distinct with past | ⟨current, vote, follows⟩
    · exact .inl (kept.term ▸ past)
    · exact .inr ⟨kept.term ▸ current, kept.vote ▸ vote, kept.follows follows⟩
  pins := by
    intro term led pinned
    rcases ok.pins term led pinned with past | ⟨current, vote, inactive⟩
    · exact .inl (kept.term ▸ past)
    · refine .inr ⟨kept.term ▸ current, by rw [kept.vote, kept.id, vote], ?_⟩
      intro stands
      exact inactive (Role.was kept.role stands nofun)
  crowned := by
    intro leads
    rw [kept.term]
    exact ok.crowned (Role.was kept.role leads nofun)
  lawful := lawful

theorem raised (id : node.id = i) (later : (cluster.nodes i).state.currentTerm < node.state.currentTerm)
    (selfVote : node.state.role ≠ .follower → node.state.votedFor = some i)
    (member : node.state.role = .candidate → i ∈ membership.members)
    (notLeader : node.state.role ≠ .leader) : BallotStep membership cluster i node [] where
  id := id
  selfVote := selfVote
  member := member
  pledges := by
    intro term candidate pledged _
    rcases pledged with past | ⟨current, _⟩
    · exact .inl (past.trans later)
    · exact .inl (current ▸ later)
  pins := by
    intro term _ pinned
    rcases pinned with past | ⟨current, _⟩
    · exact .inl (past.trans later)
    · exact .inl (current ▸ later)
  crowned := fun leads => absurd leads notLeader
  lawful := by simp

theorem becomeFollower (inv : Ballots membership cluster) (i term : Nat) (leader : Option Nat)
    (later : (cluster.nodes i).state.currentTerm < term) :
    BallotStep membership cluster i ((cluster.nodes i).becomeFollower term leader) [] :=
  raised (inv.ids i) later (fun active => absurd rfl active) nofun
    nofun

theorem demoted (inv : Ballots membership cluster) (i : Nat) (leader : Option Nat)
    (stands : (cluster.nodes i).state.role = .candidate) :
    BallotStep membership cluster i
      ((cluster.nodes i).becomeFollower (cluster.nodes i).state.currentTerm leader) [] where
  id := inv.ids i
  selfVote := fun active => absurd rfl active
  member := fun stands => nomatch stands
  pledges := by
    intro term candidate pledged _
    rcases pledged with past | ⟨_, _, follows⟩
    · exact .inl past
    · rw [stands] at follows
      cases follows
  pins := by
    intro term _ pinned
    rcases pinned with past | ⟨_, _, inactive⟩
    · exact .inl past
    · exact absurd stands inactive
  crowned := fun leads => nomatch leads
  lawful := by simp

end BallotStep

section

variable (inv : Ballots membership cluster)
include inv

theorem Ballots.candidate_of_active (authority : ((cluster.nodes i).state.currentTerm, leader) ∈ cluster.leaders)
    (other : i ≠ leader) (active : (cluster.nodes i).state.role ≠ .follower) :
    (cluster.nodes i).state.role = .candidate := by
  cases role : (cluster.nodes i).state.role with
  | follower => exact absurd role active
  | candidate => rfl
  | leader => exact absurd (inv.one_leader (inv.recorded i role) authority) other

theorem Ballots.acceptLeader (authority : (term, leader) ∈ cluster.leaders) (other : i ≠ leader)
    (fresh : (cluster.nodes i).state.currentTerm ≤ term) :
    BallotStep membership cluster i ((cluster.nodes i).acceptLeader term leader) [] := by
  unfold RaftConsensus.acceptLeader
  by_cases later : (cluster.nodes i).state.currentTerm < term
  · rw [if_pos (.inl later)]
    exact .becomeFollower inv i term _ later
  obtain rfl : term = (cluster.nodes i).state.currentTerm := by omega
  split
  · rename_i active
    have stands := inv.candidate_of_active authority other (active.resolve_left later)
    exact .demoted inv i _ stands
  · exact (refl inv i).steady (.of_eq rfl rfl rfl rfl) (by simp)

theorem Ballots.startElection (i : Nat) (fixed : (cluster.nodes i).state.membership = membership) :
    BallotStep membership cluster i (cluster.nodes i).startElection.1 [] := by
  unfold RaftConsensus.startElection
  split
  · exact .refl inv i
  rename_i allowed
  have member : (cluster.nodes i).startElection.1.state.role = .candidate → i ∈ membership.members :=
    inv.toPolls.startElection i fixed
  unfold RaftConsensus.startElection at member
  rw [if_neg allowed] at member
  refine .raised (inv.ids i) ?_ (fun _ => ?_) member nofun
  · exact Nat.lt_succ_self _
  · exact congrArg some (inv.ids i)

end

theorem electionMessages_lawful (node : RaftConsensus) (request : RequestVoteRequest) (i : Nat)
    (fixed : node.state.membership = membership) (id : node.id = i) (own : request.candidateId = i) :
    ∀ message ∈ electionMessages node request, Lawful membership cluster i node message := by
  intro message sent
  have fair : Fair membership cluster message := electionMessages_fair node request i fixed id own message sent
  unfold electionMessages at sent
  split at sent
  · obtain rfl := mem_singleton.mp sent
    exact fair
  · obtain ⟨peer, _, rfl⟩ := mem_map.mp sent
    exact fair

section

variable (inv : Ballots membership cluster)
include inv

theorem BallotStep.granted {voter : Nat} (distinct : voter ≠ candidate) (id : node.id = voter)
    (current : node.state.currentTerm = term) (follows : node.state.role = .follower)
    (vote : node.state.votedFor = some candidate) (fresh : (cluster.nodes voter).state.currentTerm ≤ term)
    (free : (cluster.nodes voter).state.currentTerm = term →
      ∀ other, (cluster.nodes voter).state.votedFor = some other → other = candidate) :
    BallotStep membership cluster voter node [.voteReply voter candidate term term true] := by
  subst current
  have pledge : ∀ other, Pledged (cluster.nodes voter) node.state.currentTerm other → other = candidate := by
    intro other pledged
    rcases pledged with past | ⟨now, voted, _⟩
    · omega
    · exact free now.symm other voted
  refine
    { id := id
      selfVote := fun active => absurd follows active
      member := fun stands => by rw [follows] at stands; cases stands
      pledges := ?_
      pins := ?_
      crowned := fun leads => by rw [follows] at leads; cases leads
      lawful := ?_ }
  · intro term other pledged _
    rcases pledged with past | ⟨now, voted, role⟩
    · exact .inl (past.trans_le fresh)
    by_cases later : (cluster.nodes voter).state.currentTerm < node.state.currentTerm
    · exact .inl (now ▸ later)
    · have same : (cluster.nodes voter).state.currentTerm = node.state.currentTerm := by omega
      refine .inr ⟨now.trans same, ?_, follows⟩
      rw [free same other voted]
      exact vote
  · intro term led pinned
    rcases pinned with past | ⟨now, voted, _⟩
    · exact .inl (past.trans_le fresh)
    · by_cases later : (cluster.nodes voter).state.currentTerm < node.state.currentTerm
      · exact .inl (now ▸ later)
      · rw [inv.ids voter] at voted
        exact absurd (free (by omega) voter voted) distinct
  · intro message sent
    obtain rfl := mem_singleton.mp sent
    intro _
    refine ⟨rfl, distinct, rfl, rfl, vote, follows, fun led => ?_, fun other granted => ?_⟩
    · rcases (inv.led _ _ led).2.1 with past | ⟨now, voted, _⟩
      · omega
      · rw [inv.ids voter] at voted
        exact distinct (free now.symm voter voted)
    · exact pledge other (inv.held _ _ _ granted)

theorem Ballots.handleRequestVote {voter : Nat} {request : RequestVoteRequest}
    (asked : .requestVote voter request ∈ cluster.net) :
    let reply := (cluster.nodes voter).handleRequestVote request.term request.candidateId
      request.lastLogIndex request.lastLogTerm
    BallotStep membership cluster voter reply.1
      [.voteReply voter request.candidateId request.term reply.2.1 reply.2.2] := by
  have refusal : ∀ {node term}, BallotStep membership cluster voter node [] →
      BallotStep membership cluster voter node [.voteReply voter request.candidateId request.term term false] := by
    intro node term ok
    exact ok.steady (.refl _) (by simp [Lawful])
  have distinct := inv.asked voter request asked
  refine handleRequestVote_rule _ (motive := fun node term granted => BallotStep membership cluster voter node
    [.voteReply voter request.candidateId request.term term granted]) (refusal (.refl inv voter)) ?_ ?_ ?_
  · exact fun later => refusal (.becomeFollower inv voter request.term none later)
  · intro later _
    exact .granted inv distinct (inv.ids voter) rfl rfl rfl later.le (fun same => absurd same (ne_of_lt later))
  · intro current _ free
    have follows : (cluster.nodes voter).state.role = .follower := by
      by_contra active
      exact distinct (free _ (inv.selfVote voter active))
    rw [← current]
    exact .granted inv distinct (inv.ids voter) rfl follows rfl le_rfl (fun _ => free)

theorem Ballots.retreat (retreats : (cluster.nodes i).Retreats node) : BallotStep membership cluster i node [] := by
  cases retreats with
  | down later => exact .becomeFollower inv i _ none later
  | stay _ => exact (refl inv i).steady (.of_eq rfl rfl rfl rfl) (by simp)

theorem Ballots.becomeLeader (elected : .elected candidate term ∈ cluster.net) :
    BallotStep membership cluster candidate ((cluster.nodes candidate).becomeLeader term) [] := by
  unfold RaftConsensus.becomeLeader
  split
  · exact .refl inv candidate
  rename_i eligible
  simp only [not_or, not_not] at eligible
  obtain ⟨rfl, stands⟩ := eligible
  have voted := inv.selfVote candidate (by rw [stands]; decide)
  refine
    { id := inv.ids candidate
      selfVote := fun _ => voted
      member := fun stands => nomatch stands
      pledges := ?_
      pins := ?_
      crowned := fun _ => .inr ⟨inv.backed _ _ elected, fun other granted => ?_⟩
      lawful := by simp }
  · intro term other pledged _
    rcases pledged with past | ⟨_, _, follows⟩
    · exact .inl past
    · rw [stands] at follows
      cases follows
  · intro term _ pinned
    rcases pinned with past | ⟨_, _, inactive⟩
    · exact .inl past
    · exact absurd stands inactive
  · rcases (inv.held _ _ _ granted) with past | ⟨_, _, follows⟩
    · exact absurd past (lt_irrefl _)
    · rw [stands] at follows
      cases follows

end

def VoteKept (cluster : Cluster) : Label → Prop
  | .installSnapshot _ peer request =>
    request.term = (cluster.nodes peer).state.currentTerm →
      (cluster.nodes peer).state.role = .follower → (cluster.nodes peer).state.votedFor = none
  | _ => True

instance : Decidable (VoteKept cluster label) := by
  rcases label with ⟨⟩ <;> unfold VoteKept <;> infer_instance

section

variable (inv : Ballots membership cluster)
include inv

section

variable (arrived : .installSnapshot peer request ∈ cluster.net)
  (kept : request.term = (cluster.nodes peer).state.currentTerm →
    (cluster.nodes peer).state.role = .follower → (cluster.nodes peer).state.votedFor = none)
include arrived kept

theorem Ballots.snapshotFollower (fresh : (cluster.nodes peer).state.currentTerm ≤ request.term) :
    BallotStep membership cluster peer
      ((cluster.nodes peer).becomeFollower request.term (some request.leaderId)) [] := by
  obtain ⟨authority, other⟩ := inv.snapshotAuthority peer request arrived
  by_cases later : (cluster.nodes peer).state.currentTerm < request.term
  · exact .becomeFollower inv peer request.term _ later
  have current : request.term = (cluster.nodes peer).state.currentTerm := by omega
  rw [current] at authority ⊢
  by_cases follows : (cluster.nodes peer).state.role = .follower
  · refine (refl inv peer).steady (.of_eq rfl rfl ?_ follows.symm) (by simp)
    exact (kept current follows).symm
  · exact .demoted inv peer _ (inv.candidate_of_active authority other follows)

theorem Ballots.installSnapshot (io : Io) :
    BallotStep membership cluster peer ((cluster.nodes peer).handleInstallSnapshot io request.term
      request.leaderId request.lastIncludedIndex request.lastIncludedTerm request.data request.done).1
      [] := by
  by_cases fresh : (cluster.nodes peer).state.currentTerm ≤ request.term
  · exact (inv.snapshotFollower arrived kept fresh).steady
      (handleInstallSnapshot_steady _ io _ _ _ _ _ _ fresh) (by simp)
  · have stale : request.term < (cluster.nodes peer).state.currentTerm := by omega
    rw [RaftConsensus.handleInstallSnapshot_stale _ _ stale]
    exact .refl inv peer

end

theorem Ballots.appendEntries (io : Io) {request : AppendEntriesRequest}
    (sent : .appendEntries peer request ∈ cluster.net) :
    BallotStep membership cluster peer ((cluster.nodes peer).handleAppendEntries io request.term
      request.leaderId request.prevLogIndex request.prevLogTerm request.entries
      request.leaderCommit).1 [] := by
  obtain ⟨authority, other⟩ := inv.appendAuthority peer request sent
  by_cases fresh : (cluster.nodes peer).state.currentTerm ≤ request.term
  · exact (inv.acceptLeader authority other fresh).steady (handleAppendEntries_steady _ io _ _ _ _ _ _ fresh) (by simp)
  · have stale : request.term < (cluster.nodes peer).state.currentTerm := by omega
    rw [RaftConsensus.handleAppendEntries_stale _ _ stale]
    exact .refl inv peer

theorem Ballots.step {label : Label} (fixed : ∀ i, (cluster.nodes i).state.membership = membership)
    (kept : VoteKept cluster label) : Ballots membership (cluster.step label) := by
  have silent : ∀ {i node}, Steady (cluster.nodes i) node → Ballots membership (cluster.act i node []) :=
    fun steady => inv.act ((refl inv _).steady steady (by simp))
  have stepped := cluster.step_stepped label
  generalize cluster.step label = after at stepped ⊢
  cases stepped with
  | idle => exact inv
  | @runElection i =>
    have frame := startElection_frame (cluster.nodes i)
    refine (inv.act ((inv.startElection i (fixed i)).steady (.refl _) ?_)).tally (by simp)
    exact electionMessages_lawful _ _ i (frame.2.1.trans (fixed i)) (frame.1.trans (inv.ids i)) rfl
  | requestVote asked => exact inv.act (inv.handleRequestVote asked)
  | appendEntries sent => exact inv.act ((inv.appendEntries _ sent).steady (.refl _) (by simp [Lawful]))
  | installSnapshot sent answers =>
    refine inv.act ((inv.installSnapshot sent kept _).steady (.refl _) fun reply member => ?_)
    obtain ⟨_, _, _, rfl⟩ := answers reply member
    exact True.intro
  | maybeStepDown _ _ => exact inv.act (inv.retreat (maybeStepDown_retreats _))
  | @recordVoteGranted voter candidate term granted =>
    obtain ⟨counted, won⟩ := inv.toPolls.recordVoteGranted (fixed candidate) granted
    refine (inv.act ((refl inv candidate).steady (.refl _) ?_)).tally ?_
    · split
      · rename_i quorum
        simpa [Lawful] using won quorum
      · simp
    · intro id member
      exact ⟨(counted id member).1, mem_append_left _ (counted id member).2⟩
  | becomeLeader elected => exact inv.act (inv.becomeLeader elected)
  | onAppendSuccess _ => exact silent (onAppendSuccess_steady _ _ _ _)
  | onAppendFailure _ => exact inv.act (inv.retreat (onAppendFailure_retreats _))
  | onSnapshotSuccess _ => exact silent (onSnapshotSuccess_steady _ _ _)
  | onPeerUnreachable => exact silent (onPeerUnreachable_housekeeping _ _).steady
  | ensurePeerCursors => exact silent (ensurePeerCursors_housekeeping _ _).steady
  | propose => exact silent (propose_steady _ _ _)
  | flushPendingProposes => exact silent (flushPendingProposes_steady _ _)
  | @sendAppendEntries leader peer request other built =>
    obtain ⟨leads, term, own, _⟩ := leaderPeerCursor_leads (requestFor_cursor built)
    refine inv.act ((refl inv leader).steady (.refl _) ?_)
    have authority := inv.recorded leader leads
    simpa [Lawful, term, own, inv.ids leader] using ⟨authority, other⟩
  | @sendSnapshot io leader peer cooled node _ _ index indexTerm data other built =>
    have housekeeping := (buildInstallSnapshot_built built).steady
    obtain ⟨leads, rfl, rfl, _⟩ := buildInstallSnapshot_leads built
    refine inv.act ((refl inv leader).steady housekeeping fun message sent => ?_)
    obtain ⟨chunk, _, rfl⟩ := mem_map.mp sent
    exact ⟨by simpa [inv.ids leader] using inv.recorded leader leads, by simpa [inv.ids leader] using other⟩
  | buildFailed built => exact silent (buildInstallSnapshot_built built).steady

end

variable (io : Io) (membership : ClusterMembership) (threshold : Nat → Nat)

theorem start_ballots : Ballots membership (start io membership threshold) where
  toPolls := start_polls io membership threshold
  selfVote := fun _ active => absurd rfl active
  held := fun _ _ _ granted => nomatch granted
  unique := fun _ _ _ _ granted => nomatch granted
  led := fun _ _ led => nomatch led
  recorded := start_leadersRecorded io membership threshold
  appendAuthority := fun _ _ sent => nomatch sent
  snapshotAuthority := fun _ _ sent => nomatch sent

theorem start_membership (i : Nat) :
    ((start io membership threshold).nodes i).state.membership = membership := by
  simp [start, newWithThreshold, foldConfig, RaftLog.create, RaftLog.entriesFrom]

/-- Election safety: with one fixed membership, and as long as no InstallSnapshot makes a follower
    forget the vote it has given in the current term, no term has two leaders. -/
theorem election_safety (labels : List Label)
    (fixed : Along step (KeepsMembership membership) (start io membership threshold) labels)
    (kept : Along step VoteKept (start io membership threshold) labels) :
    OneLeader (start io membership threshold) labels := by
  have both := fixed.and kept
  have inv : Ballots membership (run step (start io membership threshold) labels) := by
    refine (both.invariant (P := fun cluster => Ballots membership cluster ∧
      ∀ i, (cluster.nodes i).state.membership = membership) ?_ ?_).1
    · exact ⟨start_ballots io membership threshold, start_membership io membership threshold⟩
    · rintro cluster label ⟨inv, members⟩ ⟨fixed, kept⟩
      exact ⟨inv.step members kept, fixed.all members⟩
  intro term i j first second
  rw [← mem_leaders_iff_hasLed] at first second
  exact inv.one_leader first second

def trio : ClusterMembership := .fromEndpoints [(1, "n1:9000"), (2, "n2:9000"), (3, "n3:9000")]

def noopCommand : Bytes := [1, 5, 0, 0, 0, 0, 0, 0, 0, 0]

/-- Node 1 leads term 1 with the vote of node 2, and every node stores its first entry. Its commit
    compacts the log of node 1 at index 1. -/
def firstTerm : List Label :=
  let io := reliable trio
  [.runElection 1, .requestVote 2 ⟨1, 1, 0, 0⟩, .recordVoteGranted 2 1 1, .becomeLeader 1 1,
    .flushPendingProposes io 1, .sendAppendEntries 1 2, .sendAppendEntries 1 3,
    .appendEntries io 2 ⟨1, 1, 0, 0, [⟨1, 1, noopCommand⟩], 0⟩,
    .appendEntries io 3 ⟨1, 1, 0, 0, [⟨1, 1, noopCommand⟩], 0⟩, .appendReply io 2 1 1 true 1]

/-- Nodes 1 and 2 stand in term 2 and node 3 votes for node 1, which leads. A snapshot of node 1
    makes node 3 forget its vote, and the delayed request of node 2 gets it a second time. -/
def secondVote : List Label :=
  let io := reliable trio
  [.runElection 2, .runElection 1, .requestVote 3 ⟨2, 1, 1, 1⟩, .recordVoteGranted 3 1 2,
    .becomeLeader 1 2, .flushPendingProposes io 1, .sendAppendEntries 1 3, .onPeerUnreachable 1 3,
    .sendSnapshot io 1 3 true, .installSnapshot io 3 ⟨2, 1, 1, 1, [84, 75, 89, 83], true⟩,
    .requestVote 3 ⟨2, 2, 1, 1⟩, .recordVoteGranted 3 2 2, .becomeLeader 2 2]

theorem two_leaders_of_term_two :
    Along step (KeepsMembership trio) (start (reliable trio) trio (fun _ => 1)) (firstTerm ++ secondVote) ∧
      ¬ OneLeader (start (reliable trio) trio (fun _ => 1)) (firstTerm ++ secondVote) := by
  refine ⟨by decide +kernel, fun unique => ?_⟩
  have first : HasLed (start (reliable trio) trio (fun _ => 1)) (firstTerm ++ secondVote) 2 1 := by
    rw [← mem_leaders_iff_hasLed]
    decide +kernel
  have second : HasLed (start (reliable trio) trio (fun _ => 1)) (firstTerm ++ secondVote) 2 2 := by
    rw [← mem_leaders_iff_hasLed]
    decide +kernel
  exact absurd (unique 2 1 2 first second) (by decide)

/-- The snapshot reaches node 3 before it has voted in the term, and node 2 is elected next. -/
def snapshotThenVote : List Label :=
  let io := reliable trio
  [.onPeerUnreachable 1 3, .sendSnapshot io 1 3 true,
    .installSnapshot io 3 ⟨1, 1, 1, 1, [84, 75, 89, 83], true⟩, .runElection 2,
    .requestVote 3 ⟨2, 2, 1, 1⟩, .recordVoteGranted 3 2 2, .becomeLeader 2 2]

theorem election_safety_snapshotThenVote :
    OneLeader (start (reliable trio) trio (fun _ => 1)) (firstTerm ++ snapshotThenVote) ∧
      (run step (start (reliable trio) trio (fun _ => 1))
        (firstTerm ++ snapshotThenVote)).leaders.getLast? = some (2, 2) :=
  ⟨election_safety (reliable trio) trio (fun _ => 1) (firstTerm ++ snapshotThenVote)
      (by decide +kernel) (by decide +kernel),
    by decide +kernel⟩

end Cluster

end Takyonic
