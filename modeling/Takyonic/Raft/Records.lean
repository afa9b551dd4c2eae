import Takyonic.Foundation.Completeness
import Takyonic.Raft.LogMatching

namespace Takyonic

open Foundation RaftConsensus Ledger List

def ClusterMembership.Quorum (membership : ClusterMembership) (holders : Finset Nat) : Prop :=
  holders ⊆ membership.members ∧ membership.quorum ≤ holders.card

def EndsAt (entries : List RaftLogEntry) (index term : Nat) : Prop :=
  index = entries.length ∧ term = lastTerm RaftLogEntry.term entries

theorem Represents.endsAt {log : RaftLog} {full : List RaftLogEntry} (represents : Represents log full) :
    EndsAt full log.lastIndex log.lastTerm := by
  refine ⟨represents.lastIndex, ?_⟩
  rw [represents.lastTerm]
  unfold termBefore Foundation.lastTerm
  rw [getLast?_eq_getElem?]
  split
  · rename_i empty
    rw [length_eq_zero_iff.mp empty]
    rfl
  · rfl

namespace Cluster

/-- A leader of a term up to `t` has committed `index` entries. -/
def Covers (ledger : Ledger Nat RaftLogEntry) (t index : Nat) : Prop :=
  index = 0 ∨ ∃ s c, (s, c) ∈ ledger.commits ∧ s ≤ t ∧ index ≤ c + 1

def Covered (ledger : Ledger Nat RaftLogEntry) (node : RaftConsensus) : Prop :=
  ∃ bound, Covers ledger node.state.currentTerm bound ∧ node.Within bound

def Attested (ledger : Ledger Nat RaftLogEntry) : Message → Prop
  | .appendEntries _ request => Covers ledger request.term request.leaderCommit
  | .installSnapshot _ request => Covers ledger request.term request.lastIncludedIndex
  | .appendReply peer _ term true matchIndex => (peer, term, matchIndex) ∈ ledger.acks
  | .snapshotReply peer _ requestTerm index term => requestTerm = term → (peer, term, index) ∈ ledger.acks
  | _ => True

def Campaign (ledger : Ledger Nat RaftLogEntry) (node : RaftConsensus) (request : RequestVoteRequest) :
    Prop :=
  request.term ≤ node.state.currentTerm ∧
    (node.state.role = .candidate → node.state.currentTerm = request.term →
      EndsAt (ledger.log request.candidateId) request.lastLogIndex request.lastLogTerm)

def Voted (cluster : Cluster) (ledger : Ledger Nat RaftLogEntry) (voter t candidate : Nat) : Prop :=
  (ledger.leader t).isSome ∨ ∃ request entries, .requestVote voter request ∈ cluster.net ∧
    request.term = t ∧ request.candidateId = candidate ∧
    (t, candidate, voter, entries) ∈ ledger.ballots ∧
    (lastTerm RaftLogEntry.term entries < request.lastLogTerm ∨
      lastTerm RaftLogEntry.term entries = request.lastLogTerm ∧ entries.length ≤ request.lastLogIndex)

/-- The cluster refines a ledger of votes, acknowledgements and commits. -/
structure Records (membership : ClusterMembership) (cluster : Cluster)
    (ledger : Ledger Nat RaftLogEntry) : Prop where
  refines : Refines cluster ledger.toView
  complete : ledger.Complete RaftLogEntry.term membership.Quorum
  campaigns : ∀ voter request, .requestVote voter request ∈ cluster.net →
    Campaign ledger (cluster.nodes request.candidateId) request
  grants : ∀ voter t candidate, cluster.Granted voter t candidate → Voted cluster ledger voter t candidate
  attested : ∀ message ∈ cluster.net, Attested ledger message
  progress : ∀ i, (cluster.nodes i).state.role = .leader → ∀ peer ∈ membership.members, ∀ m,
    (cluster.nodes i).state.matchIndex peer = some m →
      m = 0 ∨ peer = i ∨ (peer, (cluster.nodes i).state.currentTerm, m) ∈ ledger.acks
  covered : ∀ i, Covered ledger (cluster.nodes i)
  noted : ∀ i c, (cluster.nodes i).state.role = .leader →
    ((cluster.nodes i).state.currentTerm, c) ∈ ledger.commits → c < (cluster.nodes i).state.commitIndex

variable {membership : ClusterMembership} {cluster larger : Cluster} {ledger ledger' : Ledger Nat RaftLogEntry}
  {t i t' index small large first second voter candidate term : Nat} {node : RaftConsensus} {sent : List Message}
  {counted : RaftLog}

theorem Covers.grow (covers : Covers ledger t index) (later : t ≤ t')
    (commits : ledger.commits ⊆ ledger'.commits) : Covers ledger' t' index := by
  rcases covers with zero | ⟨s, c, noted, early, within⟩
  · exact .inl zero
  · exact .inr ⟨s, c, commits noted, early.trans later, within⟩

theorem Covers.mono (covers : Covers ledger t large) (bound : small ≤ large) :
    Covers ledger t small := by
  rcases covers with rfl | ⟨s, c, noted, early, within⟩
  · exact .inl (Nat.le_zero.mp bound)
  · exact .inr ⟨s, c, noted, early, bound.trans within⟩

theorem Covers.max (left : Covers ledger t first) (right : Covers ledger t second) :
    Covers ledger t (max first second) := by
  rcases le_total first second with less | more
  · rwa [max_eq_right less]
  · rwa [max_eq_left more]

theorem Attested.grow {message : Message} (attested : Attested ledger message)
    (grows : Grows RaftLogEntry.term ledger ledger') : Attested ledger' message := by
  cases message with
  | appendEntries | installSnapshot => exact Covers.grow attested le_rfl grows.commits
  | appendReply peer leader term success matchIndex =>
    cases success with
    | true => exact grows.acks attested
    | false => exact True.intro
  | snapshotReply => exact fun same => grows.acks (attested same)
  | _ => exact True.intro

theorem Voted.grow (voted : Voted cluster ledger voter t candidate)
    (grows : Grows RaftLogEntry.term ledger ledger') (net : ∀ message ∈ cluster.net, message ∈ larger.net) :
    Voted larger ledger' voter t candidate := by
  rcases voted with led | ⟨request, entries, sent, term, own, ballot, fresh⟩
  · exact .inl (grows.view t led).1
  · exact .inr ⟨request, entries, net _ sent, term, own, grows.ballots ballot, fresh⟩

structure RecordStep (membership : ClusterMembership) (cluster : Cluster)
    (ledger ledger' : Ledger Nat RaftLogEntry) (i : Nat) (node : RaftConsensus) (sent : List Message)
    (counted : RaftLog) : Prop where
  moves : Relation.ReflTransGen (Move RaftLogEntry.term membership.Quorum) ledger ledger'
  refines : Refines (cluster.act i node sent) ledger'.toView
  others : ∀ j, j ≠ i → ledger'.log j = ledger.log j
  later : (cluster.nodes i).state.currentTerm ≤ node.state.currentTerm
  stands : node.state.role = .candidate → ledger'.log i = ledger.log i ∧
    ((cluster.nodes i).state.role = .candidate ∨
      (cluster.nodes i).state.currentTerm < node.state.currentTerm)
  requests : ∀ voter request, .requestVote voter request ∈ sent →
    request.candidateId = i ∧ Campaign ledger' node request
  grants : ∀ voter t candidate, .voteReply voter candidate t t true ∈ sent → Voted cluster ledger' voter t candidate
  attested : ∀ message ∈ sent, Attested ledger' message
  progress : node.state.role = .leader → ∀ peer ∈ membership.members, ∀ m,
    node.state.matchIndex peer = some m → m = 0 ∨ peer = i ∨ (peer, node.state.currentTerm, m) ∈ ledger'.acks
  covered : Covered ledger' node
  noted : ∀ c, node.state.role = .leader → (node.state.currentTerm, c) ∈ ledger'.commits → c < node.state.commitIndex
  commits : ∀ t c, (t, c) ∈ ledger'.commits → (t, c) ∈ ledger.commits ∨ ledger.leader t = some i
  raised : (cluster.nodes i).state.role = .leader → node.state.currentTerm = (cluster.nodes i).state.currentTerm →
    (cluster.nodes i).state.commitIndex < node.state.commitIndex →
      (node.state.currentTerm, node.state.commitIndex - 1) ∈ ledger'.commits ∧
        ledger'.leader node.state.currentTerm = some i ∧ Represents counted (ledger'.log i)

theorem Records.act (records : Records membership cluster ledger)
    (ok : RecordStep membership cluster ledger ledger' i node sent counted) :
    Records membership (cluster.act i node sent) ledger' := by
  have grows := moves_grow ok.moves records.complete
  have net : ∀ message ∈ cluster.net, message ∈ (cluster.act i node sent).net :=
    fun _ member => mem_append_left _ member
  refine
    { refines := ok.refines, complete := moves_complete ok.moves records.complete
      campaigns := ?_, grants := ?_, attested := ?_, progress := ?_, covered := ?_, noted := ?_ }
  · intro voter request member
    rcases mem_append.mp member with old | new
    · obtain ⟨reached, ends⟩ := records.campaigns voter request old
      by_cases own : request.candidateId = i
      · rw [own] at reached ends ⊢
        rw [act_nodes_self]
        refine ⟨reached.trans ok.later, fun stands same => ?_⟩
        obtain ⟨log, before⟩ := ok.stands stands
        rw [own, log]
        have later := ok.later
        exact ends (before.resolve_right (by omega)) (by omega)
      · rw [act_nodes_ne _ _ _ _ own]
        refine ⟨reached, fun stands same => ?_⟩
        rw [ok.others _ own]
        exact ends stands same
    · obtain ⟨own, campaign⟩ := ok.requests voter request new
      rw [own, act_nodes_self]
      exact campaign
  · intro voter t candidate granted
    rcases mem_append.mp granted with old | new
    · exact (records.grants voter t candidate old).grow grows net
    · rcases ok.grants voter t candidate new with led | ⟨request, entries, asked, rest⟩
      · exact .inl led
      · exact .inr ⟨request, entries, net _ asked, rest⟩
  · refine forall_mem_append.mpr ⟨fun message old => ?_, ok.attested⟩
    exact (records.attested message old).grow grows
  · intro j
    by_cases other : j = i
    · subst other
      rw [act_nodes_self]
      exact ok.progress
    · rw [act_nodes_ne _ _ _ _ other]
      intro leads peer member m known
      exact (records.progress j leads peer member m known).imp_right (.imp_right (grows.acks ·))
  · intro j
    by_cases other : j = i
    · subst other
      rw [act_nodes_self]
      exact ok.covered
    · rw [act_nodes_ne _ _ _ _ other]
      obtain ⟨bound, covers, within⟩ := records.covered j
      exact ⟨bound, covers.grow le_rfl grows.commits, within⟩
  · intro j c
    by_cases other : j = i
    · subst other
      rw [act_nodes_self]
      exact ok.noted c
    rw [act_nodes_ne _ _ _ _ other]
    intro leads noted
    rcases ok.commits _ c noted with old | new
    · exact records.noted j c leads old
    · have led := records.refines.leading j leads
      exact absurd (Option.some.inj (led.symm.trans new)) other

def Plain : Message → Prop
  | .requestVote _ _ => False
  | .voteReply _ _ _ _ granted => granted = false
  | _ => True

/-- Messages that neither ask for votes nor grant them. -/
def Tame (ledger : Ledger Nat RaftLogEntry) (sent : List Message) : Prop :=
  ∀ message ∈ sent, Faithful ledger.toView message ∧ Plain message ∧ Attested ledger message

/-- A node that keeps its log and its commit index and wins no role. -/
structure Unmoved (cluster : Cluster) (ledger : Ledger Nat RaftLogEntry) (i : Nat) (node : RaftConsensus) : Prop where
  id : node.id = i
  later : (cluster.nodes i).state.currentTerm ≤ node.state.currentTerm
  log : Represents node.log (ledger.log i)
  commit : node.state.commitIndex = (cluster.nodes i).state.commitIndex
  leads : node.state.role = .leader → (cluster.nodes i).state.role = .leader ∧
    node.state.currentTerm = (cluster.nodes i).state.currentTerm ∧
    ∀ peer m, node.state.matchIndex peer = some m → m = 0 ∨ (cluster.nodes i).state.matchIndex peer = some m
  stands : node.state.role = .candidate → (cluster.nodes i).state.role = .candidate ∨
    (cluster.nodes i).state.currentTerm < node.state.currentTerm
  within : ∀ bound, (cluster.nodes i).Within bound → node.Within bound

section

variable (records : Records membership cluster ledger)
include records

theorem RecordStep.quiet (moves : Relation.ReflTransGen (Move RaftLogEntry.term membership.Quorum) ledger ledger')
    (view : ledger'.toView = ledger.toView.raise i node.state.currentTerm)
    (commits : ledger'.commits = ledger.commits) (unmoved : Unmoved cluster ledger i node)
    (lawful : ∀ message ∈ sent, Faithful ledger.toView message)
    (requests : ∀ voter request, .requestVote voter request ∈ sent →
      request.candidateId = i ∧ Campaign ledger' node request)
    (grants : ∀ voter t candidate, .voteReply voter candidate t t true ∈ sent →
      Voted cluster ledger' voter t candidate) (attested : ∀ message ∈ sent, Attested ledger' message) :
    RecordStep membership cluster ledger ledger' i node sent counted := by
  obtain ⟨id, later, log, commit, leads, stands, within⟩ := unmoved
  have grows := moves_grow moves records.complete
  have refined := records.refines.quiet id later log (fun lead => ⟨(leads lead).1, (leads lead).2.1⟩) stands lawful
  have sameLog : ∀ j, ledger'.log j = ledger.log j := fun j => by
    rw [view]
    rfl
  refine
    { moves := moves, refines := view ▸ refined, others := fun j _ => sameLog j, later := later
      stands := fun stand => ⟨sameLog i, stands stand⟩, requests := requests, grants := grants
      attested := attested, progress := ?_, covered := ?_, noted := ?_
      commits := fun t c noted => .inl (commits ▸ noted)
      raised := fun _ _ raised => absurd raised (by omega) }
  · intro lead peer member m known
    obtain ⟨before, term, progress⟩ := leads lead
    rcases progress peer m known with zero | known
    · exact .inl zero
    · rw [term]
      exact (records.progress i before peer member m known).imp_right (.imp_right (grows.acks ·))
  · obtain ⟨bound, covers, inside⟩ := records.covered i
    exact ⟨bound, covers.grow later grows.commits, within bound inside⟩
  · intro c lead noted
    obtain ⟨before, term, _⟩ := leads lead
    rw [term, commits] at noted
    rw [commit]
    exact records.noted i c before noted

theorem RecordStep.plain (unmoved : Unmoved cluster ledger i node) (tame : Tame ledger sent) :
    RecordStep membership cluster ledger (ledger.raise i node.state.currentTerm) i node sent counted := by
  refine .quiet records (.single (.raise ledger i _ ?_)) rfl rfl unmoved (fun message said => (tame message said).1)
    ?_ ?_ fun message said => (tame message said).2.2
  · rw [records.refines.term i]
    exact unmoved.later
  · intro voter request asks
    exact (tame _ asks).2.1.elim
  · intro voter t candidate votes
    cases (tame _ votes).2.1

theorem RecordStep.housekeeping (kept : Housekeeping (cluster.nodes i) node) (tame : Tame ledger sent) :
    RecordStep membership cluster ledger (ledger.raise i node.state.currentTerm) i node sent counted := by
  refine .plain records ⟨kept.id.trans (records.refines.ids i), kept.term.ge,
    (records.refines.log i).compacts kept.log, kept.commit, ?_, ?_, kept.within⟩ tame
  · intro lead
    exact ⟨Role.was kept.role lead nofun, kept.term, kept.progress⟩
  · intro stand
    exact .inl (Role.was kept.role stand nofun)

theorem RecordStep.stepDown {leader : Option Nat}
    (later : (cluster.nodes i).state.currentTerm < term) (tame : Tame ledger sent) :
    RecordStep membership cluster ledger (ledger.raise i term) i
      ((cluster.nodes i).becomeFollower term leader) sent counted := by
  have id : ((cluster.nodes i).becomeFollower term leader).id = i := records.refines.ids i
  exact .plain records ⟨id, later.le, records.refines.log i, rfl, nofun, nofun, fun _ within => within⟩ tame

end

theorem RecordStep.follower (moves : Relation.ReflTransGen (Move RaftLogEntry.term membership.Quorum) ledger ledger')
    (refines : Refines (cluster.act i node sent) ledger'.toView) (follows : node.state.role = .follower)
    (others : ∀ j, j ≠ i → ledger'.log j = ledger.log j)
    (later : (cluster.nodes i).state.currentTerm ≤ node.state.currentTerm)
    (apart : (cluster.nodes i).state.role = .leader →
      node.state.currentTerm ≠ (cluster.nodes i).state.currentTerm) (covered : Covered ledger node)
    (commits : ledger'.commits = ledger.commits) (plain : ∀ message ∈ sent, Plain message)
    (attested : ∀ message ∈ sent, Attested ledger' message) :
    RecordStep membership cluster ledger ledger' i node sent counted where
  moves := moves
  refines := refines
  others := others
  later := later
  stands := by
    intro stand
    rw [follows] at stand
    cases stand
  requests := fun _ _ asks => (plain _ asks).elim
  grants := fun _ _ _ votes => nomatch plain _ votes
  attested := attested
  progress := by
    intro lead
    rw [follows] at lead
    cases lead
  covered := by
    obtain ⟨bound, covers, within⟩ := covered
    exact ⟨bound, covers.grow le_rfl commits.ge, within⟩
  noted := by
    intro _ lead
    rw [follows] at lead
    cases lead
  commits := fun _ _ noted => .inl (commits ▸ noted)
  raised := fun leads same => absurd same (apart leads)

end Cluster

end Takyonic
