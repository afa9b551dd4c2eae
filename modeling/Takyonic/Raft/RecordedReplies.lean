import Takyonic.Raft.Records

namespace Takyonic

open Foundation RaftConsensus Ledger List

/-- The length of the log is what the sender of the request may conclude from its success: nothing is
    left behind the entries, or what is left is of the sender's own term. -/
def Acknowledges (log : RaftLog) (request : AppendEntriesRequest) : Prop :=
  Settles log request ∨ log.lastTerm = request.term

instance (log : RaftLog) (request : AppendEntriesRequest) : Decidable (Acknowledges log request) :=
  inferInstanceAs (Decidable (_ ∨ _))

def Covering (log : RaftLog) (request : InstallSnapshotRequest) : Prop :=
  log.lastIndex ≤ request.lastIncludedIndex ∨
    log.snapshot.lastIncludedIndex ≤ request.lastIncludedIndex ∧
      log.termAt request.lastIncludedIndex ≠ some request.lastIncludedTerm

instance (log : RaftLog) (request : InstallSnapshotRequest) : Decidable (Covering log request) :=
  inferInstanceAs (Decidable (_ ∨ _ ∧ _))

theorem Acknowledges.continued {view : View Nat RaftLogEntry} {log : RaftLog}
    {full full' : List RaftLogEntry} {request : AppendEntriesRequest}
    (acknowledges : Acknowledges log request) (represents : Represents log full)
    (rooted : view.Rooted RaftLogEntry.term full) (batch : Batch (view.leaderLog request.term) request)
    (shaped : WellNumbered (view.leaderLog request.term))
    (stored : Stored full (view.leaderLog request.term) log.snapshot.lastIncludedIndex
      (request.prevLogIndex + request.entries.length) full') :
    full' <+: view.leaderLog request.term := by
  rcases acknowledges with settles | own
  · rw [stored.settled represents batch shaped settles]
    exact take_prefix _ _
  have whole : full <+: view.leaderLog request.term := by
    by_cases empty : full = []
    · rw [empty]
      exact nil_prefix
    · have start := (rooted.eq_take (length_pos_of_ne_nil empty)).2
      rw [← represents.endsAt.2, own] at start
      rw [start]
      exact take_prefix _ _
  rcases stored with ⟨_, same⟩ | ⟨_, same, _⟩ | ⟨_, taken, _⟩
  · rwa [same]
  · rwa [same]
  · rw [taken]
    exact take_prefix _ _

theorem Covering.sharedWithin {log : RaftLog} {full source : List RaftLogEntry}
    {request : InstallSnapshotRequest} (covering : Covering log request) (represents : Represents log full)
    (boundary : Boundary source request.lastIncludedIndex request.lastIncludedTerm) :
    SharedWithin full source request.lastIncludedIndex := by
  obtain ⟨positive, inside, term⟩ := boundary
  rcases covering with short | ⟨retained, different⟩
  · apply sharedWithin_of_length
    rwa [← represents.lastIndex]
  obtain ⟨k, last⟩ : ∃ k, request.lastIncludedIndex = k + 1 := ⟨request.lastIncludedIndex - 1, by omega⟩
  have atSource : source[k]? = some source[k] := getElem?_eq_getElem (by omega)
  rw [represents.termAt positive retained, term, last, Nat.add_sub_cancel, termBefore_succ atSource] at different
  cases atFull : full[k]? with
  | none =>
    have short := getElem?_eq_none_iff.mp atFull
    exact sharedWithin_of_length (by omega)
  | some entry =>
    refine sharedWithin_of_ne atFull atSource ?_ (by omega)
    rintro rfl
    rw [atFull] at different
    exact different rfl

namespace Cluster

variable {membership : ClusterMembership} {cluster : Cluster} {ledger : Ledger Nat RaftLogEntry}
  {node : RaftConsensus} {own request : RequestVoteRequest} {view view' : View Nat RaftLogEntry}
  {voter i t leader index peer : Nat} {allowed : Nat → Prop}

theorem electionMessages_request (sent : .requestVote voter request ∈ electionMessages node own) :
    request = own := by
  unfold electionMessages at sent
  split at sent
  · cases List.mem_singleton.mp sent
  · obtain ⟨_, _, same⟩ := List.mem_map.mp sent
    cases same
    rfl

theorem electionMessages_silent (ledger : Ledger Nat RaftLogEntry) :
    ∀ message ∈ electionMessages node own, Attested ledger message ∧
      ∀ voter t candidate, message ≠ .voteReply voter candidate t t true := by
  intro message sent
  unfold electionMessages at sent
  split at sent
  · obtain rfl := List.mem_singleton.mp sent
    exact ⟨True.intro, nofun⟩
  · obtain ⟨_, _, rfl⟩ := List.mem_map.mp sent
    exact ⟨True.intro, nofun⟩

theorem Adopted.others (adopted : Adopted view i t allowed view') : ∀ j, j ≠ i → view'.log j = view.log j := by
  intro j other
  rcases adopted with rfl | ⟨k, rfl, _⟩ <;> simp [View.raise, View.adopt, other]

theorem Adopted.leaderLog (adopted : Adopted view i t allowed view') :
    view'.leader = view.leader ∧ view'.leaderLog = view.leaderLog := by
  rcases adopted with rfl | ⟨k, rfl, _⟩ <;> exact ⟨rfl, rfl⟩

theorem Adopted.moves (adopted : Adopted ledger.toView i t allowed view')
    (later : ledger.term i ≤ t) (led : ledger.leader t = some leader) (other : i ≠ leader)
    (shared : ∀ k, allowed k → SharedWithin (ledger.log i) (ledger.leaderLog t) k) :
    Relation.ReflTransGen (Move RaftLogEntry.term membership.Quorum) ledger { ledger with toView := view' } := by
  have raised : Move RaftLogEntry.term membership.Quorum ledger (ledger.raise i t) := .raise ledger i t later
  rcases adopted with rfl | ⟨k, rfl, permitted⟩
  · exact .single raised
  have current : (ledger.raise i t).term i = t := by simp [raise, View.raise]
  refine .tail (.single raised) (.adopt _ i k ?_ ?_ ?_)
  · rw [current]
    exact Option.isSome_iff_exists.mpr ⟨leader, led⟩
  · rw [current]
    exact fun own => other (Option.some.inj (own.symm.trans led))
  · rw [current]
    exact shared k permitted

theorem Adopted.acks (membership : ClusterMembership) (adopted : Adopted ledger.toView i t allowed view')
    (led : ledger.leader t = some leader) (inside : index ≤ (ledger.leaderLog t).length)
    (continued : (ledger.leaderLog t).take index <+: view'.log i) :
    Move RaftLogEntry.term membership.Quorum { ledger with toView := view' }
      (ack { ledger with toView := view' } i index) := by
  obtain ⟨leaders, leaderLogs⟩ := adopted.leaderLog
  refine .ack _ i _ ?_ ?_ ?_
  · rw [leaders, adopted.term, led]
    rfl
  · rwa [leaderLogs, adopted.term]
  · rwa [leaderLogs, adopted.term]

theorem Refines.apart (refines : Refines cluster view) {node : RaftConsensus}
    (led : view.leader t = some leader) (other : i ≠ leader) (term : node.state.currentTerm = t)
    (leads : (cluster.nodes i).state.role = .leader) :
    node.state.currentTerm ≠ (cluster.nodes i).state.currentTerm := by
  intro same
  rw [← term, same] at led
  exact other (Option.some.inj ((refines.leading i leads).symm.trans led))

variable (records : Records membership cluster ledger)
include records

theorem Records.runElection (counted : RaftLog) (i : Nat) :
    let result := (cluster.nodes i).startElection
    RecordStep membership cluster ledger (ledger.raise i result.1.state.currentTerm) i result.1
      (electionMessages result.1 ⟨result.2.1, i, result.2.2.1, result.2.2.2⟩) counted := by
  dsimp only
  have represents := records.refines.log i
  obtain ⟨id, _, log, engine, commit, progress⟩ := startElection_frame (cluster.nodes i)
  have moved := startElection_stands (cluster.nodes i)
  rw [startElection_request]
  generalize (cluster.nodes i).startElection.1 = node at id log engine commit progress moved ⊢
  have later : (cluster.nodes i).state.currentTerm ≤ node.state.currentTerm := by
    rcases moved with ⟨_, same⟩ | ⟨_, raised⟩ <;> omega
  refine .quiet records (.single (.raise ledger i _ (by rw [records.refines.term i]; exact later))) rfl
    rfl ⟨id.trans (records.refines.ids i), later, by rwa [log], commit, ?_, ?_, ?_⟩ electionMessages_faithful
    ?_ ?_ (fun message member => (electionMessages_silent ledger message member).1)
  · intro leads
    rcases moved with ⟨same, term⟩ | ⟨stands, _⟩
    · exact ⟨same ▸ leads, term, fun _ _ known => .inr (progress ▸ known)⟩
    · rw [stands] at leads
      cases leads
  · intro stands
    rcases moved with ⟨same, _⟩ | ⟨_, raised⟩
    · exact .inl (same ▸ stands)
    · exact .inr raised
  · intro bound within
    unfold Within
    rw [commit, engine, log]
    exact within
  · intro voter request asked
    obtain rfl := electionMessages_request asked
    exact ⟨rfl, le_rfl, fun _ _ => represents.endsAt⟩
  · intro voter t candidate votes
    exact absurd rfl ((electionMessages_silent ledger _ votes).2 voter t candidate)

theorem Records.granted (counted : RaftLog) (asked : .requestVote voter request ∈ cluster.net)
    (id : node.id = voter) (term : node.state.currentTerm = request.term)
    (later : (cluster.nodes voter).state.currentTerm ≤ node.state.currentTerm)
    (role : node.state.role = .follower ∨ node.state.role = (cluster.nodes voter).state.role ∧
      node.state.currentTerm = (cluster.nodes voter).state.currentTerm)
    (log : node.log = (cluster.nodes voter).log) (engine : node.engine = (cluster.nodes voter).engine)
    (commit : node.state.commitIndex = (cluster.nodes voter).state.commitIndex)
    (progress : node.state.matchIndex = (cluster.nodes voter).state.matchIndex)
    (fresh : (cluster.nodes voter).log.isUpToDate request.lastLogIndex request.lastLogTerm = true) :
    ∃ ledger', RecordStep membership cluster ledger ledger' voter node
      [.voteReply voter request.candidateId request.term node.state.currentTerm true] counted := by
  have represents := records.refines.log voter
  obtain ⟨lastIndex, lastTerm⟩ := represents.endsAt
  have raised : Ledger.Move RaftLogEntry.term membership.Quorum ledger (ledger.raise voter node.state.currentTerm) :=
    .raise ledger voter _ (by rw [records.refines.term voter]; exact later)
  have step : ∀ {ledger'}, Relation.ReflTransGen (Ledger.Move RaftLogEntry.term membership.Quorum)
      ledger ledger' → ledger'.toView = ledger.toView.raise voter node.state.currentTerm →
      ledger'.commits = ledger.commits →
      Voted cluster ledger' voter request.term request.candidateId →
      RecordStep membership cluster ledger ledger' voter node
        [.voteReply voter request.candidateId request.term node.state.currentTerm true] counted := by
    intro ledger' moves view commits voted
    refine .quiet records moves view commits ⟨id, later, by rwa [log], commit, ?_, ?_, ?_⟩ (by simp [Faithful])
      (by simp) ?_ (by simp [Attested])
    · intro leads
      rcases role with follows | ⟨same, sameTerm⟩
      · rw [follows] at leads
        cases leads
      · exact ⟨same ▸ leads, sameTerm, fun _ _ known => .inr (progress ▸ known)⟩
    · intro stands
      rcases role with follows | ⟨same, _⟩
      · rw [follows] at stands
        cases stands
      · exact .inl (same ▸ stands)
    · intro bound within
      unfold Within
      rw [commit, engine, log]
      exact within
    · intro v t candidate votes
      rw [term] at votes
      cases List.mem_singleton.mp votes
      exact voted
  by_cases vacant : ledger.leader node.state.currentTerm = none
  · have current : (ledger.raise voter node.state.currentTerm).term voter = node.state.currentTerm := by
      simp [Ledger.raise, View.raise]
    have open' : (ledger.raise voter node.state.currentTerm).leader
        ((ledger.raise voter node.state.currentTerm).term voter) = none := by
      rw [current]
      exact vacant
    refine ⟨_, step (.tail (.single raised) (.vote _ voter request.candidateId open')) rfl rfl
      (.inr ⟨request, ledger.log voter, asked, rfl, rfl, ?_, ?_⟩)⟩
    · refine Set.mem_insert_iff.mpr (.inl ?_)
      rw [current, term]
      rfl
    · simp only [RaftLog.isUpToDate, Bool.or_eq_true, decide_eq_true_eq, Bool.and_eq_true] at fresh
      rw [lastIndex, lastTerm] at fresh
      rcases fresh with newer | ⟨same, longer⟩
      · exact .inl newer
      · exact .inr ⟨same.symm, longer⟩
  · refine ⟨_, step (.single raised) rfl rfl (.inl ?_)⟩
    rw [← term]
    exact Option.isSome_iff_ne_none.mpr vacant

theorem Records.handleRequestVote (counted : RaftLog) (asked : .requestVote voter request ∈ cluster.net) :
    let reply := (cluster.nodes voter).handleRequestVote request.term request.candidateId
      request.lastLogIndex request.lastLogTerm
    ∃ ledger', RecordStep membership cluster ledger ledger' voter reply.1
      [.voteReply voter request.candidateId request.term reply.2.1 reply.2.2] counted := by
  have refused : ∀ term, ∃ ledger', RecordStep membership cluster ledger ledger' voter
      (cluster.nodes voter) [.voteReply voter request.candidateId request.term term false] counted :=
    fun _ => ⟨_, .housekeeping records (.refl _) (by simp [Tame, Faithful, Plain, Attested])⟩
  refine handleRequestVote_rule _ (motive := fun node term granted => ∃ ledger', RecordStep membership cluster
    ledger ledger' voter node [.voteReply voter request.candidateId request.term term granted] counted)
    (refused _) ?_ ?_ ?_
  · intro later
    exact ⟨_, .stepDown records later (by simp [Tame, Faithful, Plain, Attested])⟩
  · intro later fresh
    exact records.granted counted asked (records.refines.ids voter) rfl later.le (.inl rfl) rfl rfl rfl rfl fresh
  · intro current fresh _
    exact records.granted counted asked (records.refines.ids voter) current le_rfl
      (.inr ⟨rfl, rfl⟩) rfl rfl rfl rfl fresh

theorem Records.elected (counted : RaftLog) (fixed : (cluster.nodes i).state.membership = membership)
    (stands : (cluster.nodes i).state.role = .candidate)
    (backed : Backed membership cluster i (cluster.nodes i).state.currentTerm)
    (unique : ∀ j, ((cluster.nodes i).state.currentTerm, j) ∈ cluster.leaders → j = i) :
    ∃ ledger', RecordStep membership cluster ledger ledger' i
      ((cluster.nodes i).becomeLeader (cluster.nodes i).state.currentTerm) [] counted := by
  obtain ⟨vacant, refined⟩ := records.refines.elected stands unique
  obtain ⟨supporters, members, enough, votes⟩ := backed
  have electors : ∀ v ∈ supporters, ∃ entries,
      ((ledger.vote i i).term i, i, v, entries) ∈ (ledger.vote i i).ballots ∧
        UpToDate RaftLogEntry.term ((ledger.vote i i).log i) entries := by
    intro v counted
    rcases votes v counted with rfl | granted
    · exact ⟨ledger.log v, Set.mem_insert _ _, .inr ⟨rfl, le_rfl⟩⟩
    rcases records.grants v _ i granted with led | ⟨request, entries, asked, term, own, ballot, fresh⟩
    · rw [← records.refines.term i, vacant] at led
      cases led
    refine ⟨entries, Set.mem_insert_of_mem _ ?_, ?_⟩
    · show (ledger.term i, i, v, entries) ∈ ledger.ballots
      rw [records.refines.term i]
      exact ballot
    · subst own
      obtain ⟨lastIndex, lastTerm⟩ := (records.campaigns v request asked).2 stands term.symm
      rw [lastIndex, lastTerm] at fresh
      exact fresh
  have moves : Relation.ReflTransGen (Ledger.Move RaftLogEntry.term membership.Quorum) ledger
      ((ledger.vote i i).elect i) :=
    .tail (.single (.vote ledger i i vacant)) (.elect _ i supporters vacant ⟨members, enough⟩ electors)
  refine ⟨_, { moves := moves, refines := refined, others := fun _ _ => rfl, later := ?_, stands := ?_
               requests := by simp, grants := by simp, attested := by simp, progress := ?_
               covered := ?_, noted := ?_, commits := fun _ _ noted => .inl noted
               raised := fun leads => by rw [stands] at leads; cases leads }⟩
  all_goals unfold RaftConsensus.becomeLeader
  all_goals rw [if_neg (by simp [stands])]
  · intro standing
    cases standing
  · intro _ peer member m known
    dsimp only at known
    rw [records.refines.ids i] at known
    split at known
    · rename_i self
      exact .inr (.inl self)
    · rename_i other
      have peers : peer ∈ (cluster.nodes i).peers := by
        simp [peers, ClusterMembership.peersExcept, fixed, records.refines.ids i, other, member]
      rw [if_pos peers] at known
      exact .inl (Option.some.inj known).symm
  · exact records.covered i
  · intro c _ noted
    have led := (records.complete.committed _ c noted).led
    rw [← records.refines.term i, vacant] at led
    cases led

theorem Records.heeded {node : RaftConsensus} (fresh : (cluster.nodes peer).state.currentTerm ≤ t)
    (term : node.state.currentTerm = t) (covers : Covers ledger t index)
    (within : ∀ bound, (cluster.nodes peer).Within bound → index ≤ bound → node.Within bound) :
    Covered ledger node := by
  obtain ⟨bound, coversOld, commit, applied, snapshot⟩ := records.covered peer
  have inside := le_max_left bound index
  refine ⟨max bound index, ?_, within _ ⟨commit.trans inside, applied.trans inside, snapshot.trans inside⟩
    (le_max_right bound index)⟩
  rw [term]
  exact (coversOld.grow fresh (Set.Subset.refl _)).max covers

theorem Records.appendEntries (counted : RaftLog) (io : Io) {request : AppendEntriesRequest}
    (sent : .appendEntries peer request ∈ cluster.net) (boundary : BoundaryTerm (cluster.nodes peer).log request)
    (acknowledges : (cluster.nodes peer).state.currentTerm ≤ request.term →
      prevMatches (cluster.nodes peer).log request.prevLogIndex request.prevLogTerm →
        Acknowledges (cluster.nodes peer).log request) :
    let result := (cluster.nodes peer).handleAppendEntries io request.term request.leaderId
      request.prevLogIndex request.prevLogTerm request.entries request.leaderCommit
    ∃ ledger', RecordStep membership cluster ledger ledger' peer result.1
      [.appendReply peer request.leaderId result.2.1 result.2.2.1 result.2.2.2] counted := by
  dsimp only
  obtain ⟨other, led, batch⟩ := records.refines.messages _ sent
  by_cases stale : request.term < (cluster.nodes peer).state.currentTerm
  · rw [handleAppendEntries_stale _ _ stale]
    exact ⟨_, .housekeeping records (.refl _) (by simp [Tame, Faithful, Plain, Attested])⟩
  have fresh : (cluster.nodes peer).state.currentTerm ≤ request.term := by omega
  have steady := handleAppendEntries_steady (cluster.nodes peer) io request.term request.leaderId
    request.prevLogIndex request.prevLogTerm request.entries request.leaderCommit fresh
  have follows := steady.follows (acceptLeader_follows _)
  have term := steady.term.trans (acceptLeader_term request.leaderId fresh)
  have covered := records.heeded fresh term (records.attested _ sent) fun bound within committed =>
    handleAppendEntries_within _ io within committed
  obtain ⟨view', adopted, _, refined, success⟩ := records.refines.appendEntries io sent boundary
  generalize (cluster.nodes peer).handleAppendEntries io request.term request.leaderId
    request.prevLogIndex request.prevLogTerm request.entries request.leaderCommit = result
    at follows term covered adopted refined success ⊢
  have later : (cluster.nodes peer).state.currentTerm ≤ result.1.state.currentTerm := by rwa [term]
  have apart := records.refines.apart led other term
  have moves : Relation.ReflTransGen (Move RaftLogEntry.term membership.Quorum) ledger
      { ledger with toView := view' } :=
    adopted.moves (by rwa [records.refines.term peer]) (by rwa [term]) other (fun _ shared => shared)
  cases answer : result.2.2.1 with
  | false =>
    rw [answer] at refined
    exact ⟨_, .follower moves refined follows adopted.others later apart covered rfl (by simp [Plain])
      (by simp [Attested])⟩
  | true =>
    rw [answer] at refined
    obtain ⟨reply, _, matched, length, stored⟩ := success answer
    have continued := (acknowledges fresh matched).continued (records.refines.log peer)
      (records.complete.sound.rooted peer) batch (records.refines.shaped _ (by rw [led]; rfl)) stored
    have current : view'.term peer = request.term := adopted.term.trans term
    rw [term] at adopted
    have acked := adopted.acks membership led (length ▸ continued.length_le)
      (by rw [length, ← prefix_iff_eq_take.mp continued])
    refine ⟨_, .follower (.tail moves acked) refined follows adopted.others later apart covered rfl
      (by simp [Plain]) ?_⟩
    intro message replied
    obtain rfl := mem_singleton.mp replied
    refine Set.mem_insert_iff.mpr (.inl ?_)
    rw [reply, current]

theorem Records.installSnapshot (counted : RaftLog) (io : Io) {request : InstallSnapshotRequest}
    (sent : .installSnapshot peer request ∈ cluster.net)
    (covering : request.done = true → (cluster.nodes peer).state.currentTerm ≤ request.term →
      Covering (cluster.nodes peer).log request) {replies : List Message}
    (answers : ∀ reply ∈ replies, ∃ term, request.done = true ∧
      ((cluster.nodes peer).handleInstallSnapshot io request.term request.leaderId
        request.lastIncludedIndex request.lastIncludedTerm request.data request.done).2 = .ok term ∧
      reply = .snapshotReply peer request.leaderId request.term request.lastIncludedIndex term) :
    ∃ ledger', RecordStep membership cluster ledger ledger' peer
      ((cluster.nodes peer).handleInstallSnapshot io request.term request.leaderId
        request.lastIncludedIndex request.lastIncludedTerm request.data request.done).1 replies
      counted := by
  obtain ⟨other, led, boundary⟩ := records.refines.messages _ sent
  have lawful : ∀ reply ∈ replies, Faithful ledger.toView reply := by
    intro reply member
    obtain ⟨_, _, _, rfl⟩ := answers reply member
    exact True.intro
  have plain : ∀ reply ∈ replies, Plain reply := by
    intro reply member
    obtain ⟨_, _, _, rfl⟩ := answers reply member
    exact True.intro
  by_cases stale : request.term < (cluster.nodes peer).state.currentTerm
  · rw [handleInstallSnapshot_stale _ _ stale] at answers ⊢
    refine ⟨_, .housekeeping records (.refl _) fun reply member => ?_⟩
    obtain ⟨term, _, answered, rfl⟩ := answers reply member
    cases answered
    exact ⟨True.intro, True.intro, fun same => absurd same (ne_of_lt stale)⟩
  have fresh : (cluster.nodes peer).state.currentTerm ≤ request.term := by omega
  have steady := handleInstallSnapshot_steady (cluster.nodes peer) io request.term request.leaderId
    request.lastIncludedIndex request.lastIncludedTerm request.data request.done fresh
  have follows := steady.follows rfl
  have term : _ = request.term := steady.term
  have covered := records.heeded fresh term (records.attested _ sent) fun bound within included =>
    handleInstallSnapshot_within _ io within included
  obtain ⟨view', adopted, _, refined, success⟩ := records.refines.installSnapshot io sent lawful
  generalize (cluster.nodes peer).handleInstallSnapshot io request.term request.leaderId
    request.lastIncludedIndex request.lastIncludedTerm request.data request.done = result
    at answers follows term covered adopted refined success ⊢
  have later : (cluster.nodes peer).state.currentTerm ≤ result.1.state.currentTerm := by rwa [term]
  have apart := records.refines.apart led other term
  have moves : Relation.ReflTransGen (Move RaftLogEntry.term membership.Quorum) ledger
      { ledger with toView := view' } := by
    refine adopted.moves (by rwa [records.refines.term peer]) (by rwa [term]) other ?_
    rintro k ⟨rfl, done, _, _⟩
    rw [term]
    exact (covering done fresh).sharedWithin (records.refines.log peer) boundary
  by_cases answered : request.done = true ∧ result.2 = .ok request.term
  · have log := (success answered.1 answered.2).2
    have current : view'.term peer = request.term := adopted.term.trans term
    rw [term] at adopted
    have acked := adopted.acks membership led boundary.2.1 (by rw [log])
    refine ⟨_, .follower (.tail moves acked) refined follows adopted.others later apart covered rfl plain ?_⟩
    intro reply member
    obtain ⟨replied, _, _, rfl⟩ := answers reply member
    rintro rfl
    refine Set.mem_insert_iff.mpr (.inl ?_)
    show (peer, request.term, request.lastIncludedIndex) = (peer, view'.term peer, request.lastIncludedIndex)
    rw [current]
  · refine ⟨_, .follower moves refined follows adopted.others later apart covered rfl plain ?_⟩
    intro reply member
    obtain ⟨replied, done, answer, rfl⟩ := answers reply member
    rintro rfl
    exact absurd ⟨done, answer⟩ answered

end Cluster

end Takyonic
