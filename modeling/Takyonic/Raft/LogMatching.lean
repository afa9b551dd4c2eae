import Takyonic.Raft.ElectionSafety
import Takyonic.Raft.Refinement

namespace Takyonic

open Foundation RaftConsensus

namespace Cluster

variable {cluster : Cluster} {view : View Nat RaftLogEntry} {i term peer : Nat} {node : RaftConsensus}
  {sent replies : List Message} {first second labels : List Label} {full full' : List RaftLogEntry}

/-- No AppendEntries request carries another term at the snapshot boundary of the node it reaches. -/
def BoundaryKept (cluster : Cluster) : Label → Prop
  | .appendEntries _ peer request => BoundaryTerm (cluster.nodes peer).log request
  | _ => True

instance : Decidable (BoundaryKept cluster label) := by
  rcases label with ⟨⟩ <;> unfold BoundaryKept <;> infer_instance

def UniqueLeaders (cluster : Cluster) : Prop :=
  ∀ term i j, (term, i) ∈ cluster.leaders → (term, j) ∈ cluster.leaders → i = j

def Follows (view : View Nat RaftLogEntry) (next : Cluster) : Prop :=
  ∃ view', Relation.ReflTransGen (View.Turn RaftLogEntry.term) view view' ∧ Refines next view'

section

variable (refines : Refines cluster view)
include refines

theorem Refines.stutter : Follows view cluster :=
  ⟨view, .refl, refines⟩

theorem Refines.tally (candidate term : Nat) (votes : Finset Nat) :
    Refines (cluster.tally candidate term votes) view := { refines with }

theorem Refines.follow_steady (kept : Steady (cluster.nodes i) node) (log : Represents node.log (view.log i))
    (lawful : ∀ message ∈ sent, Faithful view message) : Follows view (cluster.act i node sent) := by
  refine ⟨_, .single (.raise i _ ?_), refines.steady kept log lawful⟩
  rw [refines.term i, kept.term]

theorem Refines.follow_housekeeping (kept : Housekeeping (cluster.nodes i) node)
    (lawful : ∀ message ∈ sent, Faithful view message) : Follows view (cluster.act i node sent) :=
  refines.follow_steady kept.steady ((refines.log i).compacts kept.log) lawful

theorem Refines.follow_later (id : node.id = (cluster.nodes i).id) (log : node.log = (cluster.nodes i).log)
    (later : (cluster.nodes i).state.currentTerm < node.state.currentTerm)
    (notLeader : node.state.role ≠ .leader) (lawful : ∀ message ∈ sent, Faithful view message) :
    Follows view (cluster.act i node sent) := by
  refine ⟨_, .single (.raise i _ ?_), refines.quiet (id.trans (refines.ids i)) later.le
    (by rw [log]; exact refines.log i) (fun leads => absurd leads notLeader) (fun _ => .inr later) lawful⟩
  rw [refines.term i]
  exact later.le

theorem Refines.retreat {i : Nat} (retreats : (cluster.nodes i).Retreats node) :
    Follows view (cluster.act i node []) := by
  cases retreats with
  | down later => exact refines.follow_later rfl rfl later nofun (by simp)
  | stay _ => exact refines.follow_housekeeping (.of_eq rfl rfl rfl rfl rfl rfl rfl rfl rfl) (by simp)

end

theorem electionMessages_faithful {request : RequestVoteRequest} :
    ∀ message ∈ electionMessages node request, Faithful view message := by
  intro message sent
  unfold electionMessages at sent
  split at sent
  · obtain rfl := List.mem_singleton.mp sent
    exact True.intro
  · obtain ⟨peer, _, rfl⟩ := List.mem_map.mp sent
    exact True.intro

theorem Refines.startElection (refines : Refines cluster view) (i : Nat)
    (lawful : ∀ message ∈ sent, Faithful view message) :
    Follows view (cluster.act i (cluster.nodes i).startElection.1 sent) := by
  unfold RaftConsensus.startElection
  split
  · exact refines.follow_housekeeping (.refl _) lawful
  · exact refines.follow_later rfl rfl (Nat.lt_succ_self _) nofun lawful

theorem Refines.handleRequestVote (refines : Refines cluster view) (voter : Nat) (request : RequestVoteRequest)
    (lawful : ∀ message ∈ sent, Faithful view message) :
    Follows view (cluster.act voter ((cluster.nodes voter).handleRequestVote request.term
      request.candidateId request.lastLogIndex request.lastLogTerm).1 sent) := by
  have unchanged := refines.follow_housekeeping (.refl (cluster.nodes voter)) lawful
  refine handleRequestVote_rule _ (motive := fun node _ _ => Follows view (cluster.act voter node sent)) unchanged
    ?_ ?_ ?_
  · exact fun later => refines.follow_later rfl rfl later nofun lawful
  · exact fun later _ => refines.follow_later rfl rfl later nofun lawful
  · exact fun _ _ _ => ⟨_, .single (.raise voter _ (refines.term voter).le), refines.quiet (refines.ids voter)
      le_rfl (refines.log voter) (fun leads => ⟨leads, rfl⟩) .inl lawful⟩

theorem becomeLeader_unchanged (ineligible : ¬ (node.state.currentTerm = term ∧ node.state.role = .candidate)) :
    node.becomeLeader term = node := by
  unfold RaftConsensus.becomeLeader
  rw [if_pos (by tauto)]

theorem UniqueLeaders.before (stands : (cluster.nodes i).state.role = .candidate)
    (unique : UniqueLeaders (cluster.act i ((cluster.nodes i).becomeLeader (cluster.nodes i).state.currentTerm) [])) :
    ∀ j, ((cluster.nodes i).state.currentTerm, j) ∈ cluster.leaders → j = i := by
  intro j led
  refine unique _ j i ((mem_act_leaders _ _ _ []).mpr (.inl led)) ((mem_act_leaders _ _ _ []).mpr (.inr ?_))
  simp [RaftConsensus.becomeLeader, stands]

section

variable (refines : Refines cluster view)
include refines

theorem Refines.becomeLeader (unique : UniqueLeaders (cluster.act i ((cluster.nodes i).becomeLeader term) [])) :
    Follows view (cluster.act i ((cluster.nodes i).becomeLeader term) []) := by
  by_cases eligible : (cluster.nodes i).state.currentTerm = term ∧
      (cluster.nodes i).state.role = .candidate
  · obtain ⟨rfl, stands⟩ := eligible
    obtain ⟨vacant, elected⟩ := refines.elected stands (unique.before stands)
    exact ⟨_, .single (.elect i vacant), elected⟩
  · rw [becomeLeader_unchanged eligible]
    exact refines.follow_housekeeping (.refl _) (by simp)

theorem Refines.flushPendingProposes (io : Io) (i : Nat) :
    Follows view (cluster.act i ((cluster.nodes i).flushPendingProposes io).1 []) := by
  have steady := flushPendingProposes_steady (cluster.nodes i) io
  obtain ⟨entries, log, own, leads⟩ := flushPendingProposes_represents (refines.log i) io
    (fun leads => refines.active i (by rw [leads]; decide))
  by_cases leading : (cluster.nodes i).state.role = .leader
  · obtain ⟨led, fresh, appended⟩ := refines.appended steady leading log own
    exact ⟨_, .single (.append i entries led fresh), appended⟩
  · have nothing : entries = [] := not_not.mp (fun some => leading (leads some))
    rw [nothing, List.append_nil] at log
    exact refines.follow_steady steady log (by simp)

theorem Refines.follow_snapshot (io : Io) {request : InstallSnapshotRequest}
    (sent : .installSnapshot peer request ∈ cluster.net) (lawful : ∀ reply ∈ replies, Faithful view reply) :
    Follows view (cluster.act peer ((cluster.nodes peer).handleInstallSnapshot io request.term
      request.leaderId request.lastIncludedIndex request.lastIncludedTerm request.data
      request.done).1 replies) := by
  obtain ⟨view', _, turns, next, _⟩ := refines.installSnapshot io sent lawful
  exact ⟨view', turns, next⟩

theorem Refines.step {label : Label} (unique : UniqueLeaders (cluster.step label))
    (boundary : BoundaryKept cluster label) : Follows view (cluster.step label) := by
  have stepped := cluster.step_stepped label
  generalize cluster.step label = after at stepped unique ⊢
  cases stepped with
  | idle => exact refines.stutter
  | @runElection i =>
    obtain ⟨view', turns, next⟩ := refines.startElection i electionMessages_faithful
    exact ⟨view', turns, next.tally _ _ _⟩
  | requestVote _ => exact refines.handleRequestVote _ _ (by simp [Faithful])
  | appendEntries sent =>
    obtain ⟨view', _, turns, next, _⟩ := refines.appendEntries _ sent boundary
    exact ⟨view', turns, next⟩
  | installSnapshot sent answers =>
    refine refines.follow_snapshot _ sent fun reply member => ?_
    obtain ⟨_, _, _, rfl⟩ := answers reply member
    exact True.intro
  | maybeStepDown _ _ => exact refines.retreat (maybeStepDown_retreats _)
  | @recordVoteGranted voter candidate term _ =>
    have noted : Follows view (cluster.act candidate (cluster.nodes candidate)
        (if ((cluster.nodes candidate).recordVoteGranted term voter (cluster.votes candidate term)).2
          then [.elected candidate term] else [])) :=
      refines.follow_housekeeping (.refl _) (by split <;> simp [Faithful])
    obtain ⟨view', turns, next⟩ := noted
    exact ⟨view', turns, next.tally _ _ _⟩
  | becomeLeader _ => exact refines.becomeLeader unique
  | onAppendSuccess _ =>
    exact refines.follow_steady (onAppendSuccess_steady _ _ _ _)
      ((refines.log _).compacts (onAppendSuccess_log _ _ _ _)) (by simp)
  | onAppendFailure _ => exact refines.retreat (onAppendFailure_retreats _)
  | onSnapshotSuccess _ =>
    exact refines.follow_steady (onSnapshotSuccess_steady _ _ _)
      (by rw [onSnapshotSuccess_log]; exact refines.log _) (by simp)
  | onPeerUnreachable => exact refines.follow_housekeeping (onPeerUnreachable_housekeeping _ _) (by simp)
  | ensurePeerCursors => exact refines.follow_housekeeping (ensurePeerCursors_housekeeping _ _) (by simp)
  | propose =>
    exact refines.follow_steady (propose_steady _ _ _) (by rw [propose_log]; exact refines.log _) (by simp)
  | flushPendingProposes => exact refines.flushPendingProposes _ _
  | @sendAppendEntries leader peer request other built =>
    obtain ⟨leads, term, sender, _⟩ := leaderPeerCursor_leads (requestFor_cursor built)
    have led := refines.leading leader leads
    have own := refines.sound.own leader (by rwa [refines.term leader])
    have batch := requestFor_batch (refines.log leader) built
    rw [own, refines.term leader] at batch
    refine refines.follow_housekeeping (.refl _) ?_
    simpa [Faithful, term, sender, refines.ids leader] using ⟨other, led, batch⟩
  | @sendSnapshot io leader peer cooled node _ _ index indexTerm data other built =>
    have housekeeping := buildInstallSnapshot_built built
    obtain ⟨leads, rfl, rfl, _⟩ := buildInstallSnapshot_leads built
    have led := refines.leading leader leads
    have own := refines.sound.own leader (by rwa [refines.term leader])
    have boundary := buildInstallSnapshot_boundary (refines.log leader) built
    rw [own, refines.term leader] at boundary
    refine refines.follow_housekeeping housekeeping fun message sent => ?_
    obtain ⟨chunk, _, rfl⟩ := List.mem_map.mp sent
    simpa [Faithful, refines.ids leader] using ⟨other, led, boundary⟩
  | buildFailed built => exact refines.follow_housekeeping (buildInstallSnapshot_built built) (by simp)

end

variable (io : Io) (membership : ClusterMembership) (threshold : Nat → Nat)

theorem start_refines :
    Refines (start io membership threshold) ⟨fun _ => 0, fun _ => [], fun _ => none, fun _ => []⟩ where
  sound :=
    { rooted := fun _ k entry found => by simp at found
      leaderRooted := fun _ led => nomatch led
      ascending := fun _ => ⟨.nil, by simp⟩
      leaderAscending := fun _ led => nomatch led
      reached := fun _ _ led => nomatch led
      own := fun _ led => nomatch led }
  ids := fun _ => rfl
  term := fun _ => rfl
  log := fun _ => .create
  leading := fun _ leads => nomatch leads
  history := fun _ _ led => nomatch led
  pinned := fun _ led => nomatch led
  active := fun _ working => absurd rfl working
  shaped := fun _ led => nomatch led
  messages := fun _ sent => nomatch sent

theorem uniqueLeaders_iff_oneLeader (labels : List Label) :
    UniqueLeaders (run step (start io membership threshold) labels) ↔
      OneLeader (start io membership threshold) labels := by
  unfold UniqueLeaders OneLeader
  simp only [mem_leaders_iff_hasLed]

theorem UniqueLeaders.earlier (unique : UniqueLeaders (run step cluster (first ++ second))) :
    UniqueLeaders (run step cluster first) := by
  intro term i j atFirst atSecond
  rw [run_append] at unique
  exact unique term i j (leaders_run _ second atFirst) (leaders_run _ second atSecond)

theorem UniqueLeaders.along (unique : UniqueLeaders (run step cluster labels)) :
    Along step (fun cluster label => UniqueLeaders (cluster.step label)) cluster labels := by
  induction labels generalizing cluster with
  | nil => exact True.intro
  | cons label rest ih =>
    refine ⟨fun term i j first second => ?_, ih unique⟩
    exact unique term i j (leaders_run _ rest first) (leaders_run _ rest second)

theorem Refines.follow_run (refines : Refines cluster view) (unique : UniqueLeaders (run Cluster.step cluster labels))
    (kept : Along Cluster.step BoundaryKept cluster labels) :
    Follows view (run Cluster.step cluster labels) :=
  (unique.along.and kept).simulation refines (fun _ _ _ refines allowed => refines.step allowed.1 allowed.2)

/-- Two logs that hold an entry with the same index and term hold the same command there and the
    same entries at every smaller index that neither has compacted. -/
def LogsMatch (first second : RaftLog) : Prop :=
  ∀ index a b, first.entry index = some a → second.entry index = some b → a.term = b.term →
    a.command = b.command ∧
      ∀ k < index, first.snapshot.lastIncludedIndex < k → second.snapshot.lastIncludedIndex < k →
        first.entry k = second.entry k

theorem LogsMatch.of_agree {first second : RaftLog} (left : Represents first full) (right : Represents second full')
    (agree : Agree RaftLogEntry.term full full') : LogsMatch first second := by
  intro index a b atFirst atSecond same
  rw [left.entry] at atFirst
  rw [right.entry] at atSecond
  split at atFirst
  · split at atSecond
    · have prefixes := agree _ a b atFirst atSecond same
      have entryAt : ∀ k, k < index → full[k]? = full'[k]? := by
        intro k below
        have there := congrArg (fun entries => entries[k]?) prefixes
        simpa [List.getElem?_take, show k < index - 1 + 1 by omega] using there
      constructor
      · have found := entryAt (index - 1) (by omega)
        rw [atFirst, atSecond, Option.some.injEq] at found
        rw [found]
      · intro k below keptFirst keptSecond
        rw [left.entry, right.entry, if_pos keptFirst, if_pos keptSecond]
        exact entryAt _ (by omega)
    · cases atSecond
  · cases atFirst

/-- Log matching: as long as no AppendEntries reaches a node with another term at the node's
    snapshot boundary, any two logs match. -/
theorem logs_match (labels : List Label) (unique : OneLeader (start io membership threshold) labels)
    (kept : Along step BoundaryKept (start io membership threshold) labels) (i j : Nat) :
    LogsMatch ((run step (start io membership threshold) labels).nodes i).log
      ((run step (start io membership threshold) labels).nodes j).log := by
  have unique := (uniqueLeaders_iff_oneLeader io membership threshold labels).mpr unique
  obtain ⟨view, _, refines⟩ := (start_refines io membership threshold).follow_run unique kept
  exact .of_agree (refines.log i) (refines.log j) ((refines.sound.rooted i).agree (refines.sound.rooted j))

def quintet : ClusterMembership :=
  .fromEndpoints [(1, "n1:9000"), (2, "n2:9000"), (3, "n3:9000"), (4, "n4:9000"), (5, "n5:9000")]

def lonelyEntry : List Label :=
  let io := Io.reliable quintet
  [.runElection 1, .requestVote 2 ⟨1, 1, 0, 0⟩, .requestVote 3 ⟨1, 1, 0, 0⟩,
    .recordVoteGranted 2 1 1, .recordVoteGranted 3 1 1, .becomeLeader 1 1, .flushPendingProposes io 1]

def emptyRequest : List Label :=
  let io := Io.reliable quintet
  [.runElection 2, .requestVote 3 ⟨2, 2, 0, 0⟩, .requestVote 4 ⟨2, 2, 0, 0⟩,
    .recordVoteGranted 3 2 2, .recordVoteGranted 4 2 2, .becomeLeader 2 2,
    .flushPendingProposes { io with append := fun _ => false } 2, .sendAppendEntries 2 1,
    .appendEntries io 1 ⟨2, 2, 0, 0, [], 0⟩, .appendReply io 1 2 2 true 1, .propose 2 .noop 8,
    .flushPendingProposes io 2, .sendAppendEntries 2 3,
    .appendEntries io 3 ⟨2, 2, 0, 0, [⟨2, 1, noopCommand⟩], 0⟩, .appendReply io 3 2 2 true 1]

def skippedBoundary : List Label :=
  let io := Io.reliable quintet
  [.runElection 1, .requestVote 4 ⟨3, 1, 1, 1⟩, .requestVote 5 ⟨3, 1, 1, 1⟩,
    .recordVoteGranted 4 1 3, .recordVoteGranted 5 1 3, .becomeLeader 1 3, .flushPendingProposes io 1,
    .onPeerUnreachable 1 2, .sendAppendEntries 1 2,
    .appendEntries io 2 ⟨3, 1, 0, 0, [⟨1, 1, noopCommand⟩, ⟨3, 2, noopCommand⟩], 0⟩]

def mixedLog : List Label :=
  let io := Io.reliable quintet
  [.runElection 2, .requestVote 3 ⟨4, 2, 2, 3⟩, .requestVote 5 ⟨4, 2, 2, 3⟩,
    .recordVoteGranted 3 2 4, .recordVoteGranted 5 2 4, .becomeLeader 2 4, .flushPendingProposes io 2,
    .sendAppendEntries 2 3, .appendEntries io 3 ⟨4, 2, 2, 3, [⟨4, 3, noopCommand⟩], 1⟩,
    .appendReply io 3 2 4 false 1, .sendAppendEntries 2 3,
    .appendEntries io 3 ⟨4, 2, 1, 2, [⟨3, 2, noopCommand⟩, ⟨4, 3, noopCommand⟩], 1⟩]

def secondCompacts : Nat → Nat := fun i => if i = 2 then 1 else 0

instance : Decidable (UniqueLeaders cluster) :=
  decidable_of_iff (∀ first ∈ cluster.leaders, ∀ second ∈ cluster.leaders,
      first.1 = second.1 → first.2 = second.2)
    ⟨fun unique _ _ _ first second => unique _ first _ second rfl,
      fun unique first led second led' same => unique first.1 first.2 second.2 led (same ▸ led')⟩

theorem logs_differ_below_shared_entry :
    let labels := lonelyEntry ++ emptyRequest ++ skippedBoundary ++ mixedLog
    let first := start (Io.reliable quintet) quintet secondCompacts
    OneLeader first labels ∧
      ¬ LogsMatch ((run step first labels).nodes 1).log ((run step first labels).nodes 3).log := by
  constructor
  · rw [← uniqueLeaders_iff_oneLeader]
    decide +kernel
  · intro matching
    have below := (matching 2 ⟨3, 2, noopCommand⟩ ⟨3, 2, noopCommand⟩ (by decide +kernel)
      (by decide +kernel) rfl).2 1 (by decide) (by decide +kernel) (by decide +kernel)
    exact absurd below (by decide +kernel)

def secondEntry : List Label :=
  let io := Io.reliable trio
  [.propose 1 .noop 7, .flushPendingProposes io 1, .sendAppendEntries 1 2, .sendAppendEntries 1 3,
    .appendEntries io 2 ⟨1, 1, 1, 1, [⟨1, 2, noopCommand⟩], 1⟩,
    .appendEntries io 3 ⟨1, 1, 0, 0, [⟨1, 1, noopCommand⟩, ⟨1, 2, noopCommand⟩], 1⟩]

theorem logs_match_secondEntry :
    let labels := firstTerm ++ secondEntry
    let first := start (Io.reliable trio) trio (fun _ => 0)
    LogsMatch ((run step first labels).nodes 2).log ((run step first labels).nodes 3).log ∧
      ((run step first labels).nodes 2).log.entry 2 = some ⟨1, 2, noopCommand⟩ ∧
      ((run step first labels).nodes 3).log.entry 2 = some ⟨1, 2, noopCommand⟩ := by
  refine ⟨logs_match (Io.reliable trio) trio (fun _ => 0) (firstTerm ++ secondEntry) ?_
    (by decide +kernel) 2 3, by decide +kernel, by decide +kernel⟩
  rw [← uniqueLeaders_iff_oneLeader]
  decide +kernel

end Cluster

open List Io

def Conflicts (log : RaftLog) (request : AppendEntriesRequest) : Prop :=
  ∃ entry ∈ request.entries, log.snapshot.lastIncludedIndex < entry.index ∧
    log.termAt entry.index ≠ none ∧ log.termAt entry.index ≠ some entry.term

instance (log : RaftLog) (request : AppendEntriesRequest) : Decidable (Conflicts log request) :=
  inferInstanceAs (Decidable (∃ entry ∈ request.entries, _))

def Settles (log : RaftLog) (request : AppendEntriesRequest) : Prop :=
  log.lastIndex ≤ request.prevLogIndex + request.entries.length ∨ Conflicts log request

instance (log : RaftLog) (request : AppendEntriesRequest) : Decidable (Settles log request) :=
  inferInstanceAs (Decidable (_ ∨ _))

section Settled

variable {log : RaftLog} {full source full' : List RaftLogEntry} {request : AppendEntriesRequest}

theorem Batch.entry_at (batch : Batch source request) (shaped : WellNumbered source)
    {entry : RaftLogEntry} (member : entry ∈ request.entries) :
    source[entry.index - 1]? = some entry ∧
      entry.index ≤ request.prevLogIndex + request.entries.length := by
  obtain ⟨k, inside, rfl⟩ := getElem_of_mem member
  have found : request.entries[k]? = some request.entries[k] := getElem?_eq_getElem inside
  have index := batch.consecutive shaped k _ found
  have slice := congrArg (fun entries => entries[k]?) batch.1
  rw [found] at slice
  simp only [getElem?_take, inside, getElem?_drop] at slice
  constructor
  · rw [index, show request.prevLogIndex + 1 + k - 1 = request.prevLogIndex + k by omega]
    exact slice.symm
  · omega

theorem Batch.reached (batch : Batch source request) (represents : Represents log full)
    (matched : prevMatches log request.prevLogIndex request.prevLogTerm) :
    request.prevLogIndex + request.entries.length ≤ source.length := by
  have lengths := congrArg length batch.1
  simp only [length_take, length_drop] at lengths
  by_cases first : request.prevLogIndex = 0
  · omega
  have found : log.termAt request.prevLogIndex = some request.prevLogTerm := by
    by_contra mismatch
    exact matched ⟨by omega, mismatch⟩
  have retained : log.snapshot.lastIncludedIndex ≤ request.prevLogIndex := by
    by_contra below
    rw [RaftLog.termAt_compacted (by omega) (by omega)] at found
    cases found
  rw [represents.termAt (by omega) retained] at found
  obtain ⟨entry, there, term⟩ := Option.map_eq_some_iff.mp found
  have positive := represents.positive entry (mem_of_getElem? there)
  have inside := (batch.2.resolve_left (by omega)).1
  omega

section

variable (represents : Represents log full) (batch : Batch source request) (shaped : WellNumbered source)
include represents batch shaped

theorem Conflicts.not_shared (conflict : Conflicts log request)
    (same : full.take (request.prevLogIndex + request.entries.length) =
      source.take (request.prevLogIndex + request.entries.length)) : False := by
  obtain ⟨entry, member, above, _, different⟩ := conflict
  obtain ⟨there, within⟩ := batch.entry_at shaped member
  apply different
  rw [represents.termAt (by omega) (by omega), getElem?_of_take_eq same (by omega), there]
  rfl

theorem Stored.settled (stored : Stored full source log.snapshot.lastIncludedIndex
      (request.prevLogIndex + request.entries.length) full') (settles : Settles log request) :
    full' = source.take (request.prevLogIndex + request.entries.length) := by
  have inside := represents.inside
  rcases stored with ⟨below, _⟩ | ⟨_, rfl, same⟩ | ⟨_, taken, _⟩
  · rcases settles with short | ⟨entry, member, above, _⟩
    · rw [represents.lastIndex] at short
      omega
    · have within := (batch.entry_at shaped member).2
      omega
  · rcases settles with short | conflict
    · rw [represents.lastIndex] at short
      rw [← same, take_of_length_le short]
    · exact (conflict.not_shared represents batch shaped same).elim
  · exact taken

end

end Settled

namespace Cluster

variable {cluster : Cluster} {view : View Nat RaftLogEntry}

def CommitWithin (cluster : Cluster) (peer : Nat) (request : AppendEntriesRequest) : Prop :=
  request.leaderCommit ≤ request.prevLogIndex + request.entries.length ∨
    Settles (cluster.nodes peer).log request

instance : Decidable (CommitWithin cluster peer request) := inferInstanceAs (Decidable (_ ∨ _))

theorem Refines.commit_shared (refines : Refines cluster view) (io : Io) {peer leader : Nat}
    {request : AppendEntriesRequest} {source : List RaftLogEntry} (batch : Batch source request)
    (led : view.leader request.term = some leader) (continued : source <+: view.leaderLog request.term)
    (boundary : BoundaryTerm (cluster.nodes peer).log request) (within : CommitWithin cluster peer request) :
    let after := ((cluster.nodes peer).handleAppendEntries io request.term request.leaderId
      request.prevLogIndex request.prevLogTerm request.entries request.leaderCommit).1
    (cluster.nodes peer).state.commitIndex < after.state.commitIndex →
      ∃ full', Represents after.log full' ∧ ∀ k, after.log.snapshot.lastIncludedIndex ≤ k →
        k < after.state.commitIndex → full'[k]? = source[k]? := by
  intro after raised
  have represents := refines.log peer
  have shaped := refines.shaped request.term (by rw [led]; rfl)
  have agree : Agree RaftLogEntry.term (view.log peer) (view.leaderLog request.term) :=
    (refines.sound.rooted peer).agree (refines.sound.leaderRooted _ (by rw [led]; rfl))
  have whole := batch.mono continued
  have fresh : (cluster.nodes peer).state.currentTerm ≤ request.term := by
    by_contra stale
    have unchanged : after = cluster.nodes peer := by
      show (RaftConsensus.handleAppendEntries _ _ _ _ _ _ _ _).1 = _
      unfold handleAppendEntries
      rw [if_pos (by omega)]
    rw [unchanged] at raised
    exact lt_irrefl _ raised
  have moved := handleAppendEntries_boundary (cluster.nodes peer) io request.term request.leaderId
    request.prevLogIndex request.prevLogTerm request.entries request.leaderCommit
  obtain ⟨full', kept, outcome⟩ : ∃ full', Represents after.log full' ∧ _ :=
    handleAppendEntries_spec io represents fresh (whole.consecutive shaped) (whole.positive shaped)
  refine ⟨full', kept, fun k retained below => ?_⟩
  rcases outcome with ⟨_, _, _, same⟩ | ⟨_, _, _, _, same⟩ | ⟨matched, inside, written, _, commit⟩
  · exact absurd raised (by rw [same]; exact lt_irrefl _)
  · exact absurd raised (by rw [same]; exact lt_irrefl _)
  · have stored := overwrite_stored represents agree shaped whole matched boundary inside
    rw [← written] at stored
    have reached := batch.reached represents matched
    have sameStart : (view.leaderLog request.term).take (request.prevLogIndex + request.entries.length) =
        source.take (request.prevLogIndex + request.entries.length) := by
      obtain ⟨more, longer⟩ := continued
      rw [← longer, take_append_of_le_length reached]
    have bound : k < request.leaderCommit ∧ k < full'.length := by
      rw [show after.state.commitIndex = _ from commit] at raised below
      rw [followerCommit_raised raised] at below
      omega
    have taken : full' = source.take (request.prevLogIndex + request.entries.length) → full'[k]? = source[k]? := by
      intro replaced
      have short := bound.2
      rw [replaced, length_take] at short
      rw [replaced, getElem?_take, if_pos (by omega)]
    rcases within with early | settles
    · rcases stored with ⟨ended, _⟩ | ⟨_, same, shared⟩ | ⟨_, replaced, _⟩
      · have moved : (cluster.nodes peer).log.snapshot.lastIncludedIndex ≤ k := moved.trans retained
        omega
      · rw [same]
        exact getElem?_of_take_eq (shared.trans sameStart) (by omega)
      · exact taken (replaced.trans sameStart)
    · exact taken ((stored.settled represents whole shaped settles).trans sameStart)

def HeldBy (log : RaftLog) (entry : RaftLogEntry) : Prop :=
  (log.snapshot.lastIncludedIndex < entry.index → log.entry entry.index = some entry) ∧
    ∀ dropped ∈ log.compacted, dropped.index = entry.index → dropped = entry

instance (log : RaftLog) (entry : RaftLogEntry) : Decidable (HeldBy log entry) :=
  inferInstanceAs (Decidable ((_ → _) ∧ ∀ dropped ∈ log.compacted, _ → _))

theorem HeldBy.of_full {log : RaftLog} {full : List RaftLogEntry} {entry : RaftLogEntry}
    (represents : Represents log full) (found : full[entry.index - 1]? = some entry) :
    HeldBy log entry := by
  constructor
  · intro above
    rw [represents.entry, if_pos above, found]
  · intro dropped member same
    have there := represents.compacted_entry member
    rw [same, found, Option.some.injEq] at there
    exact there.symm

/-- Follower commit soundness: when a request raises a follower's commit index, each of its entries
    up to there is the one the sender held when it built the request, as long as no request carries
    another term at a snapshot boundary and this one leaves nothing uncovered behind its entries. -/
theorem follower_commit_sound (io : Io) (membership : ClusterMembership) (threshold : Nat → Nat)
    (before middle : List Label) (disk : Io) (leader peer : Nat) (request : AppendEntriesRequest)
    (unique : OneLeader (start io membership threshold)
      (before ++ .sendAppendEntries leader peer :: middle ++ [.appendEntries disk peer request]))
    (kept : Along step BoundaryKept (start io membership threshold)
      (before ++ .sendAppendEntries leader peer :: middle ++ [.appendEntries disk peer request]))
    (built : requestFor ((run step (start io membership threshold) before).nodes leader) peer =
      some request) (within : CommitWithin (run step (start io membership threshold)
      (before ++ .sendAppendEntries leader peer :: middle)) peer request) :
    let sent := run step (start io membership threshold) before
    let reached := run step (start io membership threshold) (before ++ .sendAppendEntries leader peer :: middle)
    let follower := (reached.step (.appendEntries disk peer request)).nodes peer
    (reached.nodes peer).state.commitIndex < follower.state.commitIndex →
      ∀ entry ∈ follower.log.entries, entry.index ≤ follower.state.commitIndex →
        HeldBy (sent.nodes leader).log entry := by
  intro sent reached follower raised entry member committed
  have uniqueReached := ((uniqueLeaders_iff_oneLeader _ _ _ _).mpr unique).earlier
  obtain ⟨keptReached, boundary, _⟩ := Along.append.mp kept
  obtain ⟨keptSent, keptAfter⟩ := Along.append.mp keptReached
  obtain ⟨early, _, refinesSent⟩ := (start_refines io membership threshold).follow_run uniqueReached.earlier keptSent
  obtain ⟨late, turns, followed⟩ := refinesSent.follow_run (by rwa [← run_append]) keptAfter
  have refines : Refines reached late := by rwa [← run_append] at followed
  obtain ⟨leads, current, _⟩ := leaderPeerCursor_leads (requestFor_cursor built)
  have led := refinesSent.leading leader leads
  have own := refinesSent.sound.own leader (by rwa [refinesSent.term leader])
  have batch := requestFor_batch (refinesSent.log leader) built
  rw [refinesSent.term leader, ← current] at own
  rw [← current] at led
  obtain ⟨stillLed, continued⟩ := View.turns_leaderLog_prefix turns refinesSent.sound led
  rw [← own] at continued
  have shared := refines.commit_shared disk batch stillLed continued boundary within
  have delivered : follower = ((reached.nodes peer).handleAppendEntries disk request.term
      request.leaderId request.prevLogIndex request.prevLogTerm request.entries
      request.leaderCommit).1 := by
    show ((reached.step (.appendEntries disk peer request)).nodes peer) = _
    simp only [Cluster.step]
    split
    · exact act_nodes_self _ _ _ _
    rename_i lost
    have same : follower = reached.nodes peer := by
      show ((reached.step (.appendEntries disk peer request)).nodes peer) = _
      simp [Cluster.step, lost]
    rw [same] at raised
    exact absurd raised (lt_irrefl _)
  rw [delivered] at raised committed member
  obtain ⟨full', represents, same⟩ := shared raised
  obtain ⟨above, found⟩ := represents.mem_entries member
  refine .of_full (refinesSent.log leader) ?_
  rw [← same (entry.index - 1) (by omega) (by omega)]
  exact found

def brokenMatch : List Label :=
  let io := reliable quintet
  [.runElection 3, .requestVote 4 ⟨5, 3, 3, 4⟩, .requestVote 5 ⟨5, 3, 3, 4⟩,
    .recordVoteGranted 4 3 5, .recordVoteGranted 5 3 5, .becomeLeader 3 5, .flushPendingProposes io 3,
    .sendAppendEntries 3 1, .appendEntries io 1 ⟨5, 3, 3, 4, [⟨5, 4, noopCommand⟩], 1⟩,
    .appendReply io 1 3 5 false 2]

/-- The request raises the commit index of node 1 to index 1, where the two logs differ. -/
theorem commits_foreign_entry :
    let io := reliable quintet
    let before := lonelyEntry ++ emptyRequest ++ skippedBoundary ++ mixedLog ++ brokenMatch
    let request : AppendEntriesRequest :=
      ⟨5, 3, 2, 3, [⟨4, 3, noopCommand⟩, ⟨5, 4, noopCommand⟩], 1⟩
    let sent := run step (start io quintet secondCompacts) before
    let reached := sent.step (.sendAppendEntries 3 1)
    let follower := (reached.step (.appendEntries io 1 request)).nodes 1
    OneLeader (start io quintet secondCompacts) (before ++ [.sendAppendEntries 3 1, .appendEntries io 1 request]) ∧
      requestFor (sent.nodes 3) 1 = some request ∧
      (reached.nodes 1).state.commitIndex < follower.state.commitIndex ∧
      ¬ ∀ entry ∈ follower.log.entries, entry.index ≤ follower.state.commitIndex →
        HeldBy (sent.nodes 3).log entry := by
  refine ⟨?_, by decide +kernel, by decide +kernel, by decide +kernel⟩
  rw [← uniqueLeaders_iff_oneLeader]
  decide +kernel

def secondProposal : List Label :=
  firstTerm ++ [.propose 1 .noop 7, .flushPendingProposes (reliable trio) 1]

def secondRequest : AppendEntriesRequest := ⟨1, 1, 1, 1, [⟨1, 2, noopCommand⟩], 1⟩

theorem follower_commit_sound_secondRequest :
    let first := start (reliable trio) trio (fun _ => 0)
    let sent := run step first secondProposal
    let reached := run step first (secondProposal ++ [.sendAppendEntries 1 2])
    let follower := (reached.step (.appendEntries (reliable trio) 2 secondRequest)).nodes 2
    (reached.nodes 2).state.commitIndex < follower.state.commitIndex ∧
      ∀ entry ∈ follower.log.entries, entry.index ≤ follower.state.commitIndex → HeldBy (sent.nodes 1).log entry := by
  have raised : ((run step (start (reliable trio) trio (fun _ => 0))
        (secondProposal ++ [.sendAppendEntries 1 2])).nodes 2).state.commitIndex <
      (((run step (start (reliable trio) trio (fun _ => 0))
        (secondProposal ++ [.sendAppendEntries 1 2])).step
          (.appendEntries (reliable trio) 2 secondRequest)).nodes 2).state.commitIndex := by
    decide +kernel
  refine ⟨raised, follower_commit_sound (reliable trio) trio (fun _ => 0) secondProposal []
    (reliable trio) 1 2 secondRequest ?_ (by decide +kernel) (by decide +kernel) (by decide +kernel)
    raised⟩
  rw [← uniqueLeaders_iff_oneLeader]
  decide +kernel

end Cluster

end Takyonic
