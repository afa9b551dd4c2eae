import Takyonic.Raft.RecordedCommits

namespace Takyonic

open Foundation RaftConsensus List

namespace Cluster

variable {membership : ClusterMembership} {cluster : Cluster} {ledger : Ledger Nat RaftLogEntry} {label : Label}
  {i term leader peer p : Nat} {node : RaftConsensus}

/-- Every success that is counted vouches for the log it reports: a request is acknowledged in full, a
    final snapshot drops nothing the sender may count on, and a leader takes replies of its term. -/
def RepliesKept (cluster : Cluster) : Label → Prop
  | .appendEntries _ peer request =>
    BoundaryTerm (cluster.nodes peer).log request ∧
      ((cluster.nodes peer).state.currentTerm ≤ request.term →
        prevMatches (cluster.nodes peer).log request.prevLogIndex request.prevLogTerm →
          Acknowledges (cluster.nodes peer).log request)
  | .installSnapshot _ peer request =>
    request.done = true → (cluster.nodes peer).state.currentTerm ≤ request.term →
      Covering (cluster.nodes peer).log request
  | .appendReply _ _ leader term success _ =>
    success = true → (cluster.nodes leader).state.role = .leader → term = (cluster.nodes leader).state.currentTerm
  | .snapshotReply _ leader requestTerm _ =>
    (cluster.nodes leader).state.role = .leader → requestTerm = (cluster.nodes leader).state.currentTerm
  | _ => True

instance (log : RaftLog) (prev prevTerm : Nat) : Decidable (prevMatches log prev prevTerm) :=
  inferInstanceAs (Decidable (¬ (_ ∧ _)))

instance : Decidable (RepliesKept cluster label) := by
  rcases label with ⟨⟩ <;> unfold RepliesKept <;> infer_instance

def logWhenCounting (cluster : Cluster) (label : Label) (p : Nat) : RaftLog :=
  match label with
  | .flushPendingProposes _ i => if p = i then (cluster.nodes i).appendedLog else (cluster.nodes p).log
  | _ => (cluster.nodes p).log

/-- The step raises the commit index of node `i`, a leader, within its term. -/
def Commits (cluster : Cluster) (label : Label) (i : Nat) : Prop :=
  (cluster.nodes i).state.role = .leader ∧
    ((cluster.step label).nodes i).state.currentTerm = (cluster.nodes i).state.currentTerm ∧
    (cluster.nodes i).state.commitIndex < ((cluster.step label).nodes i).state.commitIndex

instance : Decidable (Commits cluster label i) :=
  inferInstanceAs (Decidable (_ ∧ _ ∧ _))

def Certifies (cluster : Cluster) (label : Label) (ledger : Ledger Nat RaftLogEntry) : Prop :=
  ∀ i, Commits cluster label i →
    (((cluster.step label).nodes i).state.currentTerm,
      ((cluster.step label).nodes i).state.commitIndex - 1) ∈ ledger.commits ∧
    ledger.leader ((cluster.step label).nodes i).state.currentTerm = some i ∧
    Represents (logWhenCounting cluster label i) (ledger.log i)

def Recorded (membership : ClusterMembership) (cluster : Cluster) (ledger : Ledger Nat RaftLogEntry)
    (label : Label) : Prop :=
  ∃ ledger', Ledger.Grows RaftLogEntry.term ledger ledger' ∧
    Records membership (cluster.step label) ledger' ∧ Certifies cluster label ledger'

section

variable (records : Records membership cluster ledger)
include records

theorem Records.unchanged (same : cluster.step label = cluster) : Recorded membership cluster ledger label := by
  refine ⟨ledger, Ledger.moves_grow .refl records.complete, by rwa [same], ?_⟩
  rintro i ⟨_, _, raised⟩
  rw [same] at raised
  exact absurd raised (lt_irrefl _)

theorem Records.handled {sent : List Message} {votes : Nat → Nat → Finset Nat} (acts : actor label = i)
    (stepped : cluster.step label = { cluster.act i node sent with votes := votes })
    (ok : ∃ ledger', RecordStep membership cluster ledger ledger' i node sent
      (logWhenCounting cluster label i)) : Recorded membership cluster ledger label := by
  obtain ⟨ledger', ok⟩ := ok
  have after := records.act ok
  refine ⟨ledger', Ledger.moves_grow ok.moves records.complete, ?_, ?_⟩
  · rw [stepped]
    exact { after with refines := { after.refines with } }
  · rintro j ⟨leads, term, raised⟩
    have own : j = i := by
      by_contra other
      rw [nodes_step_ne cluster label (acts ▸ other)] at raised
      exact absurd raised (lt_irrefl _)
    subst own
    have here : (cluster.step label).nodes j = node := by
      rw [stepped]
      exact act_nodes_self cluster j node sent
    rw [here] at term raised ⊢
    exact ok.raised leads term raised

section

variable (counted : RaftLog)
include counted

theorem Records.retreat (retreats : (cluster.nodes i).Retreats node) :
    ∃ ledger', RecordStep membership cluster ledger ledger' i node [] counted := by
  cases retreats with
  | down later => exact ⟨_, .stepDown records later nofun⟩
  | stay _ => exact ⟨_, .housekeeping records (.of_eq rfl rfl rfl rfl rfl rfl rfl rfl rfl) nofun⟩

theorem Records.propose (i : Nat) (command : RaftCommand) (tx : Nat) :
    ∃ ledger', RecordStep membership cluster ledger ledger' i ((cluster.nodes i).propose command tx).1 []
      counted := by
  have shape : ∃ pending, ((cluster.nodes i).propose command tx).1 =
      { cluster.nodes i with state := { (cluster.nodes i).state with pending := pending } } := by
    unfold RaftConsensus.propose
    repeat' split
    all_goals exact ⟨_, rfl⟩
  obtain ⟨pending, shape⟩ := shape
  rw [shape]
  have id := records.refines.ids i
  exact ⟨_, .plain records ⟨id, le_rfl, records.refines.log i, rfl,
    fun leads => ⟨leads, rfl, fun _ _ known => .inr known⟩, .inl, fun _ within => within⟩ nofun⟩

theorem Records.becomeLeader (fixed : (cluster.nodes i).state.membership = membership)
    (backed : Backed membership cluster i term)
    (unique : UniqueLeaders (cluster.act i ((cluster.nodes i).becomeLeader term) [])) :
    ∃ ledger', RecordStep membership cluster ledger ledger' i ((cluster.nodes i).becomeLeader term) []
      counted := by
  by_cases eligible : (cluster.nodes i).state.currentTerm = term ∧
      (cluster.nodes i).state.role = .candidate
  · obtain ⟨rfl, stands⟩ := eligible
    exact records.elected counted fixed stands backed (unique.before stands)
  · rw [becomeLeader_unchanged eligible]
    exact ⟨_, .housekeeping records (.refl _) nofun⟩

theorem Records.sendAppendEntries {request : AppendEntriesRequest} (other : peer ≠ leader)
    (built : requestFor (cluster.nodes leader) peer = some request) :
    ∃ ledger', RecordStep membership cluster ledger ledger' leader (cluster.nodes leader)
      [.appendEntries peer request] counted := by
  obtain ⟨leads, term, sender, commit⟩ := leaderPeerCursor_leads (requestFor_cursor built)
  have led := records.refines.leading leader leads
  have own := records.complete.sound.own leader (by rwa [records.refines.term leader])
  have batch := requestFor_batch (records.refines.log leader) built
  rw [own, records.refines.term leader] at batch
  obtain ⟨bound, covers, within⟩ := records.covered leader
  refine ⟨_, .housekeeping records (.refl _) (forall_mem_singleton.mpr ⟨?_, True.intro, ?_⟩)⟩
  · simpa [Faithful, term, sender, records.refines.ids leader] using ⟨other, led, batch⟩
  · simpa [Attested, term, commit] using covers.mono within.1

theorem Records.sendSnapshot (io : Io) (other : peer ≠ leader) {leaderId index indexTerm : Nat} {data : Bytes}
    (built : (cluster.nodes leader).buildInstallSnapshot io = (node, .ok (term, leaderId, index, indexTerm, data))) :
    ∃ ledger', RecordStep membership cluster ledger ledger' leader node
      ((chunks data).map (fun (chunk, done) =>
        .installSnapshot peer ⟨term, leaderId, index, indexTerm, chunk, done⟩)) counted := by
  have kept := (buildInstallSnapshot_upkeep (cluster.nodes leader) io).housekeeping
  obtain ⟨leads, rfl, rfl, snapshot⟩ := buildInstallSnapshot_leads built
  have led := records.refines.leading leader leads
  have own := records.complete.sound.own leader (by rwa [records.refines.term leader])
  have boundary := buildInstallSnapshot_boundary (records.refines.log leader) built
  rw [own, records.refines.term leader] at boundary
  rw [built] at kept
  obtain ⟨bound, covers, within⟩ := records.covered leader
  have inside : index ≤ bound := by
    rw [snapshot]
    exact (kept.within bound within).2.2
  refine ⟨_, .housekeeping records kept fun message sent => ?_⟩
  obtain ⟨chunk, _, rfl⟩ := mem_map.mp sent
  refine ⟨?_, True.intro, covers.mono inside⟩
  simpa [Faithful, records.refines.ids leader] using ⟨other, led, boundary⟩

end

theorem Records.step (polls : Polls membership cluster)
    (fixed : ∀ i, (cluster.nodes i).state.membership = membership) (unique : UniqueLeaders (cluster.step label))
    (members : KeepsMembership membership cluster label) (kept : RepliesKept cluster label) :
    Recorded membership cluster ledger label := by
  have stepped := cluster.step_stepped label
  generalize taken : cluster.step label = after at stepped unique
  cases stepped with
  | idle => exact records.unchanged taken
  | runElection => exact records.handled rfl taken ⟨_, records.runElection _ _⟩
  | requestVote asked => exact records.handled rfl taken (records.handleRequestVote _ asked)
  | appendEntries sent => exact records.handled rfl taken (records.appendEntries _ _ sent kept.1 kept.2)
  | installSnapshot sent answers => exact records.handled rfl taken (records.installSnapshot _ _ sent kept answers)
  | maybeStepDown _ waiting =>
    exact records.handled (by simp only [actor, waiting]; rfl) taken (records.retreat _ (maybeStepDown_retreats _))
  | recordVoteGranted _ =>
    refine records.handled rfl taken ⟨_, .housekeeping records (.refl _) ?_⟩
    split <;> simp [Tame, Faithful, Plain, Attested]
  | becomeLeader elected =>
    exact records.handled rfl taken (records.becomeLeader _ (fixed _) (polls.backed _ _ elected) unique)
  | onAppendSuccess sent =>
    exact records.handled rfl taken
      (records.onAppendSuccess (fixed _) (fun leads => kept rfl leads ▸ records.attested _ sent) _)
  | onAppendFailure _ => exact records.handled rfl taken (records.retreat _ (onAppendFailure_retreats _))
  | onSnapshotSuccess sent =>
    exact records.handled rfl taken
      (records.onSnapshotSuccess (fixed _) fun leads => kept leads ▸ records.attested _ sent rfl)
  | onPeerUnreachable =>
    exact records.handled rfl taken ⟨_, .housekeeping records (onPeerUnreachable_housekeeping _ _) (forall_mem_nil _)⟩
  | ensurePeerCursors =>
    exact records.handled rfl taken ⟨_, .housekeeping records (ensurePeerCursors_housekeeping _ _) (forall_mem_nil _)⟩
  | propose => exact records.handled rfl taken (records.propose _ _ _ _)
  | @flushPendingProposes io i =>
    have after : ((cluster.nodes i).flushPendingProposes io).1.state.membership = membership := by
      simpa [KeepsMembership, Cluster.step, actor] using members
    refine records.handled rfl taken ?_
    simpa [logWhenCounting, actor] using records.flushPendingProposes io after
  | sendAppendEntries other built => exact records.handled rfl taken (records.sendAppendEntries _ other built)
  | sendSnapshot other built => exact records.handled rfl taken (records.sendSnapshot _ _ other built)
  | buildFailed built =>
    exact records.handled rfl taken ⟨_, .housekeeping records (buildInstallSnapshot_built built) (forall_mem_nil _)⟩

end

theorem start_records (io : Io) (membership : ClusterMembership) (threshold : Nat → Nat) :
    Records membership (start io membership threshold)
      { term := fun _ => 0, log := fun _ => [], leader := fun _ => none, leaderLog := fun _ => []
        ballots := ∅, acks := ∅, commits := ∅ } where
  refines := start_refines io membership threshold
  complete :=
    { sound := (start_refines io membership threshold).sound
      acked := fun _ _ _ ack => nomatch ack
      voted := fun _ _ _ _ ballot => nomatch ballot
      elected := fun _ _ led => nomatch led
      committed := fun _ _ noted => nomatch noted }
  campaigns := fun _ _ sent => nomatch sent
  grants := fun _ _ _ granted => nomatch granted
  attested := fun _ sent => nomatch sent
  progress := fun _ leads => nomatch leads
  covered := fun _ => ⟨0, .inl rfl, le_rfl, le_rfl, le_rfl⟩
  noted := fun _ _ leads => nomatch leads

section

variable {labels : List Label} (fixed : Along step (KeepsMembership membership) cluster labels)
  (kept : Along step RepliesKept cluster labels)
include fixed kept

theorem recorded_after (records : Records membership cluster ledger) (polls : Polls membership cluster)
    (members : ∀ i, (cluster.nodes i).state.membership = membership)
    (unique : UniqueLeaders (run step cluster labels)) :
    (∃ ledger', Ledger.Grows RaftLogEntry.term ledger ledger' ∧ Records membership (run step cluster labels) ledger') ∧
      Polls membership (run step cluster labels) ∧
      ∀ i, ((run step cluster labels).nodes i).state.membership = membership := by
  refine ((unique.along.and fixed).and kept).invariant (P := fun cluster =>
    (∃ ledger', Ledger.Grows RaftLogEntry.term ledger ledger' ∧ Records membership cluster ledger') ∧
      Polls membership cluster ∧ ∀ i, (cluster.nodes i).state.membership = membership) ?_ ?_
  · exact ⟨⟨ledger, .refl _ _, records⟩, polls, members⟩
  · rintro cluster label ⟨⟨ledger', grown, records⟩, polls, members⟩ ⟨⟨unique, fixed⟩, kept⟩
    obtain ⟨ledger'', grows, after, _⟩ := records.step polls members unique fixed kept
    exact ⟨⟨ledger'', grown.trans grows, after⟩, polls.step label members, fixed.all members⟩

end

theorem recorded_run (io : Io) (membership : ClusterMembership) (threshold : Nat → Nat)
    {labels : List Label} (unique : UniqueLeaders (run step (start io membership threshold) labels))
    (fixed : Along step (KeepsMembership membership) (start io membership threshold) labels)
    (kept : Along step RepliesKept (start io membership threshold) labels) :
    let cluster := run step (start io membership threshold) labels
    (∃ ledger, Records membership cluster ledger) ∧ Polls membership cluster ∧
      ∀ i, (cluster.nodes i).state.membership = membership := by
  obtain ⟨⟨ledger, _, records⟩, rest⟩ := recorded_after fixed kept (start_records io membership threshold)
    (start_polls io membership threshold) (start_membership io membership threshold) unique
  exact ⟨⟨ledger, records⟩, rest⟩

theorem Quorum.meet {first second : Finset Nat} (left : membership.Quorum first)
    (right : membership.Quorum second) : ∃ v, v ∈ first ∧ v ∈ second :=
  ClusterMembership.quorums_meet left.1 right.1 left.2 right.2

theorem Records.uncompacted (records : Records membership cluster ledger) {ledger' : Ledger Nat RaftLogEntry}
    (grows : Ledger.Grows RaftLogEntry.term ledger ledger')
    (complete : ledger'.Complete RaftLogEntry.term membership.Quorum) {n : Nat} {entry : RaftLogEntry}
    (leads : (cluster.nodes i).state.role = .leader)
    (led : (ledger'.leader (cluster.nodes i).state.currentTerm).isSome)
    (found : (ledger'.leaderLog (cluster.nodes i).state.currentTerm)[n - 1]? = some entry)
    (current : entry.term = (cluster.nodes i).state.currentTerm) (above : (cluster.nodes i).state.commitIndex < n)
    (recent : (cluster.nodes p).state.currentTerm ≤ (cluster.nodes i).state.currentTerm) :
    (cluster.nodes p).log.snapshot.lastIncludedIndex < n := by
  obtain ⟨bound, covers, within⟩ := records.covered p
  have snapshot := within.2.2
  rcases covers with rfl | ⟨s, c, noted, early, reached⟩
  · omega
  rcases Nat.eq_or_lt_of_le (early.trans recent) with rfl | earlier
  · have := records.noted i c leads noted
    omega
  -- What an earlier term committed has earlier terms only.
  by_contra compacted
  have certified := complete.committed s c (grows.commits noted)
  obtain ⟨last, atEnd, _⟩ := certified.current
  have long := (List.getElem?_eq_some_iff.mp atEnd).1
  have shared := complete.leader_completeness (fun _ _ left right => Quorum.meet left right) certified earlier led
  have there := prefix_iff_getElem?.mp shared (n - 1) (by rw [length_take]; omega)
  rw [found, getElem_take, Option.some.injEq] at there
  have old := (complete.sound.leaderAscending s certified.led).2 _
    (getElem_mem (by omega : n - 1 < (ledger'.leaderLog s).length))
  rw [← there] at old
  omega

def HoldsAt (log : RaftLog) (index : Nat) (own : RaftLogEntry) : Prop :=
  ∃ copy, log.entry index = some copy ∧ copy.term = own.term ∧ copy.command = own.command

instance (log : RaftLog) (index : Nat) (own : RaftLogEntry) : Decidable (HoldsAt log index own) :=
  decidable_of_iff ((log.entry index).any (fun copy => copy.term = own.term ∧ copy.command = own.command) = true)
    (by simp [HoldsAt, Option.any_eq_true])

def QuorumHolds (membership : ClusterMembership) (logs : Nat → RaftLog) (i index : Nat) : Prop :=
  ∃ own, (logs i).entry index = some own ∧
    membership.quorum ≤ (membership.members.filter (fun p => HoldsAt (logs p) index own)).card

instance : Decidable (QuorumHolds membership logs i index) :=
  decidable_of_iff (((logs i).entry index).any (fun own => membership.quorum ≤
      (membership.members.filter (fun p => HoldsAt (logs p) index own)).card) = true)
    (by simp [QuorumHolds, Option.any_eq_true])

/-- No member that is in a later term than node `i` has compacted past the commit index of node `i`. -/
def Uncompacted (membership : ClusterMembership) (cluster : Cluster) (i : Nat) : Prop :=
  ∀ p ∈ membership.members,
    (cluster.nodes p).log.snapshot.lastIncludedIndex ≤ (cluster.nodes i).state.commitIndex ∨
      (cluster.nodes p).state.currentTerm ≤ (cluster.nodes i).state.currentTerm

instance : Decidable (Uncompacted membership cluster i) :=
  inferInstanceAs (Decidable (∀ p ∈ membership.members, _ ∨ _))

theorem logWhenCounting_snapshot (cluster : Cluster) (label : Label) (p : Nat) :
    (logWhenCounting cluster label p).snapshot = (cluster.nodes p).log.snapshot := by
  cases label with
  | flushPendingProposes io i =>
    unfold logWhenCounting
    dsimp only
    split
    · rename_i same
      rw [same, appendedLog_snapshot]
    · rfl
  | _ => rfl

theorem logWhenCounting_ne (cluster : Cluster) (other : p ≠ actor label) :
    logWhenCounting cluster label p = (cluster.nodes p).log := by
  cases label with
  | flushPendingProposes io i => exact if_neg other
  | _ => rfl

/-- Replication soundness: with one membership and one leader per term, and as long as every counted
    success vouches for the log it reports, a leader commits only what a quorum holds. -/
theorem replication_sound (io : Io) (membership : ClusterMembership) (threshold : Nat → Nat)
    (labels : List Label) (label : Label) (i : Nat)
    (unique : OneLeader (start io membership threshold) (labels ++ [label]))
    (fixed : Along step (KeepsMembership membership) (start io membership threshold) (labels ++ [label]))
    (kept : Along step RepliesKept (start io membership threshold) (labels ++ [label]))
    (retained : Uncompacted membership (run step (start io membership threshold) labels) i)
    (commits : Commits (run step (start io membership threshold) labels) label i) :
    let cluster := run step (start io membership threshold) labels
    QuorumHolds membership (logWhenCounting cluster label) i ((cluster.step label).nodes i).state.commitIndex := by
  have unique := (uniqueLeaders_iff_oneLeader io membership threshold _).mpr unique
  obtain ⟨fixedBefore, fixedLast⟩ := Along.append.mp fixed
  obtain ⟨keptBefore, keptLast⟩ := Along.append.mp kept
  obtain ⟨⟨ledger, records⟩, polls, members⟩ :=
    recorded_run io membership threshold unique.earlier fixedBefore keptBefore
  rw [run_append] at unique
  generalize run step (start io membership threshold) labels = cluster
    at retained commits unique fixedLast keptLast records polls members ⊢
  obtain ⟨ledger', grows, after, certifies⟩ := records.step polls members unique fixedLast.1 keptLast.1
  obtain ⟨noted, led, counted⟩ := certifies i commits
  obtain ⟨leads, term, raised⟩ := commits
  rw [term] at noted led
  have actsHere : i = actor label := by
    by_contra other
    rw [nodes_step_ne cluster label other] at raised
    exact absurd raised (lt_irrefl _)
  dsimp only
  generalize ((cluster.step label).nodes i).state.commitIndex = n at noted raised ⊢
  have certified := after.complete.committed _ _ noted
  obtain ⟨isLed, ⟨entry, found, current⟩, holders, ⟨inside, enough⟩, holds⟩ := certified
  have represents : ∀ p, Represents (logWhenCounting cluster label p) (ledger'.log p) := by
    intro p
    by_cases own : p = i
    · rw [own]
      exact counted
    · rw [actsHere] at own
      rw [logWhenCounting_ne cluster own, ← nodes_step_ne cluster label own]
      exact after.refines.log p
  have entryAt : ∀ p, (cluster.nodes p).log.snapshot.lastIncludedIndex < n →
      (ledger'.log p)[n - 1]? = some entry → (logWhenCounting cluster label p).entry n = some entry := by
    intro p below there
    rw [(represents p).entry, logWhenCounting_snapshot, if_pos below, there]
  have own : ledger'.log i = ledger'.leaderLog (cluster.nodes i).state.currentTerm := by
    have here := after.refines.term i
    rw [term] at here
    have own := after.complete.sound.own i (by rwa [here])
    rwa [here] at own
  have uncompacted : ∀ p, (cluster.nodes p).state.currentTerm ≤ (cluster.nodes i).state.currentTerm →
      (cluster.nodes p).log.snapshot.lastIncludedIndex < n :=
    fun p => records.uncompacted grows after.complete leads isLed found current raised
  refine ⟨entry, entryAt i (uncompacted i le_rfl) (by rw [own]; exact found), ?_⟩
  refine enough.trans (Finset.card_le_card fun p member => ?_)
  refine Finset.mem_filter.mpr ⟨inside member, entry, entryAt p ?_ ?_, rfl, rfl⟩
  · rcases retained p (inside member) with small | recent
    · omega
    · exact uncompacted p recent
  · obtain ⟨m, within, ack⟩ := holds p member
    have held := after.complete.acknowledged_holds (fun _ _ left right => Quorum.meet left right)
      (after.complete.committed _ _ noted) ack within
    have long := (List.getElem?_eq_some_iff.mp found).1
    have there := prefix_iff_getElem?.mp held (n - 1) (by rw [length_take]; omega)
    rw [there, getElem_take, ← found, List.getElem?_eq_getElem long]

def replacedEntries : List Label :=
  let io := Io.reliable quintet
  [.propose 1 .noop 7, .flushPendingProposes io 1, .sendAppendEntries 1 2,
    .appendEntries io 2 ⟨1, 1, 0, 0, [⟨1, 1, noopCommand⟩, ⟨1, 2, noopCommand⟩], 0⟩,
    .runElection 3, .requestVote 4 ⟨2, 3, 0, 0⟩, .requestVote 5 ⟨2, 3, 0, 0⟩,
    .recordVoteGranted 4 3 2, .recordVoteGranted 5 3 2, .becomeLeader 3 2, .flushPendingProposes io 3,
    .sendAppendEntries 3 1, .sendAppendEntries 3 2, .sendAppendEntries 3 4,
    .appendEntries io 1 ⟨2, 3, 0, 0, [⟨2, 1, noopCommand⟩], 0⟩,
    .appendEntries io 2 ⟨2, 3, 0, 0, [⟨2, 1, noopCommand⟩], 0⟩,
    .appendEntries io 4 ⟨2, 3, 0, 0, [⟨2, 1, noopCommand⟩], 0⟩,
    .runElection 1, .requestVote 4 ⟨3, 1, 1, 2⟩, .requestVote 5 ⟨3, 1, 1, 2⟩,
    .recordVoteGranted 4 1 3, .recordVoteGranted 5 1 3, .becomeLeader 1 3, .flushPendingProposes io 1,
    .sendAppendEntries 1 4, .appendEntries io 4 ⟨3, 1, 1, 2, [⟨3, 2, noopCommand⟩], 0⟩,
    .appendReply io 4 1 3 true 2]

/-- The late reply of node 2 from term 1 makes node 1 commit index 2, which only it and node 4 hold. -/
theorem commits_without_quorum :
    let labels := lonelyEntry ++ replacedEntries
    let label := Label.appendReply (Io.reliable quintet) 2 1 1 true 2
    let first := start (Io.reliable quintet) quintet (fun _ => 0)
    let cluster := run step first labels
    OneLeader first (labels ++ [label]) ∧
      Along step (KeepsMembership quintet) first (labels ++ [label]) ∧ Commits cluster label 1 ∧
      ¬ QuorumHolds quintet (logWhenCounting cluster label) 1 ((cluster.step label).nodes 1).state.commitIndex := by
  refine ⟨?_, by decide +kernel, by decide +kernel, by decide +kernel⟩
  rw [← uniqueLeaders_iff_oneLeader]
  decide +kernel

theorem replication_sound_secondEntry :
    let label := Label.appendReply (Io.reliable trio) 2 1 1 true 2
    let cluster := run step (start (Io.reliable trio) trio (fun _ => 0)) (firstTerm ++ secondEntry)
    ((cluster.step label).nodes 1).state.commitIndex = 2 ∧
      QuorumHolds trio (logWhenCounting cluster label) 1 ((cluster.step label).nodes 1).state.commitIndex := by
  refine ⟨by decide +kernel, replication_sound (Io.reliable trio) trio (fun _ => 0)
    (firstTerm ++ secondEntry) _ 1 ?_ (by decide +kernel) (by decide +kernel) (by decide +kernel)
    (by decide +kernel)⟩
  rw [← uniqueLeaders_iff_oneLeader]
  decide +kernel

theorem Records.log_committed (records : Records membership cluster ledger) {s c k : Nat}
    (leads : (cluster.nodes i).state.role = .leader) (noted : (s, c) ∈ ledger.commits)
    (early : s ≤ (cluster.nodes i).state.currentTerm) (within : k ≤ c) :
    (ledger.log i)[k]? = (ledger.leaderLog s)[k]? := by
  have led := records.refines.leading i leads
  rw [← records.refines.term] at led early
  rw [records.complete.sound.own i led]
  rcases early.eq_or_lt with same | earlier
  · rw [same]
  · have certified := records.complete.committed s c noted
    obtain ⟨last, atEnd, _⟩ := certified.current
    have long := (List.getElem?_eq_some_iff.mp atEnd).1
    have shared := records.complete.leader_completeness (fun _ _ left right => Quorum.meet left right) certified
      earlier (by rw [led]; rfl)
    rw [prefix_iff_getElem?.mp shared k (by rw [length_take]; omega), getElem_take, getElem?_eq_getElem]

/-- Leader completeness: what a leader has committed is in the log of every later leader of a later term. -/
theorem leader_complete (io : Io) (membership : ClusterMembership) (threshold : Nat → Nat) (labels more : List Label)
    (unique : OneLeader (start io membership threshold) (labels ++ more))
    (fixed : Along step (KeepsMembership membership) (start io membership threshold) (labels ++ more))
    (kept : Along step RepliesKept (start io membership threshold) (labels ++ more)) (older newer index : Nat) :
    let before := (run step (start io membership threshold) labels).nodes older
    let after := (run step (start io membership threshold) (labels ++ more)).nodes newer
    before.state.role = .leader → index ≤ before.state.commitIndex → ∀ entry, before.log.entry index = some entry →
      after.state.role = .leader → before.state.currentTerm < after.state.currentTerm →
        after.log.snapshot.lastIncludedIndex < index → after.log.entry index = some entry := by
  intro before after leads committed entry found leads' later retained
  have unique := (uniqueLeaders_iff_oneLeader ..).mpr unique
  obtain ⟨fixedBefore, fixedAfter⟩ := Along.append.mp fixed
  obtain ⟨keptBefore, keptAfter⟩ := Along.append.mp kept
  obtain ⟨⟨ledger, records⟩, polls, members⟩ :=
    recorded_run io membership threshold unique.earlier fixedBefore keptBefore
  rw [run_append] at unique
  obtain ⟨⟨ledger', grows, records'⟩, -⟩ :=
    recorded_after fixedAfter keptAfter records polls members unique
  rw [← run_append] at records'
  rw [(records.refines.log _).entry] at found
  rw [(records'.refines.log _).entry, if_pos retained]
  split at found
  · obtain ⟨bound, covers, within⟩ := records.covered older
    have below := committed.trans within.1
    rcases covers with rfl | ⟨s, c, noted, early, enough⟩
    · omega
    · obtain ⟨-, fresh, grown, -⟩ := grows.view s (records.complete.committed s c noted).led
      rw [records.log_committed leads noted early (by omega)] at found
      rw [records'.log_committed leads' (grows.commits noted) (early.trans later.le) (by omega), grown,
        List.getElem?_append_left (List.getElem?_eq_some_iff.mp found).1, found]
  · cases found

/-- Node 3 commits in term 2 and has stepped down when node 1 leads in term 3. -/
theorem leader_complete_replaced :
    let io := Io.reliable quintet
    let labels := lonelyEntry ++ replacedEntries.take 17 ++ [.appendReply io 2 3 2 true 1, .appendReply io 4 3 2 true 1]
    let more := replacedEntries.drop 17 ++
      [.sendAppendEntries 1 3, .appendEntries io 3 ⟨3, 1, 1, 2, [⟨3, 2, noopCommand⟩], 0⟩]
    let before := run step (start io quintet fun _ => 0) labels
    let after := run step (start io quintet fun _ => 0) (labels ++ more)
    (before.nodes 3).state.commitIndex = 1 ∧ (after.nodes 3).state.role = .follower ∧
      (after.nodes 1).log.entry 1 = some ⟨2, 1, noopCommand⟩ := by
  refine ⟨by decide +kernel, by decide +kernel, leader_complete _ quintet _ _ _ ?_ ?_ ?_ 3 1 1 ?_ ?_ _ ?_ ?_ ?_ ?_⟩
  · rw [← uniqueLeaders_iff_oneLeader]
    decide +kernel
  all_goals decide +kernel

end Cluster

end Takyonic
