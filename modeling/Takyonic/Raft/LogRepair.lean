import Takyonic.Raft.ElectionSafety
import Takyonic.Raft.StoreEntries

/-! A leader that probes for the place where the log of a follower agrees with its own. -/

namespace Takyonic

open Foundation Cluster RaftLog Io

namespace RaftConsensus

def nextFor (leader : RaftConsensus) (peer : Nat) : Nat := (leader.state.nextIndex peer).getD 1

def TurnsToSnapshot (leader : RaftConsensus) (peer : Nat) : Prop :=
  0 < leader.log.snapshot.lastIncludedIndex ∧ leader.nextFor peer ≤ leader.log.snapshot.lastIncludedIndex

instance (leader : RaftConsensus) (peer : Nat) : Decidable (leader.TurnsToSnapshot peer) :=
  inferInstanceAs (Decidable (_ ∧ _))

def answer (io : Io) (follower : RaftConsensus) (request : AppendEntriesRequest) :
    RaftConsensus × (Nat × Bool × Nat) :=
  follower.handleAppendEntries io request.term request.leaderId request.prevLogIndex request.prevLogTerm
    request.entries request.leaderCommit

def exchange (io : Io) (peer : Nat) (pair : RaftConsensus × RaftConsensus) : RaftConsensus × RaftConsensus :=
  match requestFor pair.1 peer with
  | none => pair
  | some request =>
    match answer io pair.2 request with
    | (follower, _, true, matchIndex) => (pair.1.onAppendSuccess io peer matchIndex, follower)
    | (follower, term, false, hint) => (pair.1.onAppendFailure peer term hint, follower)

def Settled (io : Io) (peer : Nat) (pair : RaftConsensus × RaftConsensus) : Prop :=
  ∀ request, requestFor pair.1 peer = some request → (answer io pair.2 request).2.2.1 = true

variable {leader follower node : RaftConsensus} {peer hint k : Nat} (io : Io) {next : Nat}
  {full full' batch : List RaftLogEntry} {pair : RaftConsensus × RaftConsensus}

theorem requestFor_eq (leads : leader.state.role = .leader) :
    requestFor leader peer =
      if leader.TurnsToSnapshot peer then none
      else some ⟨leader.state.currentTerm, leader.id, leader.nextFor peer - 1,
        (leader.log.termAt (leader.nextFor peer - 1)).getD 0,
        (leader.log.entriesFrom (leader.nextFor peer)).take maxBatch, leader.state.commitIndex⟩ := by
  unfold requestFor leaderPeerCursor
  rw [if_neg (not_not.mpr leads)]
  by_cases behind : leader.TurnsToSnapshot peer
  · rw [if_pos behind]
    exact congrArg _ (if_pos behind)
  · rw [if_neg behind]
    exact congrArg _ (if_neg behind)

theorem answer_rejected {request : AppendEntriesRequest} (fresh : follower.state.currentTerm ≤ request.term)
    (lacks : ¬ prevMatches follower.log request.prevLogIndex request.prevLogTerm) :
    answer io follower request =
      (follower.acceptLeader request.term request.leaderId, request.term, false, follower.log.lastIndex) := by
  have current : (follower.acceptLeader request.term request.leaderId).state.currentTerm = request.term :=
    acceptLeader_term request.leaderId fresh
  unfold answer handleAppendEntries
  rw [if_neg (not_lt_of_ge fresh)]
  dsimp only
  rw [acceptLeader_log, if_pos (not_not.mp lacks), current]

def backedOff (next hint : Nat) : Nat := if 0 < hint then max (min (hint + 1) next) 1 else max (next - 1) 1

theorem onAppendFailure_eq (leads : leader.state.role = .leader) (hint : Nat) :
    leader.onAppendFailure peer leader.state.currentTerm hint =
      { leader with state := { leader.state with
        nextIndex := Function.update leader.state.nextIndex peer (some (backedOff (leader.nextFor peer) hint)) } } := by
  unfold onAppendFailure
  rw [if_neg (lt_irrefl _), if_neg (not_not.mpr leads)]
  rfl

theorem nextFor_onAppendFailure (leads : leader.state.role = .leader) (hint : Nat) :
    (leader.onAppendFailure peer leader.state.currentTerm hint).nextFor peer =
      backedOff (leader.nextFor peer) hint := by
  rw [onAppendFailure_eq leads, nextFor]
  simp

theorem backedOff_lt_iff (beyond : 1 < next) :
    backedOff next hint < next ↔ hint = 0 ∨ hint + 1 < next := by
  unfold backedOff
  split
  · omega
  · omega

theorem storeBatch_isSome (holds : Holds node.log full)
    (appends : io.append batch = true) (next : Consecutive (full.length + 1) batch) :
    node.storeBatch io batch ≠ none := by
  have appended : ∃ log, node.log.appendBatch batch = .ok log := by
    unfold appendBatch
    split
    · exact ⟨_, rfl⟩
    · rw [holds.lastIndex, gap_none_iff.mpr next]
      exact ⟨_, rfl⟩
  obtain ⟨log, appended⟩ := appended
  unfold storeBatch
  rw [appends, appended]
  exact nofun

theorem finishStore_succeeds {result : StoreResult}
    (holds : Holds node.log full) (scan : Scan node full k batch result)
    (retained : node.log.snapshot.lastIncludedIndex ≤ k) (appends : ∀ entries, io.append entries = true) :
    (finishStore io result).2 = true := by
  rcases scan.finished io holds retained with ⟨finished, _⟩ | ⟨rolled, base, rest, here, consecutive, _, _, finished⟩
  · rw [finished]
  · rw [finished]
    cases stored : rolled.storeBatch io rest with
    | none => exact absurd stored (storeBatch_isSome io here (appends rest) consecutive)
    | some next => rfl

theorem answer_accepted (holds : Holds follower.log full) {request : AppendEntriesRequest}
    (fresh : follower.state.currentTerm ≤ request.term)
    (consecutive : Consecutive (request.prevLogIndex + 1) request.entries)
    (has : prevMatches follower.log request.prevLogIndex request.prevLogTerm)
    (appends : ∀ entries, io.append entries = true) : (answer io follower request).2.2.1 = true := by
  have accepted : Holds (follower.acceptLeader request.term request.leaderId).log full := by rwa [acceptLeader_log]
  have scan :=
    storeEntries_scan io accepted request.entries request.prevLogIndex (prevMatches_inside holds has) consecutive
  have succeeds := finishStore_succeeds io accepted scan (le_max_right _ _) appends
  unfold answer handleAppendEntries
  rw [if_neg (not_lt_of_ge fresh)]
  dsimp only [snapshotMeta]
  rw [if_neg (by rwa [acceptLeader_log])]
  generalize finishStore io _ = finished at succeeds ⊢
  obtain ⟨node, flag⟩ := finished
  cases succeeds
  rfl

def AgreesAt (leader follower : RaftLog) (index : Nat) : Prop :=
  prevMatches follower index ((leader.termAt index).getD 0)

instance (leader follower : RaftLog) (index : Nat) : Decidable (AgreesAt leader follower index) :=
  inferInstanceAs (Decidable (¬ (_ ∧ _)))

def Done (leader follower : RaftLog) (next : Nat) : Prop :=
  (0 < leader.snapshot.lastIncludedIndex ∧ next ≤ leader.snapshot.lastIncludedIndex) ∨
    AgreesAt leader follower (next - 1)

instance (leader follower : RaftLog) (next : Nat) : Decidable (Done leader follower next) :=
  inferInstanceAs (Decidable (_ ∨ _))

structure Probing (peer : Nat) (leader follower : RaftLog) (next : Nat) (pair : RaftConsensus × RaftConsensus) :
    Prop where
  leads : pair.1.state.role = .leader
  fresh : pair.2.state.currentTerm ≤ pair.1.state.currentTerm
  leaderLog : pair.1.log = leader
  followerLog : pair.2.log = follower
  next : pair.1.nextFor peer = next

variable {pair : RaftConsensus × RaftConsensus} {log : RaftLog}

theorem request_consecutive (holds : Holds log full)
    (ahead : ¬ (0 < log.snapshot.lastIncludedIndex ∧ next ≤ log.snapshot.lastIncludedIndex)) :
    Consecutive (next - 1 + 1) ((log.entriesFrom next).take maxBatch) := by
  rw [holds.entriesFrom (by omega), add_comm]
  exact (holds.consecutive.drop _).take _

def Repairable (leader follower : RaftLog) (next : Nat) : Prop :=
  Done leader follower next ∨ follower.lastIndex = 0 ∨
    (follower.lastIndex + 1 < next ∧ Done leader follower (follower.lastIndex + 1))

instance (leader follower : RaftLog) (next : Nat) : Decidable (Repairable leader follower next) :=
  inferInstanceAs (Decidable (_ ∨ _ ∨ _))

section

variable {leader follower : RaftLog} (probing : Probing peer leader follower next pair)
include probing

theorem Probing.turns_iff : pair.1.TurnsToSnapshot peer ↔
    0 < leader.snapshot.lastIncludedIndex ∧ next ≤ leader.snapshot.lastIncludedIndex := by
  unfold TurnsToSnapshot
  rw [probing.next, probing.leaderLog]

theorem Probing.request {request : AppendEntriesRequest} (built : requestFor pair.1 peer = some request) :
    ¬ (0 < leader.snapshot.lastIncludedIndex ∧ next ≤ leader.snapshot.lastIncludedIndex) ∧
      request.term = pair.1.state.currentTerm ∧ request.prevLogIndex = next - 1 ∧
      request.prevLogTerm = (leader.termAt (next - 1)).getD 0 ∧
      request.entries = (leader.entriesFrom next).take maxBatch := by
  rw [requestFor_eq probing.leads] at built
  split at built
  · cases built
  · next ahead =>
    rw [probing.next, probing.leaderLog] at built
    cases built
    exact ⟨fun behind => ahead (probing.turns_iff.mpr behind), rfl, rfl, rfl, rfl⟩

theorem Probing.settled_iff (leaderHolds : Holds leader full) (followerHolds : Holds follower full')
    (appends : ∀ entries, io.append entries = true) : Settled io peer pair ↔ Done leader follower next := by
  constructor
  · intro settled
    by_cases behind : 0 < leader.snapshot.lastIncludedIndex ∧ next ≤ leader.snapshot.lastIncludedIndex
    · exact .inl behind
    right
    by_contra lacks
    have built : requestFor pair.1 peer = _ := requestFor_eq probing.leads
    rw [if_neg (fun turns => behind (probing.turns_iff.mp turns))] at built
    have accepted := settled _ built
    rw [answer_rejected io probing.fresh (by rwa [probing.next, probing.leaderLog, probing.followerLog])] at accepted
    cases accepted
  · rintro done request built
    obtain ⟨ahead, term, prev, prevTerm, entries⟩ := probing.request built
    apply answer_accepted io (by rwa [probing.followerLog]) (by rw [term]; exact probing.fresh) _ _ appends
    · rw [prev, entries]
      exact request_consecutive leaderHolds ahead
    · rw [prev, prevTerm, probing.followerLog]
      exact done.resolve_left ahead

theorem Probing.rejected (lacks : ¬ Done leader follower next) :
    Probing peer leader follower (backedOff next follower.lastIndex) (exchange io peer pair) := by
  obtain ⟨ahead, lacks⟩ := not_or.mp lacks
  unfold exchange
  rw [requestFor_eq probing.leads, if_neg (fun turns => ahead (probing.turns_iff.mp turns))]
  dsimp only
  rw [answer_rejected io probing.fresh (by rwa [probing.next, probing.leaderLog, probing.followerLog])]
  dsimp only
  constructor
  case leads =>
    rw [onAppendFailure_eq probing.leads]
    exact probing.leads
  case fresh =>
    rw [onAppendFailure_eq probing.leads]
    exact le_of_eq (acceptLeader_term _ probing.fresh)
  case leaderLog =>
    rw [onAppendFailure_eq probing.leads]
    exact probing.leaderLog
  case followerLog => exact (acceptLeader_log _ _ _).trans probing.followerLog
  case next => rw [nextFor_onAppendFailure probing.leads, probing.next, probing.followerLog]

section

variable (leaderHolds : Holds leader full) (followerHolds : Holds follower full')
  (appends : ∀ entries, io.append entries = true)
include leaderHolds followerHolds appends

theorem Probing.settles_empty (empty : follower.lastIndex = 0) :
    ∃ n, Settled io peer ((exchange io peer)^[n] pair) := by
  induction next generalizing pair with
  | zero =>
    exact ⟨0, (probing.settled_iff io leaderHolds followerHolds appends).mpr (.inr fun lacks => nomatch lacks.1)⟩
  | succ next ih =>
    by_cases done : Done leader follower (next + 1)
    · exact ⟨0, (probing.settled_iff io leaderHolds followerHolds appends).mpr done⟩
    have positive : next ≠ 0 := by
      rintro rfl
      exact done (.inr fun lacks => nomatch lacks.1)
    have back := probing.rejected io done
    have place : backedOff (next + 1) follower.lastIndex = next := by
      unfold backedOff
      rw [empty, if_neg (lt_irrefl 0)]
      omega
    rw [place] at back
    obtain ⟨n, settled⟩ := ih back
    exact ⟨n + 1, settled⟩

theorem Probing.never_settles (stuck : ¬ Repairable leader follower next) (n : Nat) :
    ¬ Settled io peer ((exchange io peer)^[n] pair) := by
  have nonempty : follower.lastIndex ≠ 0 := fun empty => stuck (.inr (.inl empty))
  have here : ¬ Done leader follower next := fun done => stuck (.inl done)
  have positive : next ≠ 0 := by
    rintro rfl
    exact here (.inr fun lacks => nomatch lacks.1)
  have there : ¬ Done leader follower (min (follower.lastIndex + 1) next) := by
    intro done
    by_cases beyond : follower.lastIndex + 1 < next
    · rw [min_eq_left (le_of_lt beyond)] at done
      exact stuck (.inr (.inr ⟨beyond, done⟩))
    · rw [Nat.min_eq_right (le_of_not_gt beyond)] at done
      exact here done
  have place (current : Nat) (either : current = next ∨ current = min (follower.lastIndex + 1) next) :
      backedOff current follower.lastIndex = min (follower.lastIndex + 1) next := by
    unfold backedOff
    rw [if_pos (Nat.pos_of_ne_zero nonempty)]
    omega
  have always : ∀ current, (current = next ∨ current = min (follower.lastIndex + 1) next) →
      ∀ pair, Probing peer leader follower current pair → ¬ Settled io peer ((exchange io peer)^[n] pair) := by
    induction n with
    | zero =>
      intro current either pair probing settled
      have done := (probing.settled_iff io leaderHolds followerHolds appends).mp settled
      rcases either with rfl | rfl
      · exact here done
      · exact there done
    | succ n ih =>
      intro current either pair probing
      have lacks : ¬ Done leader follower current := by
        rcases either with rfl | rfl
        · exact here
        · exact there
      have back := probing.rejected io lacks
      rw [place current either] at back
      exact ih _ (.inr rfl) _ back
  exact always next (.inl rfl) pair probing

theorem Probing.settles_iff :
    (∃ n, Settled io peer ((exchange io peer)^[n] pair)) ↔ Repairable leader follower next := by
  constructor
  · rintro ⟨n, settled⟩
    by_contra stuck
    exact probing.never_settles io leaderHolds followerHolds appends stuck n settled
  · intro repairable
    by_cases done : Done leader follower next
    · exact ⟨0, (probing.settled_iff io leaderHolds followerHolds appends).mpr done⟩
    rcases repairable with now | empty | ⟨beyond, then'⟩
    · exact absurd now done
    · exact probing.settles_empty io leaderHolds followerHolds appends empty
    · by_cases empty : follower.lastIndex = 0
      · exact probing.settles_empty io leaderHolds followerHolds appends empty
      have back := probing.rejected io done
      have place : backedOff next follower.lastIndex = follower.lastIndex + 1 := by
        unfold backedOff
        rw [if_pos (Nat.pos_of_ne_zero empty)]
        omega
      rw [place] at back
      exact ⟨1, (back.settled_iff io leaderHolds followerHolds appends).mpr then'⟩

end

end

/-- A rejection moves the leader on exactly if the follower's log is empty or ends before the place of the probe, and
    probing comes to an end exactly if it reaches a place that settles it. -/
theorem log_repair_iff (leader follower : RaftConsensus) (peer : Nat) (leads : leader.state.role = .leader)
    (fresh : follower.state.currentTerm ≤ leader.state.currentTerm) :
    (∀ request, requestFor leader peer = some request →
      ¬ prevMatches follower.log request.prevLogIndex request.prevLogTerm →
      let reply := (answer io follower request).2
      let after := leader.onAppendFailure peer reply.1 reply.2.2
      (after.nextFor peer < leader.nextFor peer ∨ requestFor after peer = none) ↔
        follower.log.lastIndex = 0 ∨ follower.log.lastIndex < request.prevLogIndex) ∧
      ∀ full full', Holds leader.log full → Holds follower.log full' → (∀ entries, io.append entries = true) →
        ((∃ n, Settled io peer ((exchange io peer)^[n] (leader, follower))) ↔
          Repairable leader.log follower.log (leader.nextFor peer)) := by
  have probing : Probing peer leader.log follower.log (leader.nextFor peer) (leader, follower) :=
    ⟨leads, fresh, rfl, rfl, rfl⟩
  constructor
  · intro request built lacks
    obtain ⟨ahead, term, prev, _⟩ := probing.request built
    have positive : 0 < request.prevLogIndex := (not_not.mp lacks).1
    have beyond : 1 < leader.nextFor peer := by omega
    rw [answer_rejected io (by rw [term]; exact fresh) lacks, term]
    dsimp only
    rw [nextFor_onAppendFailure leads, backedOff_lt_iff beyond]
    have moved : requestFor (leader.onAppendFailure peer leader.state.currentTerm follower.log.lastIndex) peer =
        none → follower.log.lastIndex = 0 ∨ follower.log.lastIndex + 1 < leader.nextFor peer := by
      intro none
      by_contra same
      have stays : backedOff (leader.nextFor peer) follower.log.lastIndex = leader.nextFor peer := by
        unfold backedOff
        rw [if_pos (by omega)]
        omega
      have turns :
          (leader.onAppendFailure peer leader.state.currentTerm follower.log.lastIndex).TurnsToSnapshot peer := by
        by_contra not
        rw [requestFor_eq (by rw [onAppendFailure_eq leads]; exact leads), if_neg not] at none
        cases none
      unfold TurnsToSnapshot at turns
      rw [nextFor_onAppendFailure leads, onAppendFailure_eq leads, stays] at turns
      exact ahead turns
    constructor
    · rintro (back | snapshot)
      · omega
      · have back := moved snapshot
        omega
    · intro short
      left
      omega
  · intro full full' leaderHolds followerHolds appends
    exact probing.settles_iff io leaderHolds followerHolds appends

end RaftConsensus

namespace Cluster

open RaftConsensus

def divergedLogs : List Label :=
  let io := reliable trio
  [.runElection 1, .requestVote 2 ⟨1, 1, 0, 0⟩, .recordVoteGranted 2 1 1, .becomeLeader 1 1,
    .flushPendingProposes io 1, .runElection 2, .requestVote 3 ⟨2, 2, 0, 0⟩, .recordVoteGranted 3 2 2,
    .becomeLeader 2 2, .flushPendingProposes io 2, .runElection 1, .runElection 1, .requestVote 3 ⟨3, 1, 1, 1⟩,
    .recordVoteGranted 3 1 3, .becomeLeader 1 3]

def diverged : Cluster := run step (start (reliable trio) trio (fun _ => 0)) divergedLogs

theorem diverged_holds :
    Holds (diverged.nodes 1).log [⟨1, 1, noopCommand⟩] ∧ Holds (diverged.nodes 2).log [⟨2, 1, noopCommand⟩] ∧
      Holds (diverged.nodes 3).log [] := by
  have first : (diverged.nodes 1).log = create.extend [⟨1, 1, noopCommand⟩] := by decide +kernel
  have second : (diverged.nodes 2).log = create.extend [⟨2, 1, noopCommand⟩] := by decide +kernel
  have third : (diverged.nodes 3).log = create := by decide +kernel
  exact ⟨Holds.create.extend (by decide), Holds.create.extend (by decide), .create⟩

/-- Node 3, whose log is empty, gets the entry of the leader. -/
theorem log_repair_iff_empty :
    ∃ n, Settled (reliable trio) 3 ((exchange (reliable trio) 3)^[n] (diverged.nodes 1, diverged.nodes 3)) :=
  ((log_repair_iff (reliable trio) (diverged.nodes 1) (diverged.nodes 3) 3 (by decide +kernel) (by decide +kernel)).2
    _ _ diverged_holds.1 diverged_holds.2.2 (fun _ => rfl)).mpr (by decide +kernel)

/-- The leader of term 3 asks node 2 for the same entry for ever. -/
theorem log_repair_stuck :
    (diverged.nodes 1).state.role = .leader ∧
      requestFor (diverged.nodes 1) 2 = some ⟨3, 1, 1, 1, [], 0⟩ ∧
      (answer (reliable trio) (diverged.nodes 2) ⟨3, 1, 1, 1, [], 0⟩).2 = (3, false, 1) ∧
      ((diverged.nodes 1).onAppendFailure 2 3 1).nextFor 2 = (diverged.nodes 1).nextFor 2 ∧
      ∀ n, ¬ Settled (reliable trio) 2 ((exchange (reliable trio) 2)^[n] (diverged.nodes 1, diverged.nodes 2)) := by
  refine ⟨by decide +kernel, by decide +kernel, by decide +kernel, by decide +kernel, ?_⟩
  have probing : Probing 2 (diverged.nodes 1).log (diverged.nodes 2).log 2 (diverged.nodes 1, diverged.nodes 2) :=
    ⟨by decide +kernel, by decide +kernel, rfl, rfl, by decide +kernel⟩
  exact probing.never_settles (reliable trio) diverged_holds.1 diverged_holds.2.1 (fun _ => rfl) (by decide +kernel)

end Cluster

end Takyonic
