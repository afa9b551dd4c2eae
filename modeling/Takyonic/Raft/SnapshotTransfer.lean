import Takyonic.Raft.MembershipLog

namespace Takyonic

open Foundation List Cluster Io RaftConsensus

namespace RaftConsensus

def Advances (node node' : RaftConsensus) : Prop :=
  node.engine.lastApplied ≤ node'.engine.lastApplied ∧ node.state.commitIndex ≤ node'.state.commitIndex ∧
    node.log.lastIndex ≤ node'.log.lastIndex

instance : Decidable (Advances node node') := inferInstanceAs (Decidable (_ ∧ _ ∧ _))

variable (node : RaftConsensus)

theorem Advances.refl : Advances node node :=
  ⟨le_rfl, le_rfl, le_rfl⟩

def completedBlob (request : InstallSnapshotRequest) : Bytes :=
  bufferChunk node.state.snapshotBuf request.lastIncludedIndex request.lastIncludedTerm request.data

/-- A request that installs something reaches at least as far as the node has applied, and as far as
    its log goes if the log is replaced too. -/
def ReachesFurther (io : Io) (request : InstallSnapshotRequest) : Prop :=
  request.term < node.state.currentTerm ∨ request.done = false ∨
    match io.install (node.completedBlob request) request.lastIncludedIndex request.lastIncludedTerm with
    | .rejected _ => True
    | .torn _ => node.engine.lastApplied ≤ request.lastIncludedIndex
    | .installed _ => node.engine.lastApplied ≤ request.lastIncludedIndex ∧
        (io.logInstall = true → node.log.lastIndex ≤ request.lastIncludedIndex)

theorem advances_adopt {node next : RaftConsensus} {io : Io} {state : SoftState} {empty : Prop} [Decidable empty]
    (commit : state.commitIndex = next.state.commitIndex) :
    Advances node (if empty then next else writeMembership { next with state := state } io) ↔ Advances node next := by
  unfold writeMembership
  repeat' split
  all_goals first
    | exact Iff.rfl
    | simp only [Advances, commit]

theorem install_snapshot_advances_iff (io : Io) (request : InstallSnapshotRequest) :
    Advances node (node.handleInstallSnapshot io request.term request.leaderId request.lastIncludedIndex
        request.lastIncludedTerm request.data request.done).1 ↔ ReachesFurther node io request := by
  unfold ReachesFurther handleInstallSnapshot
  by_cases stale : request.term < node.state.currentTerm
  · rw [if_pos stale]
    exact iff_of_true (.refl node) (.inl stale)
  rw [if_neg stale, or_iff_right stale]
  by_cases partway : request.done = false
  · rw [partway]
    exact iff_of_true (.refl node) (.inl rfl)
  rw [or_iff_right partway, Bool.not_eq_false] at *
  rw [partway]
  have blob : bufferChunk (node.becomeFollower request.term (some request.leaderId)).state.snapshotBuf
      request.lastIncludedIndex request.lastIncludedTerm request.data = node.completedBlob request := rfl
  simp only [blob, Bool.not_true, Bool.false_eq_true]
  cases io.install (node.completedBlob request) request.lastIncludedIndex request.lastIncludedTerm with
  | rejected error => exact iff_of_true (.refl node) trivial
  | torn error => exact ⟨fun advances => advances.1, fun reaches => ⟨reaches, le_rfl, le_rfl⟩⟩
  | installed membership =>
    cases replaced : io.logInstall with
    | false =>
      refine ⟨fun advances => ⟨advances.1, fun installed => by cases installed⟩, fun reaches => ?_⟩
      exact ⟨reaches.1, le_rfl, le_rfl⟩
    | true =>
      simp only [Bool.not_true]
      refine Iff.trans (advances_adopt ?_) ?_
      · rfl
      refine ⟨fun advances => ⟨advances.1, fun _ => advances.2.2⟩, fun reaches => ?_⟩
      exact ⟨reaches.1, le_max_left _ _, reaches.2 trivial⟩

end RaftConsensus

namespace Cluster

def snapshotThenEntry : List Label :=
  let io := Io.reliable trio
  firstTerm ++ [.onPeerUnreachable 1 3, .sendSnapshot io 1 3 true,
    .installSnapshot io 3 ⟨1, 1, 1, 1, [84, 75, 89, 83], true⟩, .snapshotReply 3 1 1 1, .propose 1 .noop 7,
    .flushPendingProposes io 1, .sendAppendEntries 1 3,
    .appendEntries io 3 ⟨1, 1, 1, 1, [⟨1, 2, noopCommand⟩], 1⟩]

def delayedSnapshot : InstallSnapshotRequest := ⟨1, 1, 1, 1, [84, 75, 89, 83], true⟩

theorem delayed_snapshot_drops_entry :
    let cluster := run step (start (Io.reliable trio) trio (fun _ => 1)) snapshotThenEntry
    (cluster.nodes 1).state.role = .leader ∧ (cluster.nodes 1).state.currentTerm = delayedSnapshot.term ∧
      .installSnapshot 3 delayedSnapshot ∈ cluster.net ∧
      (cluster.nodes 3).log.snapshot = (cluster.nodes 1).log.snapshot ∧
      (cluster.nodes 3).log.entries = (cluster.nodes 1).log.entries ∧
      ¬ Advances (cluster.nodes 3)
        ((cluster.step (.installSnapshot (Io.reliable trio) 3 delayedSnapshot)).nodes 3) := by
  decide +kernel

theorem chunks_get {blob : Bytes} {k : Nat} (inside : k < (chunks blob).length) :
    (chunks blob).get ⟨k, inside⟩ =
      ((blob.drop (k * chunkSize)).take chunkSize, decide (k + 1 = (chunks blob).length)) := by
  unfold chunks at inside ⊢
  cases blob with
  | nil =>
    have first : k = 0 := Nat.lt_one_iff.mp inside
    subst first
    rfl
  | cons byte rest => simp

theorem length_le_chunks (blob : Bytes) : blob.length ≤ (chunks blob).length * chunkSize := by
  unfold chunks
  cases blob with
  | nil => exact Nat.zero_le _
  | cons byte rest =>
    simp only [isEmpty_cons, Bool.false_eq_true, if_false, length_map, length_range]
    have positive : 0 < chunkSize := by decide
    have divided := Nat.div_add_mod ((byte :: rest).length + chunkSize - 1) chunkSize
    have remainder := Nat.mod_lt ((byte :: rest).length + chunkSize - 1) positive
    rw [mul_comm]
    omega

end Cluster

structure Transfer where
  term : Nat
  leaderId : Nat
  lastIncludedIndex : Nat
  lastIncludedTerm : Nat
  blob : Bytes

def Transfer.key (transfer : Transfer) : Nat × Nat := (transfer.lastIncludedIndex, transfer.lastIncludedTerm)

structure Arrival where
  io : Io
  transfer : Transfer
  position : Nat
  inside : position < (chunks transfer.blob).length

def Arrival.request (arrival : Arrival) : InstallSnapshotRequest :=
  let (data, done) := (chunks arrival.transfer.blob).get ⟨arrival.position, arrival.inside⟩
  ⟨arrival.transfer.term, arrival.transfer.leaderId, arrival.transfer.lastIncludedIndex,
    arrival.transfer.lastIncludedTerm, data, done⟩

theorem Arrival.request_eq (arrival : Arrival) {count : Nat} (whole : (chunks arrival.transfer.blob).length = count) :
    arrival.request = ⟨arrival.transfer.term, arrival.transfer.leaderId, arrival.transfer.lastIncludedIndex,
      arrival.transfer.lastIncludedTerm, (arrival.transfer.blob.drop (arrival.position * chunkSize)).take chunkSize,
      decide (arrival.position + 1 = count)⟩ := by
  unfold request
  rw [chunks_get, whole]

structure Receiver where
  node : RaftConsensus
  last : Option (Transfer × Nat)

namespace Receiver

variable {receiver : Receiver} {arrival : Arrival}

def Stale (receiver : Receiver) (arrival : Arrival) : Prop := arrival.transfer.term < receiver.node.state.currentTerm

instance : Decidable (Stale receiver arrival) := inferInstanceAs (Decidable (_ < _))

def receive (receiver : Receiver) (arrival : Arrival) : Receiver where
  node := receiver.node.call (.installSnapshot arrival.io arrival.request)
  last := if receiver.Stale arrival then receiver.last else some (arrival.transfer, arrival.position)

/-- A transfer begins when no other one for its index and term is unfinished, and each of its chunks directly
    follows the one before. -/
def InOrder (receiver : Receiver) (arrival : Arrival) : Prop :=
  receiver.Stale arrival ∨
    (arrival.position = 0 ∧ ∀ earlier ∈ receiver.last,
        earlier.2 + 1 = (chunks earlier.1.blob).length ∨ earlier.1.key ≠ arrival.transfer.key) ∨
      ∃ position, arrival.position = position + 1 ∧ receiver.last = some (arrival.transfer, position)

def Reassembles (receiver : Receiver) (arrival : Arrival) : Prop :=
  ¬ receiver.Stale arrival → arrival.request.done = true →
    receiver.node.completedBlob arrival.request = arrival.transfer.blob

def Buffered (receiver : Receiver) : Prop :=
  receiver.node.state.snapshotBuf = receiver.last.bind fun (transfer, position) =>
    if position + 1 = (chunks transfer.blob).length then none
    else some (transfer.lastIncludedIndex, transfer.lastIncludedTerm, transfer.blob.take ((position + 1) * chunkSize))

theorem call_installSnapshot {node : RaftConsensus} {io : Io} {request : InstallSnapshotRequest}
    (fresh : ¬ request.term < node.state.currentTerm) :
    (node.call (.installSnapshot io request)).state.currentTerm = request.term ∧
      (node.call (.installSnapshot io request)).state.snapshotBuf =
        if request.done then none
        else some (request.lastIncludedIndex, request.lastIncludedTerm, node.completedBlob request) := by
  simp only [call, handleInstallSnapshot]
  rw [if_neg fresh]
  cases request.done with
  | false => exact ⟨rfl, rfl⟩
  | true =>
    simp only [Bool.not_true, Bool.false_eq_true, if_false, if_true]
    unfold writeMembership
    repeat' split
    all_goals exact ⟨rfl, rfl⟩

theorem Buffered.completedBlob (buffered : Buffered receiver) (ordered : InOrder receiver arrival)
    (fresh : ¬ receiver.Stale arrival) : receiver.node.completedBlob arrival.request =
      arrival.transfer.blob.take ((arrival.position + 1) * chunkSize) := by
  unfold RaftConsensus.completedBlob Arrival.request
  rw [chunks_get, buffered]
  rcases ordered with stale | ⟨first, none⟩ | ⟨position, next, last⟩
  · exact absurd stale fresh
  · rw [first, Nat.zero_mul, Nat.zero_add, one_mul, drop_zero]
    cases recorded : receiver.last with
    | none => rfl
    | some earlier =>
      simp only [Option.bind_some, bufferChunk]
      rcases none earlier recorded with finished | other
      · rw [if_pos finished]
      split
      · rename_i same
        split at same
        · cases same
        · cases same
          exact if_neg fun both => other (Prod.ext both.1 both.2)
      · rfl
  · have unfinished : position + 1 ≠ (chunks arrival.transfer.blob).length := by
      have inside := arrival.inside
      omega
    rw [last, next, Nat.succ_mul (position + 1), take_add]
    simp only [Option.bind_some, if_neg unfinished, bufferChunk, and_self, if_true]

theorem Buffered.receive (buffered : Buffered receiver) (ordered : InOrder receiver arrival) :
    Buffered (receiver.receive arrival) ∧ Reassembles receiver arrival := by
  by_cases stale : receiver.Stale arrival
  · refine ⟨?_, fun fresh => absurd stale fresh⟩
    have turned : arrival.request.term < receiver.node.state.currentTerm := stale
    unfold Buffered Receiver.receive
    rw [if_pos stale]
    simp only [call, handleInstallSnapshot]
    rw [if_pos turned]
    exact buffered
  have whole := buffered.completedBlob ordered stale
  have done := congrArg InstallSnapshotRequest.done (arrival.request_eq rfl)
  constructor
  · unfold Buffered Receiver.receive
    rw [if_neg stale, (@call_installSnapshot receiver.node arrival.io arrival.request stale).2, done, whole]
    simp only [decide_eq_true_eq]
    rfl
  · intro _ final
    rw [done, decide_eq_true_eq] at final
    rw [whole, final]
    exact take_of_length_le (length_le_chunks _)

theorem receive_last (fresh : ¬ receiver.Stale arrival) :
    (receiver.receive arrival).last = some (arrival.transfer, arrival.position) := if_neg fresh

theorem receive_stale_iff (fresh : ¬ receiver.Stale arrival) (next : Arrival) :
    (receiver.receive arrival).Stale next ↔ next.transfer.term < arrival.transfer.term := by
  have term := (@call_installSnapshot receiver.node arrival.io arrival.request fresh).1
  unfold Stale Receiver.receive
  rw [term]
  rfl

/-- Snapshot chunks are put together to the blob that was sent, in every sequence of arrivals in which no transfer
    begins while another one for its index and term is unfinished, and none skips or repeats a chunk. -/
theorem snapshot_reassembled (io : Io) (id : Nat) (boot : ClusterMembership) (threshold : Nat) (arrivals : List Arrival)
    (ordered : Along receive InOrder ⟨bootstrap io id boot threshold, none⟩ arrivals) :
    Along receive Reassembles ⟨bootstrap io id boot threshold, none⟩ arrivals :=
  ordered.each (P := Buffered) rfl fun _ _ buffered ordered => buffered.receive ordered

def twoPieces : Bytes := List.replicate (chunkSize + 1) 0

theorem chunks_twoPieces : (chunks twoPieces).length = 2 := by
  have length : twoPieces.length = chunkSize + 1 := length_replicate
  unfold chunks
  generalize twoPieces = blob at length
  cases blob with
  | nil => cases length
  | cons byte rest =>
    simp only [isEmpty_cons, Bool.false_eq_true, if_false, length_map, length]
    decide

def piece (position : Fin 2) : Arrival :=
  ⟨reliable trio, ⟨1, 1, 1, 1, twoPieces⟩, position, chunks_twoPieces.symm ▸ position.isLt⟩

theorem piece_request (position : Fin 2) : (piece position).request =
    ⟨1, 1, 1, 1, (twoPieces.drop (position * chunkSize)).take chunkSize, decide (position.val + 1 = 2)⟩ :=
  (piece position).request_eq chunks_twoPieces

abbrev joining : Receiver := ⟨bootstrap (reliable trio) 3 trio 0, none⟩

theorem joining_fresh : ¬ joining.Stale (piece 0) := Nat.not_lt_zero 1

theorem piece_fresh {receiver : Receiver} (fresh : ¬ receiver.Stale (piece 0)) (position : Fin 2) :
    ¬ (receiver.receive (piece 0)).Stale (piece position) :=
  mt (receive_stale_iff fresh (piece position)).mp (lt_irrefl 1)

theorem snapshot_reassembled_pieces :
    let receiver := run receive ⟨bootstrap (reliable trio) 3 trio 0, none⟩ [piece 0]
    (piece 1).request.done = true ∧ receiver.node.completedBlob (piece 1).request = twoPieces := by
  have done : (piece 1).request.done = true := by rw [piece_request]; rfl
  have next : InOrder (joining.receive (piece 0)) (piece 1) := .inr (.inr ⟨0, rfl, receive_last joining_fresh⟩)
  have whole := snapshot_reassembled (reliable trio) 3 trio 0 [piece 0, piece 1]
    ⟨.inr (.inl ⟨rfl, nofun⟩), next, trivial⟩
  exact ⟨done, whole.2.1 (piece_fresh joining_fresh 1) done⟩

theorem completedBlob_doubled {node : RaftConsensus} (empty : node.state.snapshotBuf = none)
    (current : node.state.currentTerm ≤ 1) (io : Io) (first second : Bytes) :
    let chunk : Call := .installSnapshot io ⟨1, 1, 1, 1, first, false⟩
    ((node.call chunk).call chunk).completedBlob ⟨1, 1, 1, 1, second, true⟩ = first ++ first ++ second := by
  have fresh : ¬ 1 < node.state.currentTerm := not_lt.mpr current
  simp [call, handleInstallSnapshot, becomeFollower, dropProposals, bufferChunk, RaftConsensus.completedBlob, fresh,
    empty]

/-- The first try is interrupted after its first chunk. The second try has that chunk installed twice. -/
theorem retried_snapshot_doubled :
    let receiver := run receive ⟨bootstrap (reliable trio) 3 trio 0, none⟩ [piece 0, piece 0]
    ¬ receiver.Stale (piece 1) ∧ (piece 1).request.done = true ∧
      receiver.node.completedBlob (piece 1).request ≠ twoPieces := by
  have length : twoPieces.length = chunkSize + 1 := length_replicate
  have first := piece_request 0
  have second := piece_request 1
  refine ⟨piece_fresh (piece_fresh joining_fresh 0) 1, ?_, ?_⟩
  · rw [second]
    rfl
  generalize twoPieces = blob at length first second ⊢
  have doubled := @completedBlob_doubled (bootstrap (reliable trio) 3 trio 0) rfl
    (Nat.zero_le 1) (reliable trio) (blob.take chunkSize) ((blob.drop chunkSize).take chunkSize)
  have node : (run receive ⟨bootstrap (reliable trio) 3 trio 0, none⟩ [piece 0, piece 0]).node =
      ((bootstrap (reliable trio) 3 trio 0).call (.installSnapshot (reliable trio)
        (piece 0).request)).call (.installSnapshot (reliable trio) (piece 0).request) := by
    simp only [run_cons, run_nil, receive, piece]
  rw [first] at node
  rw [second, node]
  intro same
  have lengths := congrArg List.length (doubled.symm.trans same)
  simp only [length_append, length_take, length_drop] at lengths
  omega

end Receiver

end Takyonic
