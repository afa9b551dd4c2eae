import Takyonic.Foundation.Trace
import Takyonic.Raft.Consensus

namespace Takyonic

open Foundation Function

structure RequestVoteRequest where
  term : Nat
  candidateId : Nat
  lastLogIndex : Nat
  lastLogTerm : Nat
  deriving DecidableEq, Repr

structure AppendEntriesRequest where
  term : Nat
  leaderId : Nat
  prevLogIndex : Nat
  prevLogTerm : Nat
  entries : List RaftLogEntry
  leaderCommit : Nat
  deriving DecidableEq, Repr

structure InstallSnapshotRequest where
  term : Nat
  leaderId : Nat
  lastIncludedIndex : Nat
  lastIncludedTerm : Nat
  data : Bytes
  done : Bool
  deriving DecidableEq, Repr

/-- What travels between nodes. A reply keeps what the waiting caller knows of its request.
    `elected` is the driver's own note that `record_vote_granted` returned true (or that the node
    is the sole voter), on which it goes on to `become_leader`. -/
inductive Message where
  | requestVote (voter : Nat) (request : RequestVoteRequest)
  | voteReply (voter candidate requestTerm term : Nat) (voteGranted : Bool)
  | elected (candidate term : Nat)
  | appendEntries (peer : Nat) (request : AppendEntriesRequest)
  | appendReply (peer leader term : Nat) (success : Bool) (matchIndex : Nat)
  | installSnapshot (peer : Nat) (request : InstallSnapshotRequest)
  | snapshotReply (peer leader requestTerm lastIncludedIndex term : Nat)
  deriving DecidableEq, Repr

inductive Label where
  | runElection (node : Nat)
  | requestVote (voter : Nat) (request : RequestVoteRequest)
  | appendEntries (io : Io) (peer : Nat) (request : AppendEntriesRequest)
  | installSnapshot (io : Io) (peer : Nat) (request : InstallSnapshotRequest)
  | maybeStepDown (reply : Message)
  | recordVoteGranted (voter candidate requestTerm : Nat)
  | becomeLeader (candidate term : Nat)
  | appendReply (io : Io) (peer leader term : Nat) (success : Bool) (matchIndex : Nat)
  | snapshotReply (peer leader requestTerm lastIncludedIndex : Nat)
  | onPeerUnreachable (leader peer : Nat)
  | ensurePeerCursors (leader peer : Nat)
  | propose (node : Nat) (command : RaftCommand) (tx : Nat)
  | flushPendingProposes (io : Io) (node : Nat)
  | sendAppendEntries (leader peer : Nat)
  | sendSnapshot (io : Io) (leader peer : Nat) (cooled : Bool)

/-- A cluster: its nodes, the vote maps of the running elections and every message ever sent, so
    that a message may be lost, delayed, repeated or overtaken. `leaders` is a history variable:
    the pairs of a term and a node that has been Leader in it. -/
structure Cluster where
  nodes : Nat → RaftConsensus
  votes : Nat → Nat → Finset Nat
  net : List Message
  leaders : List (Nat × Nat)

namespace Cluster

open RaftConsensus

def replyTerm : Message → Option (Nat × Nat)
  | .voteReply _ candidate _ term _ => some (candidate, term)
  | .appendReply _ leader term _ _ => some (leader, term)
  | .snapshotReply _ leader _ _ term => some (leader, term)
  | _ => none

def act (cluster : Cluster) (i : Nat) (node : RaftConsensus) (sent : List Message) : Cluster :=
  { cluster with
    nodes := update cluster.nodes i node
    net := cluster.net ++ sent
    leaders :=
      if node.state.role = .leader then cluster.leaders ++ [(node.state.currentTerm, i)]
      else cluster.leaders }

def tally (cluster : Cluster) (candidate term : Nat) (votes : Finset Nat) : Cluster :=
  { cluster with
    votes := update cluster.votes candidate (update (cluster.votes candidate) term votes) }

def chunkSize : Nat := 256 * 1024

def chunks (data : Bytes) : List (Bytes × Bool) :=
  if data.isEmpty then [([], true)]
  else
    let count := (data.length + chunkSize - 1) / chunkSize
    (List.range count).map (fun k => ((data.drop (k * chunkSize)).take chunkSize, k + 1 = count))

/-- Node ids in the order a `BTreeSet` yields them. -/
def ascending (ids : Finset Nat) : List Nat := (List.range (ids.sup id + 1)).filter (· ∈ ids)

/-- What the driver of an election sends after `start_election`. -/
def electionMessages (node : RaftConsensus) (request : RequestVoteRequest) : List Message :=
  if node.peers = ∅ ∧ node.state.membership.quorum ≤ 1 then [.elected node.id request.term]
  else (ascending node.peers).map (fun peer => .requestVote peer request)

def requestFor (node : RaftConsensus) (peer : Nat) : Option AppendEntriesRequest :=
  (node.leaderPeerCursor peer).map (fun (term, leaderId, prev, prevTerm, entries, commit) =>
    ⟨term, leaderId, prev, prevTerm, entries, commit⟩)

def step (cluster : Cluster) : Label → Cluster
  | .runElection i =>
    let (node, term, lastIndex, lastTerm) := (cluster.nodes i).startElection
    (cluster.act i node (electionMessages node ⟨term, i, lastIndex, lastTerm⟩)).tally i term ∅
  | .requestVote voter request =>
    if .requestVote voter request ∈ cluster.net then
      let (node, term, granted) := (cluster.nodes voter).handleRequestVote request.term
        request.candidateId request.lastLogIndex request.lastLogTerm
      cluster.act voter node [.voteReply voter request.candidateId request.term term granted]
    else cluster
  | .appendEntries io peer request =>
    if .appendEntries peer request ∈ cluster.net then
      let (node, term, success, matchIndex) := (cluster.nodes peer).handleAppendEntries io request.term
        request.leaderId request.prevLogIndex request.prevLogTerm request.entries request.leaderCommit
      cluster.act peer node [.appendReply peer request.leaderId term success matchIndex]
    else cluster
  | .installSnapshot io peer request =>
    if .installSnapshot peer request ∈ cluster.net then
      let (node, result) := (cluster.nodes peer).handleInstallSnapshot io request.term request.leaderId
        request.lastIncludedIndex request.lastIncludedTerm request.data request.done
      match result with
      | .ok term => cluster.act peer node (if request.done then
          [.snapshotReply peer request.leaderId request.term request.lastIncludedIndex term] else [])
      | .error _ => cluster.act peer node []
    else cluster
  | .maybeStepDown reply =>
    if reply ∈ cluster.net then
      match replyTerm reply with
      | some (i, term) => cluster.act i ((cluster.nodes i).maybeStepDown term) []
      | none => cluster
    else cluster
  | .recordVoteGranted voter candidate requestTerm =>
    if .voteReply voter candidate requestTerm requestTerm true ∈ cluster.net then
      let (votes, won) := (cluster.nodes candidate).recordVoteGranted requestTerm voter
        (cluster.votes candidate requestTerm)
      (cluster.act candidate (cluster.nodes candidate)
        (if won then [.elected candidate requestTerm] else [])).tally candidate requestTerm votes
    else cluster
  | .becomeLeader candidate term =>
    if .elected candidate term ∈ cluster.net then
      cluster.act candidate ((cluster.nodes candidate).becomeLeader term) []
    else cluster
  | .appendReply io peer leader term success matchIndex =>
    if .appendReply peer leader term success matchIndex ∈ cluster.net then
      cluster.act leader (if success then (cluster.nodes leader).onAppendSuccess io peer matchIndex
        else (cluster.nodes leader).onAppendFailure peer term matchIndex) []
    else cluster
  | .snapshotReply peer leader requestTerm lastIncludedIndex =>
    if .snapshotReply peer leader requestTerm lastIncludedIndex requestTerm ∈ cluster.net then
      cluster.act leader ((cluster.nodes leader).onSnapshotSuccess peer lastIncludedIndex) []
    else cluster
  | .onPeerUnreachable leader peer => cluster.act leader ((cluster.nodes leader).onPeerUnreachable peer) []
  | .ensurePeerCursors leader peer => cluster.act leader ((cluster.nodes leader).ensurePeerCursors peer) []
  | .propose i command tx => cluster.act i ((cluster.nodes i).propose command tx).1 []
  | .flushPendingProposes io i => cluster.act i ((cluster.nodes i).flushPendingProposes io).1 []
  | .sendAppendEntries leader peer =>
    if peer = leader then cluster
    else match requestFor (cluster.nodes leader) peer with
      | some request => cluster.act leader (cluster.nodes leader) [.appendEntries peer request]
      | none => cluster
  | .sendSnapshot io leader peer cooled =>
    if peer = leader ∨ !(cluster.nodes leader).peerNeedsSnapshot peer cooled then cluster
    else match (cluster.nodes leader).buildInstallSnapshot io with
      | (node, .ok (term, leaderId, index, indexTerm, data)) =>
        cluster.act leader node ((chunks data).map (fun (chunk, done) =>
          .installSnapshot peer ⟨term, leaderId, index, indexTerm, chunk, done⟩))
      | (node, .error _) => cluster.act leader node []

def actor : Label → Nat
  | .runElection i => i
  | .requestVote voter _ => voter
  | .appendEntries _ peer _ => peer
  | .installSnapshot _ peer _ => peer
  | .maybeStepDown reply => ((replyTerm reply).map Prod.fst).getD 0
  | .recordVoteGranted _ candidate _ => candidate
  | .becomeLeader candidate _ => candidate
  | .appendReply _ _ leader _ _ _ => leader
  | .snapshotReply _ leader _ _ => leader
  | .onPeerUnreachable leader _ => leader
  | .ensurePeerCursors leader _ => leader
  | .propose i _ _ => i
  | .flushPendingProposes _ i => i
  | .sendAppendEntries leader _ => leader
  | .sendSnapshot _ leader _ _ => leader

/-- The node that takes the step still has the membership `membership` afterwards. -/
def KeepsMembership (membership : ClusterMembership) (cluster : Cluster) (label : Label) : Prop :=
  ((cluster.step label).nodes (actor label)).state.membership = membership

instance : Decidable (KeepsMembership membership cluster label) := inferInstanceAs (Decidable (_ = _))

def start (io : Io) (membership : ClusterMembership) (threshold : Nat → Nat) : Cluster :=
  { nodes := fun i => newWithThreshold io i membership .create ⟨0⟩ none (threshold i)
    votes := fun _ _ => ∅
    net := []
    leaders := [] }

/-- Node `i` has been Leader with `current_term = term` at some point of the run. -/
def HasLed (first : Cluster) (labels : List Label) (term i : Nat) : Prop :=
  ∃ reached rest, labels = reached ++ rest ∧
    ((run step first reached).nodes i).state.role = .leader ∧
    ((run step first reached).nodes i).state.currentTerm = term

def OneLeader (first : Cluster) (labels : List Label) : Prop :=
  ∀ term i j, HasLed first labels term i → HasLed first labels term j → i = j

theorem requestFor_cursor {node : RaftConsensus} {peer : Nat} {request : AppendEntriesRequest}
    (built : requestFor node peer = some request) :
    node.leaderPeerCursor peer = some (request.term, request.leaderId, request.prevLogIndex,
      request.prevLogTerm, request.entries, request.leaderCommit) := by
  obtain ⟨cursor, found, rfl⟩ := Option.map_eq_some_iff.mp built
  exact found

section Act

variable (cluster : Cluster) (i : Nat) (node : RaftConsensus) (sent : List Message)

@[simp] theorem act_nodes_self : (cluster.act i node sent).nodes i = node := by simp [act]

@[simp] theorem act_nodes_ne {j : Nat} (other : j ≠ i) :
    (cluster.act i node sent).nodes j = cluster.nodes j := by simp [act, other]

@[simp] theorem act_net : (cluster.act i node sent).net = cluster.net ++ sent := rfl

@[simp] theorem act_votes : (cluster.act i node sent).votes = cluster.votes := rfl

variable {cluster i node sent} in
theorem forall_act {P : Nat → RaftConsensus → Prop} (here : P i node)
    (others : ∀ j, j ≠ i → P j (cluster.nodes j)) (j : Nat) : P j ((cluster.act i node sent).nodes j) :=
  (forall_update_iff cluster.nodes P).mpr ⟨here, others⟩ j

theorem mem_act_leaders {pair : Nat × Nat} : pair ∈ (cluster.act i node sent).leaders ↔
    pair ∈ cluster.leaders ∨ node.state.role = .leader ∧ pair = (node.state.currentTerm, i) := by
  by_cases led : node.state.role = .leader <;> simp [act, led]

variable (candidate term : Nat) (votes : Finset Nat)

@[simp] theorem tally_nodes : (cluster.tally candidate term votes).nodes = cluster.nodes := rfl

@[simp] theorem tally_net : (cluster.tally candidate term votes).net = cluster.net := rfl

@[simp] theorem tally_leaders : (cluster.tally candidate term votes).leaders = cluster.leaders := rfl

theorem mem_tally {other otherTerm voter : Nat}
    (member : voter ∈ (cluster.tally candidate term votes).votes other otherTerm) :
    voter ∈ cluster.votes other otherTerm ∨ other = candidate ∧ otherTerm = term ∧ voter ∈ votes := by
  by_cases sameNode : other = candidate
  · subst sameNode
    by_cases sameTerm : otherTerm = term
    · subst sameTerm
      exact .inr ⟨rfl, rfl, by simpa [tally] using member⟩
    · exact .inl (by simpa [tally, sameTerm] using member)
  · exact .inl (by simpa [tally, sameNode] using member)

end Act

/-- What a step is: nothing, or what one node does to itself and sends. -/
inductive Stepped (cluster : Cluster) : Label → Cluster → Prop
  | idle {label} : Stepped cluster label cluster
  | runElection {i} : Stepped cluster (.runElection i) (cluster.step (.runElection i))
  | requestVote {voter request} (asked : .requestVote voter request ∈ cluster.net) :
      Stepped cluster (.requestVote voter request)
        (let reply := (cluster.nodes voter).handleRequestVote request.term request.candidateId request.lastLogIndex
          request.lastLogTerm
        cluster.act voter reply.1 [.voteReply voter request.candidateId request.term reply.2.1 reply.2.2])
  | appendEntries {io peer request} (asked : .appendEntries peer request ∈ cluster.net) :
      Stepped cluster (.appendEntries io peer request)
        (let reply := (cluster.nodes peer).handleAppendEntries io request.term request.leaderId request.prevLogIndex
          request.prevLogTerm request.entries request.leaderCommit
        cluster.act peer reply.1 [.appendReply peer request.leaderId reply.2.1 reply.2.2.1 reply.2.2.2])
  | installSnapshot {io peer request replies} (asked : .installSnapshot peer request ∈ cluster.net)
      (answers : ∀ reply ∈ replies, ∃ term, request.done = true ∧
        ((cluster.nodes peer).handleInstallSnapshot io request.term request.leaderId request.lastIncludedIndex
          request.lastIncludedTerm request.data request.done).2 = .ok term ∧
        reply = .snapshotReply peer request.leaderId request.term request.lastIncludedIndex term) :
      Stepped cluster (.installSnapshot io peer request)
        (cluster.act peer ((cluster.nodes peer).handleInstallSnapshot io request.term request.leaderId
          request.lastIncludedIndex request.lastIncludedTerm request.data request.done).1 replies)
  | maybeStepDown {reply i term} (sent : reply ∈ cluster.net) (waiting : replyTerm reply = some (i, term)) :
      Stepped cluster (.maybeStepDown reply) (cluster.act i ((cluster.nodes i).maybeStepDown term) [])
  | recordVoteGranted {voter candidate term} (granted : .voteReply voter candidate term term true ∈ cluster.net) :
      Stepped cluster (.recordVoteGranted voter candidate term)
        (let counted := (cluster.nodes candidate).recordVoteGranted term voter (cluster.votes candidate term)
        (cluster.act candidate (cluster.nodes candidate)
          (if counted.2 then [.elected candidate term] else [])).tally candidate term counted.1)
  | becomeLeader {candidate term} (elected : .elected candidate term ∈ cluster.net) :
      Stepped cluster (.becomeLeader candidate term)
        (cluster.act candidate ((cluster.nodes candidate).becomeLeader term) [])
  | onAppendSuccess {io peer leader term matchIndex}
      (answered : .appendReply peer leader term true matchIndex ∈ cluster.net) :
      Stepped cluster (.appendReply io peer leader term true matchIndex)
        (cluster.act leader ((cluster.nodes leader).onAppendSuccess io peer matchIndex) [])
  | onAppendFailure {io peer leader term matchIndex}
      (answered : .appendReply peer leader term false matchIndex ∈ cluster.net) :
      Stepped cluster (.appendReply io peer leader term false matchIndex)
        (cluster.act leader ((cluster.nodes leader).onAppendFailure peer term matchIndex) [])
  | onSnapshotSuccess {peer leader term index}
      (answered : .snapshotReply peer leader term index term ∈ cluster.net) :
      Stepped cluster (.snapshotReply peer leader term index)
        (cluster.act leader ((cluster.nodes leader).onSnapshotSuccess peer index) [])
  | onPeerUnreachable {leader peer} :
      Stepped cluster (.onPeerUnreachable leader peer)
        (cluster.act leader ((cluster.nodes leader).onPeerUnreachable peer) [])
  | ensurePeerCursors {leader peer} :
      Stepped cluster (.ensurePeerCursors leader peer)
        (cluster.act leader ((cluster.nodes leader).ensurePeerCursors peer) [])
  | propose {i command tx} :
      Stepped cluster (.propose i command tx) (cluster.act i ((cluster.nodes i).propose command tx).1 [])
  | flushPendingProposes {io i} :
      Stepped cluster (.flushPendingProposes io i) (cluster.act i ((cluster.nodes i).flushPendingProposes io).1 [])
  | sendAppendEntries {leader peer request} (other : peer ≠ leader)
      (built : requestFor (cluster.nodes leader) peer = some request) :
      Stepped cluster (.sendAppendEntries leader peer)
        (cluster.act leader (cluster.nodes leader) [.appendEntries peer request])
  | sendSnapshot {io leader peer cooled node term leaderId index indexTerm data} (other : peer ≠ leader)
      (built : (cluster.nodes leader).buildInstallSnapshot io = (node, .ok (term, leaderId, index, indexTerm, data))) :
      Stepped cluster (.sendSnapshot io leader peer cooled)
        (cluster.act leader node ((chunks data).map fun (chunk, done) =>
          .installSnapshot peer ⟨term, leaderId, index, indexTerm, chunk, done⟩))
  | buildFailed {io leader peer cooled node error}
      (built : (cluster.nodes leader).buildInstallSnapshot io = (node, .error error)) :
      Stepped cluster (.sendSnapshot io leader peer cooled) (cluster.act leader node [])

section

variable (cluster : Cluster) (label : Label)
include cluster label

theorem step_stepped : Stepped cluster label (cluster.step label) := by
  cases label with
  | runElection i => exact .runElection
  | installSnapshot io peer request =>
    simp only [step]
    split
    · rename_i asked
      split
      · rename_i term answer
        refine .installSnapshot asked (fun reply member => ?_)
        split at member
        · exact ⟨term, by assumption, answer, List.mem_singleton.mp member⟩
        · cases member
      · exact .installSnapshot asked nofun
    · exact .idle
  | recordVoteGranted voter candidate term =>
    simp only [step]
    split
    · exact .recordVoteGranted (by assumption)
    · exact .idle
  | appendReply io peer leader term success matchIndex =>
    simp only [step]
    split
    · cases success with
      | true => exact .onAppendSuccess (by assumption)
      | false => exact .onAppendFailure (by assumption)
    · exact .idle
  | sendSnapshot io leader peer cooled =>
    simp only [step]
    split
    · exact .idle
    · rename_i needed
      split
      · exact .sendSnapshot (fun same => needed (.inl same)) (by assumption)
      · exact .buildFailed (by assumption)
  | _ =>
    simp only [step]
    repeat' split
    all_goals first
      | exact .idle
      | exact .requestVote (by assumption)
      | exact .appendEntries (by assumption)
      | exact .maybeStepDown (by assumption) (by assumption)
      | exact .becomeLeader (by assumption)
      | exact .onSnapshotSuccess (by assumption)
      | exact .onPeerUnreachable
      | exact .ensurePeerCursors
      | exact .propose
      | exact .flushPendingProposes
      | exact .sendAppendEntries (by assumption) (by assumption)

theorem step_act : cluster.step label = cluster ∨
    ∃ node sent votes, cluster.step label = { cluster.act (actor label) node sent with votes := votes } := by
  have stepped := cluster.step_stepped label
  generalize cluster.step label = after at stepped ⊢
  cases stepped with
  | idle => exact .inl rfl
  | maybeStepDown sent waiting =>
    simp only [actor, waiting]
    exact .inr ⟨_, _, _, rfl⟩
  | _ => exact .inr ⟨_, _, _, rfl⟩

theorem nodes_step_ne {j : Nat} (other : j ≠ actor label) : (cluster.step label).nodes j = cluster.nodes j := by
  rcases step_act cluster label with same | ⟨node, sent, votes, acted⟩
  · rw [same]
  · rw [acted]
    exact act_nodes_ne _ _ _ sent other

end

variable {cluster : Cluster} {pair : Nat × Nat}

theorem KeepsMembership.all {membership : ClusterMembership} {label : Label}
    (kept : KeepsMembership membership cluster label)
    (fixed : ∀ i, (cluster.nodes i).state.membership = membership) :
    ∀ i, ((cluster.step label).nodes i).state.membership = membership := by
  intro i
  by_cases other : i = actor label
  · rw [other]
    exact kept
  · rw [nodes_step_ne cluster label other]
    exact fixed i

theorem leaders_step (cluster : Cluster) (label : Label) (led : pair ∈ cluster.leaders) :
    pair ∈ (cluster.step label).leaders := by
  rcases step_act cluster label with same | ⟨node, sent, votes, acted⟩
  · rwa [same]
  · rw [acted]
    exact (mem_act_leaders _ _ _ sent).mpr (.inl led)

theorem leaders_run (cluster : Cluster) (labels : List Label) (led : pair ∈ cluster.leaders) :
    pair ∈ (run step cluster labels).leaders := by
  induction labels generalizing cluster with
  | nil => exact led
  | cons label rest ih => exact ih _ (leaders_step cluster label led)

def LeadersRecorded (cluster : Cluster) : Prop :=
  ∀ i, (cluster.nodes i).state.role = .leader → ((cluster.nodes i).state.currentTerm, i) ∈ cluster.leaders

section

variable (recorded : LeadersRecorded cluster)
include recorded

theorem LeadersRecorded.act (i : Nat) (node : RaftConsensus) (sent : List Message) :
    LeadersRecorded (cluster.act i node sent) :=
  forall_act (P := fun j node => node.state.role = .leader →
      (node.state.currentTerm, j) ∈ (cluster.act i _ sent).leaders)
    (fun led => (mem_act_leaders _ _ _ sent).mpr (.inr ⟨led, rfl⟩))
    (fun j _ led => (mem_act_leaders _ _ _ sent).mpr (.inl (recorded j led)))

theorem LeadersRecorded.after_step (label : Label) : LeadersRecorded (cluster.step label) := by
  rcases step_act cluster label with same | ⟨node, sent, votes, acted⟩
  · rwa [same]
  · rw [acted]
    exact recorded.act _ node sent

theorem LeadersRecorded.after_run (labels : List Label) : LeadersRecorded (run step cluster labels) := by
  induction labels generalizing cluster with
  | nil => exact recorded
  | cons label rest ih => exact ih (recorded.after_step label)

end

variable (io : Io) (membership : ClusterMembership) (threshold : Nat → Nat)

theorem start_leadersRecorded : LeadersRecorded (start io membership threshold) := by
  intro i led
  cases led

theorem hasLed_of_mem_leaders {cluster : Cluster} {labels : List Label}
    (led : (term, i) ∈ (run step cluster labels).leaders) :
    (term, i) ∈ cluster.leaders ∨ HasLed cluster labels term i := by
  induction labels generalizing cluster with
  | nil => exact .inl led
  | cons label rest ih =>
    rcases ih led with earlier | ⟨reached, later, rfl, leading⟩
    · rcases step_act cluster label with same | ⟨node, sent, votes, acted⟩
      · rw [same] at earlier
        exact .inl earlier
      rw [acted] at earlier
      rcases (mem_act_leaders _ _ _ sent).mp earlier with earlier | ⟨leads, pair⟩
      · exact .inl earlier
      · cases pair
        refine .inr ⟨[label], rest, rfl, ?_⟩
        rw [run_cons, acted]
        simpa using leads
    · exact .inr ⟨label :: reached, later, rfl, leading⟩

theorem mem_leaders_iff_hasLed (labels : List Label) (term i : Nat) :
    (term, i) ∈ (run step (start io membership threshold) labels).leaders ↔
      HasLed (start io membership threshold) labels term i := by
  constructor
  · intro led
    rcases hasLed_of_mem_leaders led with earlier | found
    · cases earlier
    · exact found
  · rintro ⟨reached, rest, rfl, led, rfl⟩
    rw [run_append]
    exact leaders_run _ _ (((start_leadersRecorded io membership threshold).after_run reached) i led)

end Cluster

end Takyonic
