import Takyonic.Raft.Log

namespace Takyonic

open Foundation Function RaftCommand

inductive Role where
  | follower
  | candidate
  | leader
  deriving DecidableEq, Repr

structure Waiter where
  index : Nat
  tx : Nat
  deriving DecidableEq, Repr

structure PendingPropose where
  encoded : Bytes
  tx : Nat
  deriving DecidableEq, Repr

structure CommittedEntry where
  index : Nat
  command : RaftCommand
  deriving DecidableEq, Repr

/-- What the engine does with an InstallSnapshot blob: refuse it, fail after `set_last_applied`
    (the WAL rotation at the end), or install it and return the membership it carries. -/
inductive InstallOutcome where
  | rejected (error : TakyonicError)
  | torn (error : TakyonicError)
  | installed (membership : ClusterMembership)

/-- The answers of the file system and of the storage engine during one handler call. -/
structure Io where
  append : List RaftLogEntry → Bool
  compact : Bool
  forceFlush : Bool
  metaInstall : Bool
  flush : Bool
  membershipWrite : Bool
  logInstall : Bool
  install : Bytes → Nat → Nat → InstallOutcome
  exportSst : Option Bytes

/-- Nothing fails; the snapshot blobs carry `membership`. -/
def Io.reliable (membership : ClusterMembership) : Io where
  append := fun _ => true
  compact := true
  forceFlush := true
  metaInstall := true
  flush := true
  membershipWrite := true
  logInstall := true
  install := fun _ _ _ => .installed membership
  exportSst := some [84, 75, 89, 83]

/-- The part of the storage engine that consensus reads. -/
structure Engine where
  lastApplied : Nat
  deriving DecidableEq, Repr

namespace Engine

/-- `apply_log`: the batch is applied entry by entry; an index that skips ahead stops it. -/
def applyLog (current : Nat) : Nat → Nat → List CommittedEntry → Nat × Except TakyonicError Unit
  | applied, _, [] => (applied, .ok ())
  | applied, expected, committed :: rest =>
    if committed.index ≤ current then applyLog current applied expected rest
    else if committed.index ≠ expected then
      (applied, .error (.raft s!"apply_log gap: expected {expected}, got {committed.index}"))
    else applyLog current (max applied committed.index) (expected + 1) rest

/-- The catalog installs run before `apply_log` and the memtable flush after it, so only a failed
    flush returns an error with `lastApplied` already advanced. -/
def applyCommitted (io : Io) (engine : Engine) (batch : List CommittedEntry) :
    Engine × Except TakyonicError Unit :=
  if batch.isEmpty then (engine, .ok ())
  else if !io.metaInstall then (engine, .error .io)
  else match applyLog engine.lastApplied engine.lastApplied (engine.lastApplied + 1) batch with
    | (applied, .error error) => (⟨applied⟩, .error error)
    | (applied, .ok ()) => (⟨applied⟩, if io.flush then .ok () else .error .io)

end Engine

/-- Soft state of a node. The timers of the source carry no logic here: when an election starts or
    a snapshot attempt is due is up to the scheduler. -/
structure SoftState where
  currentTerm : Nat
  votedFor : Option Nat
  role : Role
  leaderId : Option Nat
  commitIndex : Nat
  nextIndex : Nat → Option Nat
  matchIndex : Nat → Option Nat
  waiters : List Waiter
  pending : List PendingPropose
  snapshotBuf : Option (Nat × Nat × Bytes)
  membership : ClusterMembership
  baseMembership : ClusterMembership
  membershipGen : Nat
  removed : Bool

/-- One node. `membershipFile` is `MEMBERSHIP.meta` as last written and `sent` the results handed
    to the clients' reply channels. -/
structure RaftConsensus where
  id : Nat
  log : RaftLog
  engine : Engine
  state : SoftState
  snapshotThreshold : Nat
  membershipFile : Option ClusterMembership
  sent : List (Nat × Except TakyonicError Nat)

namespace RaftConsensus

def foldConfig (membership : ClusterMembership) (entries : List RaftLogEntry) :
    ClusterMembership :=
  entries.foldl (fun live entry =>
    match decode entry.command with
    | .ok command => applyConfigTo live command
    | .error _ => live) membership

/-- `membershipFile` is what `MEMBERSHIP.meta` holds when it can be read. -/
def newWithThreshold (io : Io) (id : Nat) (membership : ClusterMembership) (log : RaftLog)
    (engine : Engine) (membershipFile : Option ClusterMembership) (snapshotThreshold : Nat) :
    RaftConsensus :=
  let stored := membershipFile.getD membership
  let base := if stored.isEmpty && !membership.isEmpty then membership else stored
  let live := foldConfig base (log.entriesFrom (log.snapshotMeta.lastIncludedIndex + 1))
  { id := id
    log := log
    engine := engine
    state :=
      { currentTerm := 0
        votedFor := none
        role := .follower
        leaderId := none
        commitIndex := log.snapshotMeta.lastIncludedIndex
        nextIndex := fun peer => if peer ∈ live.peersExcept id then some (log.lastIndex + 1) else none
        matchIndex := fun peer => if peer ∈ live.peersExcept id then some 0 else none
        waiters := []
        pending := []
        snapshotBuf := none
        membership := live
        baseMembership := base
        membershipGen := 1
        removed := !live.contains id && !live.isEmpty }
    snapshotThreshold := snapshotThreshold
    membershipFile := if io.membershipWrite then some live else membershipFile
    sent := [] }

inductive StoreResult where
  | stopped (node : RaftConsensus)
  | scanned (node : RaftConsensus) (toAppend : List RaftLogEntry) (truncated : Bool)

def StoreResult.node : StoreResult → RaftConsensus
  | .stopped node => node
  | .scanned node _ _ => node

variable (node : RaftConsensus) (io : Io)

def peers : Finset Nat := node.state.membership.peersExcept node.id

def leaderAddress : Option String :=
  node.state.leaderId.bind node.state.membership.address

def writeMembership : RaftConsensus :=
  if io.membershipWrite then { node with membershipFile := some node.state.membership } else node

def dropProposals : RaftConsensus :=
  { node with
    state := { node.state with waiters := [], pending := [] }
    sent := node.sent ++
      node.state.waiters.map (fun waiter =>
        (waiter.tx, .error (.raft "leadership lost before commit"))) ++
      node.state.pending.map (fun pending =>
        (pending.tx, .error (.raft "leadership lost before batch flush"))) }

def becomeFollower (term : Nat) (leader : Option Nat) : RaftConsensus :=
  dropProposals { node with
    state := { node.state with
      currentTerm := term
      role := .follower
      votedFor := none
      leaderId := leader } }

def hasUncommittedConfigChange : Bool :=
  (List.range' (node.state.commitIndex + 1) (node.log.lastIndex - node.state.commitIndex)).any
    (fun index => match node.log.entry index with
      | some entry => changesConfig entry.command
      | none => false)

def propose (command : RaftCommand) (tx : Nat) :
    RaftConsensus × Except TakyonicError Unit :=
  if command.isConfigChange && node.hasUncommittedConfigChange then
    (node, .error (.raft "previous configuration change is not yet committed"))
  else match command.encode with
    | .error error => (node, .error error)
    | .ok encoded =>
      if node.state.removed then
        (node, .error (.raft "node has been removed from the cluster"))
      else if node.state.role ≠ .leader then (node, .error (.notLeader node.leaderAddress))
      else
        ({ node with state := { node.state with pending := node.state.pending ++ [⟨encoded, tx⟩] } }, .ok ())

def handleRequestVote (term candidateId lastLogIndex lastLogTerm : Nat) :
    RaftConsensus × (Nat × Bool) :=
  if node.state.removed then (node, (node.state.currentTerm, false))
  else if !node.state.membership.contains node.id then (node, (node.state.currentTerm, false))
  else if term < node.state.currentTerm then (node, (node.state.currentTerm, false))
  else
    let node := if node.state.currentTerm < term then node.becomeFollower term none else node
    let logOk := node.log.isUpToDate lastLogIndex lastLogTerm
    let canVote := node.state.votedFor.all (fun voted => voted = candidateId)
    if logOk && canVote then
      ({ node with state := { node.state with votedFor := some candidateId } }, (node.state.currentTerm, true))
    else (node, (node.state.currentTerm, false))

def compactApplied : RaftConsensus :=
  match node.log.termAt node.engine.lastApplied with
  | none => node
  | some term =>
    if !io.compact then node
    else match node.log.compactThrough node.engine.lastApplied term with
      | .ok log => { node with log := log }
      | .error _ => node

def reseedCursors (state : SoftState) (snap : Nat) : RaftCommand → SoftState
  | .addNode peer _ =>
    if state.role = .leader then
      { state with
        matchIndex := update state.matchIndex peer (some 0)
        nextIndex := update state.nextIndex peer (some (if 0 < snap then snap else 1)) }
    else state
  | .removeNode id =>
    { state with
      nextIndex := update state.nextIndex id none
      matchIndex := update state.matchIndex id none }
  | _ => state

def ensureBoundary : RaftCommand → RaftConsensus
  | .addNode _ _ =>
    if node.state.role = .leader ∧ node.log.snapshotMeta.lastIncludedIndex = 0 ∧
        0 < node.engine.lastApplied then
      node.compactApplied io
    else node
  | _ => node

def applyConfigChangeImmediate (command : RaftCommand) :
    RaftConsensus :=
  let node := node.ensureBoundary io command
  let membership := applyConfigTo node.state.membership command
  if membership = node.state.membership then node
  else
    let state := { node.state with
      membership := membership
      membershipGen := node.state.membershipGen + 1 }
    writeMembership { node with
      state := reseedCursors state node.log.snapshotMeta.lastIncludedIndex command } io

def applyAppendedConfigChanges (entries : List RaftLogEntry) :
    RaftConsensus :=
  entries.foldl (fun node entry =>
    match decode entry.command with
    | .ok command => if command.isConfigChange then node.applyConfigChangeImmediate io command else node
    | .error _ => node) node

def rebuildMembershipFromLog : RaftConsensus :=
  let live := foldConfig node.state.baseMembership (node.log.entriesFrom (node.log.snapshotMeta.lastIncludedIndex + 1))
  if node.state.membership = live then node
  else writeMembership { node with
    state := { node.state with
      membership := live
      membershipGen := node.state.membershipGen + 1 } } io

def countMatch (state : SoftState) (n : Nat) : Nat :=
  (state.membership.members.filter (fun peer => n ≤ (state.matchIndex peer).getD 0)).card

def matchSelf (log : RaftLog) (selfId : Nat) (state : SoftState) : SoftState :=
  if state.membership.contains selfId then
    { state with
      matchIndex := update state.matchIndex selfId (some (max ((state.matchIndex selfId).getD 0) log.lastIndex)) }
  else state

def tryCommit (log : RaftLog) (state : SoftState) (n : Nat) : SoftState :=
  if log.termAt n ≠ some state.currentTerm then state
  else if state.membership.quorum ≤ countMatch state n then { state with commitIndex := n }
  else state

def advanceCommitIndex (log : RaftLog) (selfId : Nat) (state : SoftState) : SoftState :=
  if state.role ≠ .leader then state
  else
    (List.range' (state.commitIndex + 1) (log.lastIndex - state.commitIndex)).foldl (tryCommit log)
      (matchSelf log selfId state)

def committedBatch (log : RaftLog) : Nat → Nat → Except TakyonicError (List CommittedEntry)
  | _, 0 => .ok []
  | index, count + 1 =>
    match log.entry index with
    | none => .ok []
    | some entry => do
      let command ← decode entry.command
      let rest ← committedBatch log (index + 1) count
      pure (⟨index, command⟩ :: rest)

def maybeCompact : RaftConsensus × Except TakyonicError Unit :=
  if node.snapshotThreshold = 0 then (node, .ok ())
  else if node.log.len < node.snapshotThreshold then (node, .ok ())
  else if node.engine.lastApplied = 0 then (node, .ok ())
  else if node.engine.lastApplied ≤ node.log.snapshotMeta.lastIncludedIndex then (node, .ok ())
  else match node.log.termAt node.engine.lastApplied with
    | none => (node, .ok ())
    | some term =>
      if !io.forceFlush then (node, .error .io)
      else if !io.compact then (node, .error .io)
      else match node.log.compactThrough node.engine.lastApplied term with
        | .error error => (node, .error error)
        | .ok log => (writeMembership { node with log := log } io, .ok ())

def freezeBase (batch : List CommittedEntry) : RaftConsensus :=
  if batch.any (fun committed => committed.command.isConfigChange) then
    writeMembership { node with
      state := { node.state with
        baseMembership := batch.foldl (fun base committed =>
          if committed.command.isConfigChange then applyConfigTo base committed.command
          else base) node.state.baseMembership } } io
  else node

def noteCommitted (batch : List CommittedEntry) : RaftConsensus :=
  let node := node.freezeBase io batch
  if batch.any (fun committed => committed.command = .removeNode node.id) then
    { node with
      state := { node.state with
        removed := true
        role := if node.state.role = .leader then .follower else node.state.role
        leaderId := if node.state.role = .leader then none else node.state.leaderId } }
  else node

def applyCommittedTo (commitIndex : Nat) :
    RaftConsensus × Except TakyonicError Unit :=
  if commitIndex ≤ node.engine.lastApplied then (node, .ok ())
  else
    let start := max (node.engine.lastApplied + 1) (node.log.snapshotMeta.lastIncludedIndex + 1)
    if commitIndex < start then (node, .ok ())
    else match committedBatch node.log start (commitIndex + 1 - start) with
      | .error error => (node, .error error)
      | .ok batch =>
        if batch.isEmpty then (node, .ok ())
        else match node.engine.applyCommitted io batch with
          | (engine, .error error) => ({ node with engine := engine }, .error error)
          | (engine, .ok ()) => (noteCommitted { node with engine := engine } io batch).maybeCompact io

def notifyWaiters : RaftConsensus :=
  let ready := node.state.waiters.filter (fun waiter => waiter.index ≤ node.state.commitIndex)
  { node with
    state := { node.state with
      waiters := node.state.waiters.filter (fun waiter => ¬ waiter.index ≤ node.state.commitIndex) }
    sent := node.sent ++ ready.map (fun waiter => (waiter.tx, .ok waiter.index)) }

def commitProposes (pending : List PendingPropose) (start : Nat) :
    RaftConsensus :=
  let state := advanceCommitIndex node.log node.id { node.state with
    waiters := node.state.waiters ++ (pending.zipIdx start).map (fun proposal => ⟨proposal.2, proposal.1.tx⟩)
    matchIndex := update node.state.matchIndex node.id (some node.log.lastIndex) }
  let node := { node with state := state }
  if 0 < state.commitIndex then (node.applyCommittedTo io state.commitIndex).1.notifyWaiters
  else node

/-- `flush_pending_proposes` after the durable append: membership changes take effect at once. No
    handler runs in between, so the leadership check that follows them cannot fail. -/
def publishProposes (pending : List PendingPropose) (start : Nat) :
    RaftConsensus :=
  (node.applyAppendedConfigChanges io
    ((List.range' start pending.length).filterMap node.log.entry)).commitProposes io pending start

def flushPendingProposes :
    RaftConsensus × Except TakyonicError Nat :=
  if node.state.role ≠ .leader ∨ node.state.removed then (node, .ok 0)
  else if node.state.pending.isEmpty then (node, .ok 0)
  else
    let pending := node.state.pending
    let node := { node with state := { node.state with pending := [] } }
    let (log, start) := node.log.appendCommands node.state.currentTerm (pending.map PendingPropose.encoded)
    if !io.append (log.entriesFrom start) then
      ({ node with sent := node.sent ++ pending.map (fun proposal => (proposal.tx, .error .io)) }, .error .io)
    else (publishProposes { node with log := log } io pending start, .ok pending.length)

def storeBatch (batch : List RaftLogEntry) : Option RaftConsensus :=
  if !io.append batch then none
  else match node.log.appendBatch batch with
    | .error _ => none
    | .ok log => some (applyAppendedConfigChanges { node with log := log } io batch)

def storeEntries (io : Io) (snapIdx : Nat) :
    List RaftLogEntry → RaftConsensus → List RaftLogEntry → Bool → StoreResult
  | [], node, toAppend, truncated => .scanned node toAppend truncated
  | entry :: rest, node, toAppend, truncated =>
    if entry.index ≤ snapIdx then storeEntries io snapIdx rest node toAppend truncated
    else match node.log.termAt entry.index with
      | some existing =>
        if existing ≠ entry.term then
          if toAppend.isEmpty then
            storeEntries io snapIdx rest { node with log := node.log.truncateAfter (entry.index - 1) } [entry] true
          else match node.storeBatch io toAppend with
            | none => .stopped node
            | some node =>
              storeEntries io snapIdx rest { node with log := node.log.truncateAfter (entry.index - 1) } [entry] true
        else storeEntries io snapIdx rest node toAppend truncated
      | none =>
        if entry.index = node.log.lastIndex + 1 + toAppend.length then
          storeEntries io snapIdx rest node (toAppend ++ [entry]) truncated
        else if node.log.lastIndex + 1 + toAppend.length < entry.index then .stopped node
        else storeEntries io snapIdx rest node toAppend truncated

def finishStore : StoreResult → RaftConsensus × Bool
  | .stopped node => (node, false)
  | .scanned node toAppend truncated =>
    let node := if truncated then node.rebuildMembershipFromLog io else node
    if toAppend.isEmpty then (node, true)
    else match node.storeBatch io toAppend with
      | none => (node, false)
      | some node => (node, true)

def acceptLeader (term leaderId : Nat) : RaftConsensus :=
  if node.state.currentTerm < term ∨ node.state.role ≠ .follower then
    node.becomeFollower term (some leaderId)
  else { node with state := { node.state with leaderId := some leaderId } }

def handleAppendEntries (term leaderId prevLogIndex prevLogTerm : Nat) (entries : List RaftLogEntry)
    (leaderCommit : Nat) : RaftConsensus × (Nat × Bool × Nat) :=
  if term < node.state.currentTerm then (node, (node.state.currentTerm, false, 0))
  else
    let node := node.acceptLeader term leaderId
    if 0 < prevLogIndex ∧ node.log.termAt prevLogIndex ≠ some prevLogTerm then
      (node, (node.state.currentTerm, false, node.log.lastIndex))
    else
      let termNow := node.state.currentTerm
      match finishStore io (storeEntries io node.log.snapshotMeta.lastIncludedIndex entries node [] false) with
      | (node, false) => (node, (termNow, false, node.log.lastIndex))
      | (node, true) =>
        let matchIndex := node.log.lastIndex
        let node :=
          if node.state.commitIndex < leaderCommit then
            { node with state := { node.state with commitIndex := min leaderCommit matchIndex } }
          else node
        let node := (node.applyCommittedTo io node.state.commitIndex).1
        (node, (node.state.currentTerm, true, matchIndex))

def bufferChunk (buffer : Option (Nat × Nat × Bytes)) (index term : Nat) (data : Bytes) : Bytes :=
  match buffer with
  | some (bufferedIndex, bufferedTerm, bytes) =>
    if bufferedIndex = index ∧ bufferedTerm = term then bytes ++ data else data
  | none => data

def handleInstallSnapshot (term leaderId lastIncludedIndex lastIncludedTerm : Nat) (data : Bytes) (done : Bool) :
    RaftConsensus × Except TakyonicError Nat :=
  if term < node.state.currentTerm then (node, .ok node.state.currentTerm)
  else
    let node := node.becomeFollower term (some leaderId)
    let blob := bufferChunk node.state.snapshotBuf lastIncludedIndex lastIncludedTerm data
    if !done then
      ({ node with state := { node.state with
          snapshotBuf := some (lastIncludedIndex, lastIncludedTerm, blob) } },
        .ok node.state.currentTerm)
    else
      let node := { node with state := { node.state with snapshotBuf := none } }
      match io.install blob lastIncludedIndex lastIncludedTerm with
      | .rejected error => (node, .error error)
      | .torn error => ({ node with engine := ⟨lastIncludedIndex⟩ }, .error error)
      | .installed membership =>
        let node := { node with engine := ⟨lastIncludedIndex⟩ }
        if !io.logInstall then (node, .error .io)
        else
          let node := { node with
            log := node.log.installSnapshot lastIncludedIndex lastIncludedTerm
            state := { node.state with
              commitIndex := max node.state.commitIndex lastIncludedIndex } }
          let node :=
            if membership.isEmpty then node
            else writeMembership { node with
              state := { node.state with
                baseMembership := membership
                membership := membership
                membershipGen := node.state.membershipGen + 1
                removed := !membership.contains node.id } } io
          (node, .ok node.state.currentTerm)

def peerNeedsSnapshot (peer : Nat) (cooled : Bool) : Bool :=
  node.state.role = .leader && node.log.snapshotMeta.lastIncludedIndex ≠ 0 &&
    (node.state.nextIndex peer).getD 1 ≤ node.log.snapshotMeta.lastIncludedIndex && cooled

def onPeerUnreachable (peer : Nat) : RaftConsensus :=
  if node.state.role ≠ .leader then node
  else
    let next := (node.state.nextIndex peer).getD 1
    let snap := node.log.snapshotMeta.lastIncludedIndex
    let next := if 0 < snap ∧ snap < next then max ((next + snap) / 2) snap else max (next - 1) 1
    { node with state := { node.state with
        nextIndex := update node.state.nextIndex peer (some next) } }

def forceBoundary : Except TakyonicError RaftConsensus :=
  if node.log.snapshotMeta.lastIncludedIndex ≠ 0 then .ok node
  else if node.engine.lastApplied = 0 then .error (.raft "no local snapshot to install")
  else match node.log.termAt node.engine.lastApplied with
    | none => .error (.raft "missing term at applied index")
    | some term =>
      if !io.forceFlush || !io.compact then .error .io
      else match node.log.compactThrough node.engine.lastApplied term with
        | .error error => .error error
        | .ok log => .ok { node with log := log }

def buildInstallSnapshot :
    RaftConsensus × Except TakyonicError (Nat × Nat × Nat × Nat × Bytes) :=
  if node.state.role ≠ .leader then (node, .error (.raft "not leader"))
  else match node.forceBoundary io with
    | .error error => (node, .error error)
    | .ok node =>
      let snap := node.log.snapshotMeta
      if snap.lastIncludedIndex = 0 then (node, .error (.raft "no local snapshot to install"))
      else match io.exportSst with
        | none => (node, .error .io)
        | some data =>
          (node, .ok (node.state.currentTerm, node.id, snap.lastIncludedIndex, snap.lastIncludedTerm, data))

def onSnapshotSuccess (peer lastIncludedIndex : Nat) : RaftConsensus :=
  if node.state.role ≠ .leader then node
  else { node with
    state := advanceCommitIndex node.log node.id { node.state with
      matchIndex := update node.state.matchIndex peer (some lastIncludedIndex)
      nextIndex := update node.state.nextIndex peer (some (lastIncludedIndex + 1)) } }

def startElection : RaftConsensus × (Nat × Nat × Nat) :=
  if node.state.removed || !node.state.membership.contains node.id then
    (node, (node.state.currentTerm, node.log.lastIndex, node.log.lastTerm))
  else
    let node := dropProposals { node with
      state := { node.state with
        currentTerm := node.state.currentTerm + 1
        role := .candidate
        votedFor := some node.id
        leaderId := none } }
    (node, (node.state.currentTerm, node.log.lastIndex, node.log.lastTerm))

/-- The votes granted so far in this election, all of them `true` entries of the source's map. -/
def recordVoteGranted (term voter : Nat) (votes : Finset Nat) :
    Finset Nat × Bool :=
  if node.state.role ≠ .candidate ∨ node.state.currentTerm ≠ term then (votes, false)
  else if !node.state.membership.contains voter && voter ≠ node.id then (votes, false)
  else (insert voter votes, node.state.membership.quorum ≤ (insert voter votes).card + 1)

def noopProposal : List PendingPropose :=
  match noop.encode with
  | .ok encoded => [⟨encoded, 0⟩]
  | .error _ => []

def becomeLeader (term : Nat) : RaftConsensus :=
  if node.state.currentTerm ≠ term ∨ node.state.role ≠ .candidate then node
  else
    let last := node.log.lastIndex
    { node with state := { node.state with
        role := .leader
        leaderId := some node.id
        nextIndex := fun peer =>
          if peer ∈ node.peers then some (last + 1) else node.state.nextIndex peer
        matchIndex := fun peer =>
          if peer = node.id then some last
          else if peer ∈ node.peers then some 0 else node.state.matchIndex peer
        pending := node.state.pending ++ noopProposal } }

def maybeStepDown (remoteTerm : Nat) : RaftConsensus :=
  if node.state.currentTerm < remoteTerm then node.becomeFollower remoteTerm none else node

def maxBatch : Nat := 2048

def leaderPeerCursor (peer : Nat) :
    Option (Nat × Nat × Nat × Nat × List RaftLogEntry × Nat) :=
  if node.state.role ≠ .leader then none
  else
    let next := (node.state.nextIndex peer).getD 1
    let snap := node.log.snapshotMeta
    if 0 < snap.lastIncludedIndex ∧ next ≤ snap.lastIncludedIndex then none
    else
      let prev := next - 1
      some (node.state.currentTerm, node.id, prev, (node.log.termAt prev).getD 0,
        (node.log.entriesFrom next).take maxBatch, node.state.commitIndex)

def ensurePeerCursors (peer : Nat) : RaftConsensus :=
  if node.state.role ≠ .leader then node
  else
    let snap := node.log.snapshotMeta.lastIncludedIndex
    let next := (node.state.nextIndex peer).getD (node.log.lastIndex + 1)
    { node with state := { node.state with
        nextIndex := update node.state.nextIndex peer (some (if 0 < snap then snap else next))
        matchIndex := update node.state.matchIndex peer (some ((node.state.matchIndex peer).getD 0)) } }

def onAppendSuccess (peer matchIndex : Nat) : RaftConsensus :=
  if node.state.role ≠ .leader then node
  else
    let state := advanceCommitIndex node.log node.id { node.state with
      matchIndex := update node.state.matchIndex peer (some matchIndex)
      nextIndex := update node.state.nextIndex peer (some (matchIndex + 1)) }
    let node := { node with state := state }
    (node.applyCommittedTo io state.commitIndex).1.notifyWaiters

def onAppendFailure (peer remoteTerm hint : Nat) : RaftConsensus :=
  if node.state.currentTerm < remoteTerm then node.becomeFollower remoteTerm none
  else if node.state.role ≠ .leader then node
  else
    let next := (node.state.nextIndex peer).getD 1
    let next := if 0 < hint then max (min (hint + 1) next) 1 else max (next - 1) 1
    { node with state := { node.state with
        nextIndex := update node.state.nextIndex peer (some next) } }

end RaftConsensus

end Takyonic
