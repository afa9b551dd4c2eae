import Takyonic.Twopc.Participant

namespace Takyonic

open Foundation List

structure CoordinatorDecision where
  state : TwopcState
  commitTs : Option Nat
  deriving DecidableEq, Repr

namespace CoordinatorDecision

def committed (commitTs : Nat) : CoordinatorDecision := ⟨.committed, some commitTs⟩

def aborted : CoordinatorDecision := ⟨.aborted, none⟩

end CoordinatorDecision

structure TcDecisionRecord where
  txnId : Nat
  state : TwopcState
  commitTs : Option Nat
  deriving DecidableEq, Repr

open TcDecisionRecord

namespace TcDecisionRecord

def decision (record : TcDecisionRecord) : CoordinatorDecision := ⟨record.state, record.commitTs⟩

def ofDecision (txnId : Nat) (decision : CoordinatorDecision) : TcDecisionRecord :=
  ⟨txnId, decision.state, decision.commitTs⟩

def tag : TwopcState → Option UInt8
  | .committed => some 1
  | .aborted => some 2
  | .preparing | .prepared => none

def encodeBody (record : TcDecisionRecord) : Option Bytes :=
  (tag record.state).map fun tag =>
    tag :: (littleEndian 8 record.txnId ++ littleEndian 8 (record.commitTs.getD 0))

def decodeBody : Bytes → Except TakyonicError TcDecisionRecord
  | [] => .error (.integrity "tc decision body truncated")
  | tag :: body =>
    if body.length < 8 + 8 then .error (.integrity "tc decision body truncated")
    else
      let txnId := fromLittleEndian (body.take 8)
      let ts := fromLittleEndian ((body.drop 8).take 8)
      if (body.drop 8).drop 8 ≠ [] then .error (.integrity "tc decision body has trailing bytes")
      else match tag.toNat with
        | 1 => .ok ⟨txnId, .committed, some ts⟩
        | 2 => .ok ⟨txnId, .aborted, none⟩
        | other => .error (.integrity s!"unknown tc decision tag {other}")

def frame (xxh3 : Bytes → UInt64) (body : Bytes) : Bytes :=
  littleEndian 4 body.length ++ (body ++ littleEndian 8 (xxh3 body).toNat)

def encodeFramed (xxh3 : Bytes → UInt64) (record : TcDecisionRecord) : Option Bytes :=
  record.encodeBody.map (frame xxh3)

def Fits (record : TcDecisionRecord) : Prop :=
  record.txnId < 2 ^ 64 ∧ (record.decision = .aborted ∨ ∃ ts < 2 ^ 64, record.decision = .committed ts)

end TcDecisionRecord

namespace TcDecisionLog

def magic : Bytes := [84, 75, 89, 67]

def version : UInt8 := 1

def header : Bytes := magic ++ [version]

def maxBody : Nat := 1024 * 1024

structure Loaded where
  decisions : Nat → Option CoordinatorDecision
  maxId : Nat

def Loaded.empty : Loaded := ⟨fun _ => none, 0⟩

def Loaded.add (loaded : Loaded) (record : TcDecisionRecord) : Loaded :=
  ⟨Function.update loaded.decisions record.txnId (some record.decision), max loaded.maxId record.txnId⟩

/-- `TcDecisionLog::open`: the file to append to. -/
def openLog : Option Bytes → Except TakyonicError Bytes
  | none => .ok header
  | some file =>
    if file.length < 4 then .error .io
    else if file.take 4 ≠ magic then .error (.integrity "bad tc decision magic at TC_DECISIONS")
    else match file.drop 4 with
      | [] => .error .io
      | found :: _ =>
        if found ≠ version then .error (.integrity s!"unsupported tc decision version {found}")
        else .ok file

def loadRecords (xxh3 : Bytes → UInt64) : Nat → Bytes → Loaded → Except TakyonicError Loaded
  | 0, _, loaded => .ok loaded
  | fuel + 1, rest, loaded =>
    if rest.length < 4 then .ok loaded
    else
      let len := fromLittleEndian (rest.take 4)
      let rest := rest.drop 4
      if len = 0 ∨ maxBody < len then .ok loaded
      else if rest.length < len then .ok loaded
      else
        let body := rest.take len
        let rest := rest.drop len
        if rest.length < 8 then .ok loaded
        else if (xxh3 body).toNat ≠ fromLittleEndian (rest.take 8) then
          .error (.integrity "tc decision checksum mismatch")
        else match decodeBody body with
          | .error error => .error error
          | .ok record => loadRecords xxh3 fuel (rest.drop 8) (loaded.add record)

def load (xxh3 : Bytes → UInt64) : Option Bytes → Except TakyonicError Loaded
  | none => .ok .empty
  | some file =>
    if file.length < 4 then .ok .empty
    else if file.take 4 ≠ magic then .error (.integrity "bad tc decision magic at TC_DECISIONS")
    else match file.drop 4 with
      | [] => .error .io
      | found :: rest =>
        if found ≠ version then .error (.integrity s!"unsupported tc decision version {found}")
        else loadRecords xxh3 (rest.length + 1) rest .empty

inductive AppendResult where
  | synced
  | failed (written : Nat)
  deriving DecidableEq, Repr

def appendDecision (xxh3 : Bytes → UInt64) (result : AppendResult) (file : Bytes) (record : TcDecisionRecord) :
    Bytes × Except TakyonicError Unit :=
  match record.encodeFramed xxh3 with
  | none => (file, .error (.engine "tc log only accepts Committed/Aborted decisions"))
  | some framed =>
    match result with
    | .synced => (file ++ framed, .ok ())
    | .failed written => (file ++ framed.take written, .error .io)

def log (xxh3 : Bytes → UInt64) (records : List TcDecisionRecord) : Bytes :=
  header ++ records.flatMap fun record => (record.encodeFramed xxh3).getD []

end TcDecisionLog

namespace TcDecisionRecord

variable {record : TcDecisionRecord}

theorem Fits.encoded (fits : record.Fits) :
    ∃ body, record.encodeBody = some body ∧ body.length = 17 ∧ decodeBody body = .ok record := by
  obtain ⟨txnId, state, commitTs⟩ := record
  obtain ⟨small, terminal⟩ := fits
  have number : fromLittleEndian (littleEndian 8 txnId) = txnId := fromLittleEndian_of_lt small
  rcases terminal with aborted | ⟨ts, inRange, committed⟩
  · cases aborted
    refine ⟨2 :: (littleEndian 8 txnId ++ littleEndian 8 0), rfl, by simp, ?_⟩
    simp [decodeBody, number]
  cases committed
  have stamp : fromLittleEndian (littleEndian 8 ts) = ts := fromLittleEndian_of_lt inRange
  refine ⟨1 :: (littleEndian 8 txnId ++ littleEndian 8 ts), rfl, by simp, ?_⟩
  have exact := littleEndian_take 8 ts []
  rw [append_nil] at exact
  simp [decodeBody, number, stamp, exact]

end TcDecisionRecord

namespace TcDecisionLog

variable (xxh3 : Bytes → UInt64) {record : TcDecisionRecord} {records : List TcDecisionRecord}

theorem loadRecords_frame {body : Bytes} (length : body.length = 17)
    (decoded : decodeBody body = .ok record) (rest : Bytes) (fuel : Nat) (loaded : Loaded) :
    loadRecords xxh3 (fuel + 1) (frame xxh3 body ++ rest) loaded = loadRecords xxh3 fuel rest (loaded.add record) := by
  have sane : ¬ (body.length = 0 ∨ maxBody < body.length) := by
    simp only [maxBody]
    omega
  rw [frame, append_assoc, append_assoc]
  conv_lhs => unfold loadRecords
  rw [if_neg (by simp), littleEndian_take, littleEndian_drop, fromLittleEndian_of_lt (by omega), if_neg sane,
    if_neg (by simp), take_left, drop_left, if_neg (by simp), littleEndian_take, littleEndian_drop,
    fromLittleEndian_of_lt (UInt64.toNat_lt _), if_neg (not_not.mpr rfl), decoded]

theorem loadRecords_log (fits : ∀ record ∈ records, record.Fits) {fuel : Nat} (enough : records.length < fuel)
    (loaded : Loaded) :
    loadRecords xxh3 fuel (records.flatMap fun record => (record.encodeFramed xxh3).getD []) loaded =
      .ok (records.foldl Loaded.add loaded) := by
  induction records generalizing fuel loaded with
  | nil =>
    obtain ⟨fuel, rfl⟩ : ∃ n, fuel = n + 1 := ⟨fuel - 1, by simp at enough; omega⟩
    simp [loadRecords]
  | cons record records ih =>
    obtain ⟨fuel, rfl⟩ : ∃ n, fuel = n + 1 := ⟨fuel - 1, by simp at enough; omega⟩
    obtain ⟨body, encoded, length, decoded⟩ := (fits record mem_cons_self).encoded
    have framed : (record.encodeFramed xxh3).getD [] = frame xxh3 body := by
      rw [encodeFramed, encoded]
      rfl
    rw [flatMap_cons, framed, loadRecords_frame xxh3 length decoded, foldl_cons]
    exact ih (fun other member => fits other (mem_cons_of_mem _ member)) (by simpa using enough) _

theorem load_log (fits : ∀ record ∈ records, record.Fits) :
    load xxh3 (some (log xxh3 records)) = .ok (records.foldl Loaded.add .empty) := by
  have long : ¬ (log xxh3 records).length < 4 := by simp [log, header, magic]
  have enough : records.length < (records.flatMap fun record => (record.encodeFramed xxh3).getD []).length + 1 := by
    apply Nat.lt_succ_of_le
    clear long
    induction records with
    | nil => exact le_rfl
    | cons record records ih =>
      have rest := ih (fun other member => fits other (mem_cons_of_mem _ member))
      obtain ⟨body, encoded, _⟩ := (fits record mem_cons_self).encoded
      simp only [flatMap_cons, length_append, length_cons, encodeFramed, encoded,
        Option.map_some, Option.getD_some, frame, littleEndian_length] at rest ⊢
      omega
  unfold load
  dsimp only
  exact loadRecords_log xxh3 fits enough .empty

theorem openLog_log : openLog (some (log xxh3 records)) = .ok (log xxh3 records) := by
  have long : ¬ (log xxh3 records).length < 4 := by simp [log, header, magic]
  unfold openLog
  dsimp only
  simp [log, header, magic, version]

theorem appendDecision_log (fits : record.Fits) :
    appendDecision xxh3 .synced (log xxh3 records) record = (log xxh3 (records ++ [record]), .ok ()) := by
  obtain ⟨body, encoded, _⟩ := fits.encoded
  simp [appendDecision, encodeFramed, encoded, log]

end TcDecisionLog

open TcDecisionLog

inductive DistTxnOutcome where
  | committed (txnId commitTs : Nat)
  | aborted (txnId : Nat) (reason : String)
  deriving DecidableEq, Repr

structure TransactionCoordinator where
  shards : List Nat
  clock : Nat
  nextTxn : Nat
  decisions : Nat → Option CoordinatorDecision
  crashAfterDecide : Bool

namespace TransactionCoordinator

def openLog (xxh3 : Bytes → UInt64) (file : Option Bytes) : Except TakyonicError (TransactionCoordinator × Bytes) := do
  let loaded ← TcDecisionLog.load xxh3 file
  let log ← TcDecisionLog.openLog file
  return (⟨[], 1, max (loaded.maxId + 1) 1, loaded.decisions, false⟩, log)

variable (coordinator : TransactionCoordinator)

def registerShard (shardId : Nat) : TransactionCoordinator :=
  { coordinator with shards := coordinator.shards.insert shardId }

def tick : Nat × TransactionCoordinator :=
  (coordinator.clock, { coordinator with clock := coordinator.clock + 1 })

def begin : (Nat × Nat) × TransactionCoordinator :=
  let txnId := coordinator.nextTxn
  let (readTs, coordinator) := { coordinator with nextTxn := coordinator.nextTxn + 1 }.tick
  ((txnId, readTs), coordinator)

/-- The first half of `persist_decision`. -/
def remember (txnId : Nat) (decision : CoordinatorDecision) :
    TransactionCoordinator :=
  { coordinator with decisions := Function.update coordinator.decisions txnId (some decision) }

end TransactionCoordinator

structure Site (σ : Type) where
  shards : Nat → σ
  coordinator : TransactionCoordinator
  file : Bytes

def Site.setShard {σ : Type} (site : Site σ) (shardId : Nat) (shard : σ) : Site σ :=
  { site with shards := Function.update site.shards shardId shard }

/-- Where a call of `commit` stands; each phase ends with one atomic action. -/
inductive CommitPhase where
  | preparing (rest : List ShardBranch) (prepared : List Nat)
  | aborting (rest : List Nat) (reason : String)
  | recordingAbort (reason : String)
  | remembering (commitTs : Nat)
  | recording (commitTs : Nat)
  | decided (commitTs : Nat)
  | applying (commitTs : Nat) (rest : List ShardBranch)
  deriving DecidableEq, Repr

structure CommitCall where
  txnId : Nat
  request : DistTxnRequest
  shards : List Nat
  phase : CommitPhase
  deriving DecidableEq, Repr

/-- A call of `recover_participant` in progress: the orphans still to resolve, and the decision looked up for
    the one at hand. -/
structure RecoverCall where
  shardId : Nat
  rest : List Nat
  looked : Option (Nat × Option CoordinatorDecision)
  resolved : Nat
  deriving DecidableEq, Repr

namespace CommitCall

def start (txnId : Nat) (request : DistTxnRequest) (shards : List Nat) : CommitCall :=
  ⟨txnId, request, shards,
    if request.branches = [] then .aborting [] "empty branches" else .preparing request.branches []⟩

def abortOrder (call : CommitCall) (prepared : List Nat) : List Nat :=
  prepared ++ ((call.request.branches.map ShardBranch.shardId).filter
    fun shardId => shardId ∉ prepared ∧ shardId ∈ call.shards)

variable {σ : Type} (library : Library) (participant : ShardParticipant σ)

def advance (append : AppendResult) (site : Site σ) (call : CommitCall) :
    Site σ × (CommitCall ⊕ Except TakyonicError DistTxnOutcome) :=
  match call.phase with
  | .preparing (branch :: rest) prepared =>
    if branch.shardId ∉ call.shards then
      let shardId := branch.shardId
      (site, .inl { call with phase := .aborting (call.abortOrder prepared) s!"unknown shard {shardId}" })
    else
      let answer :=
        participant.prepare (site.shards branch.shardId) call.txnId call.request.readTs branch.writes branch.reads
      (site.setShard branch.shardId answer.1, .inl { call with phase := match answer.2 with
        | .ok () => .preparing rest (prepared ++ [branch.shardId])
        | .error error => .aborting (call.abortOrder prepared) (error.display library) })
  | .aborting (shardId :: rest) reason =>
    (site.setShard shardId (participant.abort (site.shards shardId) call.txnId).1,
      .inl { call with phase := .aborting rest reason })
  | .aborting [] reason =>
    ({ site with coordinator := site.coordinator.remember call.txnId .aborted },
      .inl { call with phase := .recordingAbort reason })
  | .recordingAbort reason =>
    -- best effort: the result of the append is dropped
    let record := TcDecisionRecord.ofDecision call.txnId .aborted
    ({ site with file := (appendDecision library.xxh3 append site.file record).1 },
      .inr (.ok (.aborted call.txnId reason)))
  | .preparing [] _ =>
    let (commitTs, coordinator) := site.coordinator.tick
    ({ site with coordinator }, .inl { call with phase := .remembering commitTs })
  | .remembering commitTs =>
    ({ site with coordinator := site.coordinator.remember call.txnId (.committed commitTs) },
      .inl { call with phase := .recording commitTs })
  | .recording commitTs =>
    let record := TcDecisionRecord.ofDecision call.txnId (.committed commitTs)
    match appendDecision library.xxh3 append site.file record with
    | (file, .ok ()) => ({ site with file }, .inl { call with phase := .decided commitTs })
    | (file, .error error) => ({ site with file }, .inr (.error error))
  | .decided commitTs =>
    if site.coordinator.crashAfterDecide then
      (site, .inr (.error (.network "injected crash after durable 2PC decide")))
    else (site, .inl { call with phase := .applying commitTs call.request.branches })
  | .applying commitTs (branch :: rest) =>
    let answer := participant.commit (site.shards branch.shardId) call.txnId commitTs
    (site.setShard branch.shardId answer.1, match answer.2 with
      | .ok () => .inl { call with phase := .applying commitTs rest }
      | .error error => .inr (.error error))
  | .applying commitTs [] => (site, .inr (.ok (.committed call.txnId commitTs)))

inductive Moves (append : AppendResult) (site : Site σ) (call : CommitCall) :
    Site σ → CommitCall ⊕ Except TakyonicError DistTxnOutcome → Prop
  | unknown {branch rest prepared reason} (phase : call.phase = .preparing (branch :: rest) prepared)
      (missing : branch.shardId ∉ call.shards) :
      Moves append site call site (.inl { call with phase := .aborting (call.abortOrder prepared) reason })
  | voted {branch rest prepared} (phase : call.phase = .preparing (branch :: rest) prepared)
      (answer : (participant.prepare (site.shards branch.shardId) call.txnId call.request.readTs branch.writes
        branch.reads).2 = .ok ()) :
      Moves append site call
        (site.setShard branch.shardId (participant.prepare (site.shards branch.shardId) call.txnId
          call.request.readTs branch.writes branch.reads).1)
        (.inl { call with phase := .preparing rest (prepared ++ [branch.shardId]) })
  | refused {branch rest prepared reason} (phase : call.phase = .preparing (branch :: rest) prepared) :
      Moves append site call
        (site.setShard branch.shardId (participant.prepare (site.shards branch.shardId) call.txnId
          call.request.readTs branch.writes branch.reads).1)
        (.inl { call with phase := .aborting (call.abortOrder prepared) reason })
  | rolledBack {shardId rest reason} (phase : call.phase = .aborting (shardId :: rest) reason) :
      Moves append site call (site.setShard shardId (participant.abort (site.shards shardId) call.txnId).1)
        (.inl { call with phase := .aborting rest reason })
  | rememberedAbort {reason} (phase : call.phase = .aborting [] reason) :
      Moves append site call { site with coordinator := site.coordinator.remember call.txnId .aborted }
        (.inl { call with phase := .recordingAbort reason })
  | recordedAbort {reason} (phase : call.phase = .recordingAbort reason) :
      Moves append site call
        { site with file := (appendDecision library.xxh3 append site.file (.ofDecision call.txnId .aborted)).1 }
        (.inr (.ok (.aborted call.txnId reason)))
  | ticked {prepared} (phase : call.phase = .preparing [] prepared) :
      Moves append site call { site with coordinator := site.coordinator.tick.2 }
        (.inl { call with phase := .remembering site.coordinator.clock })
  | remembered {commitTs} (phase : call.phase = .remembering commitTs) :
      Moves append site call { site with coordinator := site.coordinator.remember call.txnId (.committed commitTs) }
        (.inl { call with phase := .recording commitTs })
  | recorded {commitTs file} (phase : call.phase = .recording commitTs)
      (appended : appendDecision library.xxh3 append site.file (.ofDecision call.txnId (.committed commitTs)) =
        (file, .ok ())) :
      Moves append site call { site with file } (.inl { call with phase := .decided commitTs })
  | unrecorded {commitTs file error} (phase : call.phase = .recording commitTs)
      (failed : appendDecision library.xxh3 append site.file (.ofDecision call.txnId (.committed commitTs)) =
        (file, .error error)) :
      Moves append site call { site with file } (.inr (.error error))
  | crashed {commitTs error} (phase : call.phase = .decided commitTs) :
      Moves append site call site (.inr (.error error))
  | proceeded {commitTs} (phase : call.phase = .decided commitTs) :
      Moves append site call site (.inl { call with phase := .applying commitTs call.request.branches })
  | applied {commitTs branch rest} (phase : call.phase = .applying commitTs (branch :: rest)) :
      Moves append site call
        (site.setShard branch.shardId (participant.commit (site.shards branch.shardId) call.txnId commitTs).1)
        (.inl { call with phase := .applying commitTs rest })
  | stuck {commitTs branch rest error} (phase : call.phase = .applying commitTs (branch :: rest)) :
      Moves append site call
        (site.setShard branch.shardId (participant.commit (site.shards branch.shardId) call.txnId commitTs).1)
        (.inr (.error error))
  | finished {commitTs} (phase : call.phase = .applying commitTs []) :
      Moves append site call site (.inr (.ok (.committed call.txnId commitTs)))

theorem advance_moves (append : AppendResult) (site : Site σ) (call : CommitCall) :
    Moves library participant append site call (call.advance library participant append site).1
      (call.advance library participant append site).2 := by
  unfold advance
  split
  · rename_i phase
    split
    · rename_i missing
      exact .unknown phase missing
    · dsimp only
      split
      · rename_i answer
        exact .voted phase answer
      · exact .refused phase
  · rename_i phase
    exact .rolledBack phase
  · rename_i phase
    exact .rememberedAbort phase
  · rename_i phase
    exact .recordedAbort phase
  · rename_i phase
    exact .ticked phase
  · rename_i phase
    exact .remembered phase
  · rename_i phase
    dsimp only
    split
    · rename_i appended
      exact .recorded phase appended
    · rename_i failed
      exact .unrecorded phase failed
  · rename_i phase
    split
    · exact .crashed phase
    · exact .proceeded phase
  · rename_i phase
    dsimp only
    split
    · exact .applied phase
    · exact .stuck phase
  · rename_i phase
    exact .finished phase

end CommitCall

namespace RecoverCall

variable {σ : Type} (participant : ShardParticipant σ)

def start (shard : σ) (shardId : Nat) (order : List Nat) : RecoverCall :=
  ⟨shardId, if order.Perm (participant.orphanedPrepared shard) then order else participant.orphanedPrepared shard,
    none, 0⟩

def advance (site : Site σ) (call : RecoverCall) : Site σ × (RecoverCall ⊕ Except TakyonicError Nat) :=
  match call.looked with
  | some (txnId, some ⟨.committed, some commitTs⟩) =>
    let answer := participant.commit (site.shards call.shardId) txnId commitTs
    (site.setShard call.shardId answer.1, match answer.2 with
      | .ok () => .inl { call with looked := none, resolved := call.resolved + 1 }
      | .error error => .inr (.error error))
  | some (txnId, some ⟨.aborted, _⟩) | some (txnId, none) =>
    -- no decision or abort: presumed abort
    let answer := participant.abort (site.shards call.shardId) txnId
    (site.setShard call.shardId answer.1, match answer.2 with
      | .ok () => .inl { call with looked := none, resolved := call.resolved + 1 }
      | .error error => .inr (.error error))
  | some (_, some _) => (site, .inl { call with looked := none })
  | none =>
    match call.rest with
    | txnId :: rest => (site, .inl { call with rest, looked := some (txnId, site.coordinator.decisions txnId) })
    | [] => (site, .inr (.ok call.resolved))

inductive Moves (site : Site σ) (call : RecoverCall) : Site σ → RecoverCall ⊕ Except TakyonicError Nat → Prop
  | applied {txnId commitTs next} (looked : call.looked = some (txnId, some (.committed commitTs)))
      (cleared : ∀ call', next = .inl call' → call' = { call with looked := none, resolved := call'.resolved }) :
      Moves site call
        (site.setShard call.shardId (participant.commit (site.shards call.shardId) txnId commitTs).1) next
  | rolledBack {txnId decision next} (looked : call.looked = some (txnId, decision))
      (lost : ∀ commitTs, decision ≠ some (.committed commitTs))
      (cleared : ∀ call', next = .inl call' → call' = { call with looked := none, resolved := call'.resolved }) :
      Moves site call (site.setShard call.shardId (participant.abort (site.shards call.shardId) txnId).1) next
  | skipped {found} (looked : call.looked = some found) : Moves site call site (.inl { call with looked := none })
  | lookedUp {txnId rest} (idle : call.looked = none) (orphans : call.rest = txnId :: rest) :
      Moves site call site (.inl { call with rest, looked := some (txnId, site.coordinator.decisions txnId) })
  | finished {resolved} (idle : call.looked = none) : Moves site call site (.inr (.ok resolved))

theorem advance_moves (site : Site σ) (call : RecoverCall) :
    Moves participant site call (call.advance participant site).1 (call.advance participant site).2 := by
  unfold advance
  split
  · rename_i txnId commitTs looked
    apply Moves.applied looked
    dsimp only
    split <;> simp
  · rename_i txnId ts looked
    apply Moves.rolledBack looked (by simp [CoordinatorDecision.committed])
    dsimp only
    split <;> simp
  · rename_i txnId looked
    apply Moves.rolledBack looked (by simp)
    dsimp only
    split <;> simp
  · rename_i _ _ looked
    exact .skipped looked
  · rename_i idle
    split
    · rename_i orphans
      exact .lookedUp idle orphans
    · exact .finished idle

end RecoverCall

end Takyonic
