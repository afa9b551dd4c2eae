import Takyonic.Twopc.Coordinator
import Takyonic.Twopc.LocalShard

namespace Takyonic

open Foundation TcDecisionLog

structure Txn where
  session : Nat
  txnId : Nat
  deriving DecidableEq, Repr

structure AppliedBranch where
  txn : Txn
  shardId : Nat
  commitTs : Nat
  writes : List WriteOp
  deriving DecidableEq, Repr

/-- What a transaction was told by `get_at` before its commit call. -/
structure ShardRead where
  txn : Txn
  shardId : Nat
  key : Key
  value : Option Value
  deriving DecidableEq, Repr

/-- What an observer notes about a run. No step of the system depends on it.

    `holder` is the session whose branch a shard has last prepared under an id. -/
structure Audit where
  session : Nat
  snapshots : Txn → Option Nat
  requests : Txn → Option DistTxnRequest
  recorded : Txn → Option Nat
  holder : Nat → Nat → Nat
  applied : List AppliedBranch
  reads : List ShardRead

namespace Audit

def empty : Audit := ⟨0, fun _ => none, fun _ => none, fun _ => none, fun _ _ => 0, [], []⟩

def note (shardId : Nat) (audit : Audit) : RaftCommand → Audit
  | .txnPrepare txnId _ _ =>
    { audit with
      holder := fun shard id => if shard = shardId ∧ id = txnId then audit.session else audit.holder shard id }
  | .txnCommit txnId commitTs writes =>
    { audit with
      applied := audit.applied ++ [⟨⟨audit.holder shardId txnId, txnId⟩, shardId, commitTs, writes⟩] }
  | _ => audit

def txn (audit : Audit) (txnId : Nat) : Txn := ⟨audit.session, txnId⟩

def noteBegin (audit : Audit) (txnId readTs : Nat) : Audit :=
  { audit with snapshots := Function.update audit.snapshots (audit.txn txnId) (some readTs) }

def noteCommit (audit : Audit) (txnId : Nat) (request : DistTxnRequest) : Audit :=
  { audit with requests := Function.update audit.requests (audit.txn txnId) (some request) }

def noteRead (audit : Audit) (txnId shardId : Nat) (key : Key) (value : Option Value) : Audit :=
  { audit with reads := audit.reads ++ [⟨audit.txn txnId, shardId, key, value⟩] }

def noteShard (shardId : Nat) (before after : LocalShard) (audit : Audit) : Audit :=
  (after.raftLog.drop before.raftLog.length).foldl (note shardId) audit

def noteRecorded (txnId : Nat) (audit : Audit) : CommitCall ⊕ Except TakyonicError DistTxnOutcome → Audit
  | .inl ⟨_, _, _, .decided commitTs⟩ =>
    { audit with recorded := Function.update audit.recorded (audit.txn txnId) (some commitTs) }
  | _ => audit

end Audit

/-- Local shards and a coordinator with its decision file. While no process runs, `coordinator` is `none`. -/
structure Deployment where
  shards : Nat → LocalShard
  file : Option Bytes
  coordinator : Option TransactionCoordinator
  commits : List CommitCall
  recoveries : List RecoverCall
  audit : Audit

def CommitPhase.shard : CommitPhase → Option Nat
  | .preparing (branch :: _) _ | .applying _ (branch :: _) => some branch.shardId
  | .aborting (shardId :: _) _ => some shardId
  | _ => none

inductive ShardFault where
  | prepareFailure (on : Bool)
  | crashAfterPrepare (on : Bool)
  | restart
  deriving DecidableEq, Repr

def LocalShard.suffer (shard : LocalShard) : ShardFault → LocalShard
  | .prepareFailure on => { shard with failPrepare := on }
  | .crashAfterPrepare on => { shard with crashAfterPrepare := on }
  | .restart => shard.recoverFromRaftLog

open LocalShard

namespace Deployment

inductive Op where
  | openLog
  | crash
  | register (shardId : Nat)
  | injectCrashAfterDecide (on : Bool)
  | shard (shardId : Nat) (fault : ShardFault)
  | begin
  | read (txnId shardId : Nat) (key : Key)
  | commit (txnId : Nat) (request : DistTxnRequest)
  | advance (position : Nat) (append : AppendResult)
  | recover (shardId : Nat) (order : List Nat)
  | resolve (position : Nat)
  deriving DecidableEq, Repr

def fresh : Deployment := ⟨new, none, none, [], [], .empty⟩

def site (deployment : Deployment) : Option (Site LocalShard) :=
  match deployment.coordinator, deployment.file with
  | some coordinator, some file => some ⟨deployment.shards, coordinator, file⟩
  | _, _ => none

def atSite (deployment : Deployment) (site : Site LocalShard) : Deployment :=
  { deployment with shards := site.shards, coordinator := some site.coordinator, file := some site.file }

def decision (deployment : Deployment) (txnId : Nat) : Option CoordinatorDecision :=
  deployment.coordinator.bind (·.decisions txnId)

variable (library : Library)

def openLog (deployment : Deployment) : Deployment :=
  match deployment.coordinator, TransactionCoordinator.openLog library.xxh3 deployment.file with
  | none, .ok (coordinator, file) =>
    { deployment with
      coordinator := some coordinator
      file := some file
      audit := { deployment.audit with session := deployment.audit.session + 1 } }
  | _, _ => deployment

def begin (deployment : Deployment) : Deployment :=
  match deployment.coordinator with
  | some coordinator =>
    let ((txnId, readTs), coordinator) := coordinator.begin
    { deployment with coordinator := some coordinator, audit := deployment.audit.noteBegin txnId readTs }
  | none => deployment

def read (deployment : Deployment) (txnId shardId : Nat) (key : Key) : Deployment :=
  let txn := deployment.audit.txn txnId
  match deployment.audit.snapshots txn, deployment.audit.requests txn with
  | some readTs, none =>
    let value := (deployment.shards shardId).getAt key readTs
    { deployment with audit := deployment.audit.noteRead txnId shardId key value }
  | _, _ => deployment

def commit (deployment : Deployment) (txnId : Nat) (request : DistTxnRequest) : Deployment :=
  match deployment.coordinator with
  | some coordinator =>
    { deployment with
      commits := deployment.commits ++ [CommitCall.start txnId request coordinator.shards]
      audit := deployment.audit.noteCommit txnId request }
  | none => deployment

def advance (deployment : Deployment) (position : Nat) (append : AppendResult) : Deployment :=
  match deployment.site, deployment.commits[position]? with
  | some site, some call =>
    let (after, next) := call.advance library (participant library) append site
    let audit := call.phase.shard.elim deployment.audit fun shardId =>
      deployment.audit.noteShard shardId (site.shards shardId) (after.shards shardId)
    { deployment.atSite after with
      commits := deployment.commits.take position ++ (next.getLeft?.toList ++ deployment.commits.drop (position + 1))
      audit := audit.noteRecorded call.txnId next }
  | _, _ => deployment

def resolve (deployment : Deployment) (position : Nat) : Deployment :=
  match deployment.site, deployment.recoveries[position]? with
  | some site, some call =>
    let (after, next) := call.advance (participant library) site
    { deployment.atSite after with
      recoveries := deployment.recoveries.take position ++
        (next.getLeft?.toList ++ deployment.recoveries.drop (position + 1))
      audit := deployment.audit.noteShard call.shardId (site.shards call.shardId) (after.shards call.shardId) }
  | _, _ => deployment

def step (deployment : Deployment) : Op → Deployment
  | .openLog => deployment.openLog library
  | .crash => { deployment with coordinator := none, commits := [], recoveries := [] }
  | .register shardId => { deployment with coordinator := deployment.coordinator.map (·.registerShard shardId) }
  | .injectCrashAfterDecide on =>
    { deployment with
      coordinator := deployment.coordinator.map fun coordinator => { coordinator with crashAfterDecide := on } }
  | .shard shardId fault =>
    { deployment with shards := Function.update deployment.shards shardId ((deployment.shards shardId).suffer fault) }
  | .begin => deployment.begin
  | .read txnId shardId key => deployment.read txnId shardId key
  | .commit txnId request => deployment.commit txnId request
  | .advance position append => deployment.advance library position append
  | .recover shardId order =>
    if deployment.coordinator.isSome then
      { deployment with recoveries := deployment.recoveries ++
          [RecoverCall.start (participant library) (deployment.shards shardId) shardId order] }
    else deployment
  | .resolve position => deployment.resolve library position

def Op.reachesShards : Op → Bool
  | .shard _ _ | .advance _ _ | .resolve _ => true
  | _ => false

def Op.reachesRecoveries : Op → Bool
  | .crash | .recover _ _ | .resolve _ => true
  | _ => false

theorem step_shards (deployment : Deployment) {op : Op} (away : op.reachesShards = false) :
    (deployment.step library op).shards = deployment.shards := by
  cases op with
  | shard _ _ | advance _ _ | resolve _ => cases away
  | crash | register _ | injectCrashAfterDecide _ => rfl
  | _ =>
    dsimp only [step, openLog, begin, read, commit]
    split <;> rfl

theorem step_recoveries (deployment : Deployment) {op : Op} (away : op.reachesRecoveries = false) :
    (deployment.step library op).recoveries = deployment.recoveries := by
  cases op with
  | crash | recover _ _ | resolve _ => cases away
  | register _ | injectCrashAfterDecide _ | shard _ _ => rfl
  | _ =>
    dsimp only [step, openLog, begin, read, commit, advance]
    split <;> rfl

inductive Advances (deployment : Deployment) (position : Nat) (append : AppendResult) : Deployment → Prop
  | idle (absent : deployment.coordinator = none ∨ deployment.file = none ∨ deployment.commits[position]? = none) :
      Advances deployment position append deployment
  | moved {coordinator file front call back after next} (up : deployment.coordinator = some coordinator)
      (disk : deployment.file = some file) (calls : deployment.commits = front ++ call :: back)
      (here : deployment.commits[position]? = some call)
      (moves : call.Moves library (participant library) append ⟨deployment.shards, coordinator, file⟩ after next) :
      Advances deployment position append { deployment.atSite after with
        commits := front ++ (next.getLeft?.toList ++ back)
        audit := (call.phase.shard.elim deployment.audit fun shardId =>
          deployment.audit.noteShard shardId (deployment.shards shardId) (after.shards shardId)).noteRecorded
            call.txnId next }

theorem eq_take_cons_drop {α : Type*} {items : List α} {position : Nat} {item : α}
    (here : items[position]? = some item) : items = items.take position ++ item :: items.drop (position + 1) := by
  obtain ⟨bound, found⟩ := List.getElem?_eq_some_iff.mp here
  rw [← found, ← List.drop_eq_getElem_cons bound, List.take_append_drop]

theorem advance_advances (deployment : Deployment) (position : Nat) (append : AppendResult) :
    Advances library deployment position append (deployment.advance library position append) := by
  obtain ⟨shards, file, coordinator, commits, recoveries, audit⟩ := deployment
  unfold advance site
  cases coordinator with
  | none => exact .idle (.inl rfl)
  | some coordinator =>
    cases file with
    | none => exact .idle (.inr (.inl rfl))
    | some file =>
      cases here : commits[position]? with
      | none => exact .idle (.inr (.inr here))
      | some call =>
        exact .moved rfl rfl (eq_take_cons_drop here) here (call.advance_moves library (participant library) append _)

inductive Resolves (deployment : Deployment) (position : Nat) : Deployment → Prop
  | idle : Resolves deployment position deployment
  | moved {coordinator file front call back after next} (up : deployment.coordinator = some coordinator)
      (disk : deployment.file = some file) (calls : deployment.recoveries = front ++ call :: back)
      (here : deployment.recoveries[position]? = some call)
      (moves : call.Moves (participant library) ⟨deployment.shards, coordinator, file⟩ after next) :
      Resolves deployment position { deployment.atSite after with
        recoveries := front ++ (next.getLeft?.toList ++ back)
        audit := deployment.audit.noteShard call.shardId (deployment.shards call.shardId) (after.shards call.shardId) }

theorem resolve_resolves (deployment : Deployment) (position : Nat) :
    Resolves library deployment position (deployment.resolve library position) := by
  obtain ⟨shards, file, coordinator, commits, recoveries, audit⟩ := deployment
  unfold resolve site
  cases coordinator with
  | none => exact .idle
  | some coordinator =>
    cases file with
    | none => exact .idle
    | some file =>
      cases here : recoveries[position]? with
      | none => exact .idle
      | some call =>
        exact .moved rfl rfl (eq_take_cons_drop here) here (call.advance_moves (participant library) _)

end Deployment

open Function List

abbrev Holdings := Nat → Nat → Option (List WriteOp)

def Holdings.set (held : Holdings) (shardId id : Nat) (writes : Option (List WriteOp)) : Holdings :=
  fun shard txnId => if shard = shardId ∧ txnId = id then writes else held shard txnId

theorem Holdings.set_self (held : Holdings) (shardId id : Nat) (writes : Option (List WriteOp)) :
    held.set shardId id writes shardId id = writes := if_pos ⟨rfl, rfl⟩

variable {shardId id shard txnId : Nat} {done rest : List ShardBranch} {branch earlier : ShardBranch}

theorem Holdings.set_other (held : Holdings) (writes : Option (List WriteOp))
    (other : ¬ (shard = shardId ∧ txnId = id)) : held.set shardId id writes shard txnId = held shard txnId :=
  if_neg other

theorem Holdings.set_none (held : Holdings) {writes : List WriteOp}
    (holds : held.set shardId id none shard txnId = some writes) : held shard txnId = some writes := by
  by_cases here : shard = shardId ∧ txnId = id
  · obtain ⟨rfl, rfl⟩ := here
    rw [set_self] at holds
    cases holds
  · rw [set_other _ _ here] at holds
    exact holds

theorem Holdings.isSome_of_set_none (held : Holdings) (holds : (held.set shardId id none shard txnId).isSome) :
    (held shard txnId).isSome := by
  obtain ⟨writes, found⟩ := Option.isSome_iff_exists.mp holds
  rw [held.set_none found]
  rfl

def Holdings.none : Holdings := fun _ _ => Option.none

def DistTxnRequest.Sends (request : DistTxnRequest) (shardId : Nat) (writes : List WriteOp) : Prop :=
  ∃ branch ∈ request.branches, branch.shardId = shardId ∧ branch.writes = writes

theorem Audit.noteBegin_self (audit : Audit) (txnId readTs : Nat) :
    (audit.noteBegin txnId readTs).snapshots (audit.txn txnId) = some readTs := update_self _ _ _

theorem Audit.noteBegin_other (audit : Audit) (readTs : Nat) (other : id ≠ txnId) :
    (audit.noteBegin txnId readTs).snapshots (audit.txn id) = audit.snapshots (audit.txn id) :=
  update_of_ne (fun same => other (Txn.mk.inj same).2) _ _

theorem Audit.noteCommit_self (audit : Audit) (txnId : Nat) (request : DistTxnRequest) :
    (audit.noteCommit txnId request).requests (audit.txn txnId) = some request := update_self _ _ _

theorem Audit.noteCommit_other (audit : Audit) (request : DistTxnRequest) (other : id ≠ txnId) :
    (audit.noteCommit txnId request).requests (audit.txn id) = audit.requests (audit.txn id) :=
  update_of_ne (fun same => other (Txn.mk.inj same).2) _ _

theorem ShardBranch.apart
    (distinct : ((done ++ branch :: rest).map ShardBranch.shardId).Nodup) (member : earlier ∈ done) :
    earlier.shardId ≠ branch.shardId := by
  rw [map_append, nodup_append] at distinct
  exact distinct.2.2 _ (mem_map_of_mem member) _ (mem_map_of_mem mem_cons_self)

/-- How the notes of the observer stand to the durable decisions and to what the shards hold: every held branch
    belongs to the transaction it was prepared for, only recorded transactions are applied, and of a recorded
    one every branch is applied or still held. -/
structure Ledger (decided : Nat → Option CoordinatorDecision) (held : Holdings) (audit : Audit) : Prop where
  past : ∀ txn, (audit.snapshots txn).isSome → txn.session ≤ audit.session
  begun : ∀ txn, (audit.requests txn).isSome → (audit.snapshots txn).isSome
  owned : ∀ shardId id writes, held shardId id = some writes →
    ∃ request, audit.requests ⟨audit.holder shardId id, id⟩ = some request ∧ request.Sends shardId writes
  current : ∀ shardId id, (held shardId id).isSome → (audit.snapshots (audit.txn id)).isSome →
    audit.holder shardId id = audit.session
  applied : ∀ entry ∈ audit.applied, audit.recorded entry.txn = some entry.commitTs ∧
    ∃ request, audit.requests entry.txn = some request ∧ request.Sends entry.shardId entry.writes
  resolved : ∀ txn commitTs, audit.recorded txn = some commitTs → ∃ request, audit.requests txn = some request ∧
    ∀ branch ∈ request.branches, ⟨txn, branch.shardId, commitTs, branch.writes⟩ ∈ audit.applied ∨
      held branch.shardId txn.txnId = some branch.writes ∧ audit.holder branch.shardId txn.txnId = txn.session
  durable : ∀ txn commitTs, audit.recorded txn = some commitTs → decided txn.txnId = some (.committed commitTs)
  matched : ∀ shardId id commitTs, (held shardId id).isSome → decided id = some (.committed commitTs) →
    audit.recorded ⟨audit.holder shardId id, id⟩ = some commitTs

namespace Ledger

variable {decided : Nat → Option CoordinatorDecision} {held : Holdings} {audit : Audit}
  {txnId shardId commitTs : Nat} {request : DistTxnRequest}

theorem empty (decided : Nat → Option CoordinatorDecision) : Ledger decided .none .empty where
  past _ begun := nomatch begun
  begun _ requested := nomatch requested
  owned _ _ _ holds := nomatch holds
  current _ _ holds := nomatch holds
  applied _ member := nomatch member
  resolved _ _ recorded := nomatch recorded
  durable _ _ recorded := nomatch recorded
  matched _ _ _ holds := nomatch holds

variable (ledger : Ledger decided held audit) {writes : List WriteOp}
include ledger

theorem opened : Ledger decided held { audit with session := audit.session + 1 } :=
  { ledger with
    past := fun txn begun => Nat.le_succ_of_le (ledger.past txn begun)
    current := fun _ _ _ begun => absurd (ledger.past _ begun) (Nat.not_succ_le_self _) }

theorem began (readTs : Nat) (free : ∀ shardId, held shardId txnId = none) :
    Ledger decided held (audit.noteBegin txnId readTs) := by
  refine { ledger with past := fun txn begun => ?_, begun := fun txn requested => ?_,
                       current := fun shardId id holds begun => ?_ }
  · by_cases here : txn = audit.txn txnId
    · rw [here]
      exact le_rfl
    · apply ledger.past
      rw [← update_of_ne here (some readTs) audit.snapshots]
      exact begun
  · dsimp only [Audit.noteBegin]
    by_cases here : txn = audit.txn txnId
    · rw [here, update_self]
      rfl
    · rw [update_of_ne here]
      exact ledger.begun txn requested
  · by_cases here : id = txnId
    · rw [here, free shardId] at holds
      cases holds
    · have other : audit.txn id ≠ audit.txn txnId := fun same => here (Txn.mk.inj same).2
      apply ledger.current shardId id holds
      rw [← update_of_ne other (some readTs) audit.snapshots]
      exact begun

theorem requested (begun : (audit.snapshots (audit.txn txnId)).isSome)
    (first : audit.requests (audit.txn txnId) = none) : Ledger decided held (audit.noteCommit txnId request) := by
  have kept : ∀ {txn found}, audit.requests txn = some found →
      (audit.noteCommit txnId request).requests txn = some found := by
    intro txn found known
    have other : txn ≠ audit.txn txnId := by
      rintro rfl
      rw [first] at known
      cases known
    exact (update_of_ne other _ _).trans known
  refine { ledger with begun := fun txn requested => ?_, owned := fun shardId id writes holds => ?_,
                       applied := fun entry member => ?_, resolved := fun txn commitTs recorded => ?_ }
  · by_cases here : txn = audit.txn txnId
    · rw [here]
      exact begun
    · apply ledger.begun
      rw [← update_of_ne here (some request) audit.requests]
      exact requested
  · obtain ⟨sent, known, sends⟩ := ledger.owned shardId id writes holds
    exact ⟨sent, kept known, sends⟩
  · obtain ⟨recorded, sent, known, sends⟩ := ledger.applied entry member
    exact ⟨recorded, sent, kept known, sends⟩
  · obtain ⟨sent, known, all⟩ := ledger.resolved txn commitTs recorded
    exact ⟨sent, kept known, all⟩

theorem unrecorded (undecided : decided txnId = none) {txn : Txn} {commitTs : Nat}
    (recorded : audit.recorded txn = some commitTs) : txn.txnId ≠ txnId := by
  rintro rfl
  rw [ledger.durable txn commitTs recorded] at undecided
  cases undecided

theorem prepared (readTs : Nat)
    (sent : audit.requests (audit.txn txnId) = some request) (sends : request.Sends shardId writes)
    (undecided : decided txnId = none) :
    Ledger decided (held.set shardId txnId (some writes)) (audit.note shardId (.txnPrepare txnId readTs writes)) := by
  have newest : (audit.note shardId (.txnPrepare txnId readTs writes)).holder shardId txnId = audit.session :=
    if_pos ⟨rfl, rfl⟩
  have others : ∀ {shard id}, ¬ (shard = shardId ∧ id = txnId) →
      (audit.note shardId (.txnPrepare txnId readTs writes)).holder shard id = audit.holder shard id :=
    fun other => if_neg other
  refine { ledger with owned := fun shard id found holds => ?_, current := fun shard id holds begun => ?_,
                       resolved := fun txn commitTs recorded => ?_,
                       matched := fun shard id commitTs holds committed => ?_ }
  · by_cases here : shard = shardId ∧ id = txnId
    · obtain ⟨rfl, rfl⟩ := here
      rw [Holdings.set_self] at holds
      cases holds
      rw [newest]
      exact ⟨request, sent, sends⟩
    · rw [Holdings.set_other _ _ here] at holds
      rw [others here]
      exact ledger.owned shard id found holds
  · by_cases here : shard = shardId ∧ id = txnId
    · obtain ⟨rfl, rfl⟩ := here
      exact newest
    · rw [Holdings.set_other _ _ here] at holds
      rw [others here]
      exact ledger.current shard id holds begun
  · obtain ⟨known, found, all⟩ := ledger.resolved txn commitTs recorded
    refine ⟨known, found, fun branch member => ?_⟩
    have elsewhere : ¬ (branch.shardId = shardId ∧ txn.txnId = txnId) :=
      fun here => ledger.unrecorded undecided recorded here.2
    rw [Holdings.set_other _ _ elsewhere, others elsewhere]
    exact all branch member
  · have elsewhere : ¬ (shard = shardId ∧ id = txnId) := by
      rintro ⟨rfl, rfl⟩
      rw [undecided] at committed
      cases committed
    rw [Holdings.set_other _ _ elsewhere] at holds
    rw [others elsewhere]
    exact ledger.matched shard id commitTs holds committed

theorem released (shardId txnId : Nat) (uncommitted : ∀ commitTs, decided txnId ≠ some (.committed commitTs)) :
    Ledger decided (held.set shardId txnId none) audit := by
  refine { ledger with
    owned := fun shard id writes holds => ledger.owned shard id writes (held.set_none holds)
    current := fun shard id holds => ledger.current shard id (held.isSome_of_set_none holds)
    resolved := fun txn commitTs recorded => ?_
    matched := fun shard id commitTs holds => ledger.matched shard id commitTs (held.isSome_of_set_none holds) }
  obtain ⟨known, found, all⟩ := ledger.resolved txn commitTs recorded
  refine ⟨known, found, fun branch member => ?_⟩
  have elsewhere : ¬ (branch.shardId = shardId ∧ txn.txnId = txnId) := by
    rintro ⟨_, rfl⟩
    exact uncommitted commitTs (ledger.durable txn commitTs recorded)
  rw [Holdings.set_other _ _ elsewhere]
  exact all branch member

theorem apply (holds : held shardId txnId = some writes) (committed : decided txnId = some (.committed commitTs)) :
    Ledger decided (held.set shardId txnId none) (audit.note shardId (.txnCommit txnId commitTs writes)) := by
  refine { ledger with
    owned := fun shard id found remains => ledger.owned shard id found (held.set_none remains)
    current := fun shard id remains => ledger.current shard id (held.isSome_of_set_none remains)
    applied := fun entry member => ?_
    resolved := fun txn ts recorded => ?_
    matched := fun shard id ts remains => ledger.matched shard id ts (held.isSome_of_set_none remains) }
  · rcases mem_append.mp member with member | member
    · exact ledger.applied entry member
    · rw [mem_singleton.mp member]
      have present : (held shardId txnId).isSome := by
        rw [holds]
        rfl
      exact ⟨ledger.matched shardId txnId commitTs present committed, ledger.owned shardId txnId writes holds⟩
  · obtain ⟨known, found, all⟩ := ledger.resolved txn ts recorded
    refine ⟨known, found, fun branch member => ?_⟩
    rcases all branch member with done | ⟨remains, holder⟩
    · exact .inl (mem_append_left _ done)
    by_cases here : branch.shardId = shardId ∧ txn.txnId = txnId
    · obtain ⟨rfl, rfl⟩ := here
      left
      rw [remains] at holds
      cases holds
      have same := ledger.durable txn ts recorded
      rw [committed] at same
      cases same
      apply mem_append_right
      rw [holder]
      exact mem_singleton_self _
    · right
      rw [Holdings.set_other _ _ here]
      exact ⟨remains, holder⟩

theorem recorded (commitTs : Nat) (undecided : decided txnId = none)
    (begun : (audit.snapshots (audit.txn txnId)).isSome) (sent : audit.requests (audit.txn txnId) = some request)
    (all : ∀ branch ∈ request.branches, held branch.shardId txnId = some branch.writes) :
    Ledger (update decided txnId (some (.committed commitTs))) held
      { audit with recorded := update audit.recorded (audit.txn txnId) (some commitTs) } := by
  have kept : ∀ {txn ts}, audit.recorded txn = some ts →
      update audit.recorded (audit.txn txnId) (some commitTs) txn = some ts := by
    intro txn ts found
    have other : txn ≠ audit.txn txnId := by
      rintro rfl
      exact ledger.unrecorded undecided found rfl
    exact (update_of_ne other _ _).trans found
  refine { ledger with applied := fun entry member => ?_, resolved := fun txn ts found => ?_,
                       durable := fun txn ts found => ?_, matched := fun shardId id ts holds committed => ?_ }
  · obtain ⟨found, sends⟩ := ledger.applied entry member
    exact ⟨kept found, sends⟩
  · dsimp only at found
    by_cases here : txn = audit.txn txnId
    · subst here
      rw [update_self] at found
      cases found
      refine ⟨request, sent, fun branch member => .inr ⟨all branch member, ?_⟩⟩
      apply ledger.current branch.shardId txnId _ begun
      rw [all branch member]
      rfl
    · rw [update_of_ne here] at found
      exact ledger.resolved txn ts found
  · dsimp only at found
    by_cases here : txn = audit.txn txnId
    · subst here
      rw [update_self] at found
      cases found
      exact update_self _ _ _
    · rw [update_of_ne here] at found
      rw [update_of_ne (ledger.unrecorded undecided found)]
      exact ledger.durable txn ts found
  · by_cases here : id = txnId
    · subst here
      rw [update_self] at committed
      cases committed
      rw [ledger.current shardId id holds begun]
      exact update_self _ _ _
    · rw [update_of_ne here] at committed
      exact kept (ledger.matched shardId id ts holds committed)

theorem recordedAbort (undecided : decided txnId = none) :
    Ledger (update decided txnId (some .aborted)) held audit := by
  refine { ledger with durable := fun txn ts found => ?_, matched := fun shardId id ts holds committed => ?_ }
  · rw [update_of_ne (ledger.unrecorded undecided found)]
    exact ledger.durable txn ts found
  · by_cases here : id = txnId
    · subst here
      rw [update_self] at committed
      cases committed
    · rw [update_of_ne here] at committed
      exact ledger.matched shardId id ts holds committed

end Ledger

end Takyonic
