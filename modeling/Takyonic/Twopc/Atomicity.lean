import Takyonic.Twopc.Decisions

namespace Takyonic

open Foundation TcDecisionLog List Function LocalShard Option

def heldBy (shards : Nat → LocalShard) : Holdings := fun shardId id => (shards shardId).prepared[id]?

variable {before after : LocalShard} {shards : Nat → LocalShard} {held held' : Holdings}
  {branches rest done : List ShardBranch} {phase : CommitPhase} {memory disk : Option CoordinatorDecision}

theorem Audit.noteShard_same (audit : Audit) (shardId : Nat) (shard : LocalShard) :
    audit.noteShard shardId shard shard = audit := by
  rw [noteShard, drop_length]
  rfl

theorem Audit.noteShard_logs (audit : Audit) (shardId : Nat) (shard : LocalShard) (command : RaftCommand) :
    audit.noteShard shardId shard (shard.logs command) = audit.note shardId command := by
  rw [noteShard, logs, drop_left]
  rfl

variable {txnId shardId commitTs target : Nat} {shard : LocalShard} {writes : Option (List WriteOp)}
  {command : RaftCommand}

theorem heldBy_logs (moved : ∀ id, ((shards shardId).replay command).prepared[id]? =
      if id = txnId then writes else (shards shardId).prepared[id]?) :
    heldBy (update shards shardId ((shards shardId).logs command)) = (heldBy shards).set shardId txnId writes := by
  funext other id
  unfold heldBy Holdings.set
  by_cases here : other = shardId
  · subst here
    rw [update_self, logs, moved]
    simp
  · rw [update_of_ne here, if_neg (fun both => here both.1)]

structure Served (decided : Nat → Option CoordinatorDecision) (txnId : Nat) (shards shards' : Nat → LocalShard)
    (audit audit' : Audit) : Prop where
  ledger : Ledger decided (heldBy shards') audit'
  others : ∀ shardId id, id ≠ txnId → heldBy shards' shardId id = heldBy shards shardId id
  session : audit'.session = audit.session
  snapshots : audit'.snapshots = audit.snapshots
  requests : audit'.requests = audit.requests

def CommitPhase.Holds (held : Holdings) (txnId : Nat) (branches : List ShardBranch) : CommitPhase → Prop
  | .preparing rest _ =>
    ∃ done, branches = done ++ rest ∧ ∀ branch ∈ done, held branch.shardId txnId = some branch.writes
  | .remembering _ | .recording _ => ∀ branch ∈ branches, held branch.shardId txnId = some branch.writes
  | _ => True

def CommitPhase.settled : CommitPhase → Bool
  | .decided _ | .applying _ _ => true
  | _ => false

/-- A commit call for a transaction of this session, with one branch for each of its shards. -/
structure CommitCall.Sound (held : Holdings) (audit : Audit) (call : CommitCall) : Prop where
  begun : (audit.snapshots (audit.txn call.txnId)).isSome
  sent : audit.requests (audit.txn call.txnId) = some call.request
  distinct : (call.request.branches.map ShardBranch.shardId).Nodup
  holds : call.phase.Holds held call.txnId call.request.branches

def Audit.Called (audit : Audit) (id : Nat) : Prop :=
  (audit.snapshots (audit.txn id)).isSome → (audit.requests (audit.txn id)).isSome

open Audit

/-- A recovery call about ids that no later commit call will use. -/
structure RecoverCall.Sound (decided : Nat → Option CoordinatorDecision) (audit : Audit) (commits : List CommitCall)
    (call : RecoverCall) : Prop where
  rest : ∀ id ∈ call.rest, audit.Called id
  looked : ∀ id decision, call.looked = some (id, decision) → audit.Called id ∧ decided id = decision ∧
    ((∀ commitTs, decision ≠ some (.committed commitTs)) → ∀ commit ∈ commits, commit.txnId ≠ id)

variable {call call' : CommitCall}

namespace Served

variable {decided : Nat → Option CoordinatorDecision} {txnId shardId : Nat} {shards shards' : Nat → LocalShard}
  {audit audit' : Audit}

theorem kept (ledger : Ledger decided (heldBy shards) audit) (held : heldBy shards' = heldBy shards) :
    Served decided txnId shards shards' audit audit :=
  ⟨held.symm ▸ ledger, fun _ _ _ => congrFun₂ held _ _, rfl, rfl, rfl⟩

theorem untouched (ledger : Ledger decided (heldBy shards) audit) (shardId : Nat) :
    Served decided txnId shards shards audit (audit.noteShard shardId (shards shardId) (shards shardId)) :=
  (audit.noteShard_same _ _).symm ▸ .kept ledger rfl

variable (served : Served decided txnId shards shards' audit audit')
include served

theorem txn (id : Nat) : audit'.txn id = audit.txn id := by
  rw [Audit.txn, served.session]
  rfl

theorem called (id : Nat) : audit'.Called id ↔ audit.Called id := by
  unfold Called
  rw [served.snapshots, served.requests, served.txn]

theorem sound (sound : call.Sound (heldBy shards) audit) (sameId : call'.txnId = call.txnId)
    (sameRequest : call'.request = call.request)
    (holds : call'.phase.Holds (heldBy shards') call.txnId call.request.branches) :
    call'.Sound (heldBy shards') audit' := by
  obtain ⟨begun, sent, single, _⟩ := sound
  constructor
  · rw [served.snapshots, served.txn, sameId]
    exact begun
  · rw [served.requests, served.txn, sameId, sameRequest]
    exact sent
  · rw [sameRequest]
    exact single
  · rw [sameId, sameRequest]
    exact holds

end Served

def Serves (decided : Nat → Option CoordinatorDecision) (txnId : Nat) (shards : Nat → LocalShard) (audit : Audit)
    (shardId : Nat) (shard : LocalShard) : Prop :=
  Served decided txnId shards (update shards shardId shard) audit
    (audit.noteShard shardId (shards shardId) (update shards shardId shard shardId))

namespace Serves

variable {decided : Nat → Option CoordinatorDecision} {audit : Audit} {shardId : Nat}

theorem same (ledger : Ledger decided (heldBy shards) audit) :
    Serves decided txnId shards audit shardId (shards shardId) := by
  rw [Serves, update_eq_self]
  exact .untouched ledger shardId

theorem logs (ledger : Ledger decided ((heldBy shards).set shardId txnId writes) (audit.note shardId command))
    (moved : ∀ id, ((shards shardId).replay command).prepared[id]? =
      if id = txnId then writes else (shards shardId).prepared[id]?) :
    Serves decided txnId shards audit shardId ((shards shardId).logs command) := by
  rw [Serves, update_self, audit.noteShard_logs]
  have held := heldBy_logs moved
  refine ⟨held ▸ ledger, fun other id apart => ?_, ?_, ?_, ?_⟩
  · rw [held, Holdings.set_other _ _ (fun both => apart both.2)]
  all_goals cases command <;> rfl

end Serves

variable {branch : ShardBranch}

namespace Ledger

variable {decided : Nat → Option CoordinatorDecision} {shards : Nat → LocalShard} {audit : Audit}

variable (ledger : Ledger decided (heldBy shards) audit)
include ledger

theorem prepares (library : Library) {request : DistTxnRequest} (readTs : Nat)
    (sent : audit.requests (audit.txn txnId) = some request) (inside : branch ∈ request.branches)
    (undecided : decided txnId = none) : Serves decided txnId shards audit branch.shardId
      ((shards branch.shardId).prepare library txnId readTs branch.writes branch.reads).1 :=
  prepare_rule library (.same ledger) fun _ _ =>
    .logs (ledger.prepared readTs sent ⟨branch, inside, rfl, rfl⟩ undecided)
      (replay_txnPrepare _ txnId readTs branch.writes)

theorem aborts (shardId : Nat) (uncommitted : ∀ commitTs, decided txnId ≠ some (.committed commitTs)) :
    Serves decided txnId shards audit shardId ((shards shardId).abort txnId).1 :=
  abort_rule (.same ledger) (.logs (ledger.released shardId txnId uncommitted) (replay_txnAbort _ txnId))

theorem commits (shardId : Nat) (committed : decided txnId = some (.committed commitTs)) :
    Serves decided txnId shards audit shardId ((shards shardId).commit txnId commitTs).1 :=
  commit_rule (.same ledger) fun writes holds =>
    .logs (ledger.apply holds committed) (replay_txnCommit _ txnId commitTs writes)

end Ledger

theorem CommitPhase.holds_voted (whole : branches = done ++ branch :: rest)
    (distinct : (branches.map ShardBranch.shardId).Nodup)
    (all : ∀ earlier ∈ done, held earlier.shardId txnId = some earlier.writes) :
    ∀ earlier ∈ done ++ [branch],
      held.set branch.shardId txnId (some branch.writes) earlier.shardId txnId = some earlier.writes := by
  intro earlier member
  rcases mem_append.mp member with member | member
  · rw [Holdings.set_other _ _ (fun here => ShardBranch.apart (whole ▸ distinct) member here.1)]
    exact all earlier member
  · rw [mem_singleton.mp member, Holdings.set_self]

theorem CommitPhase.Standing.or_pending (stands : phase.Standing memory disk) (decided : disk ≠ none) :
    phase.pending.or disk = disk := by
  cases phase with
  | recordingAbort _ | recording _ => exact absurd stands.2 decided
  | _ => rfl

theorem CommitPhase.Standing.holds (stands : phase.Standing memory disk) (decided : disk ≠ none)
    (held : Holdings) (txnId : Nat) (branches : List ShardBranch) : phase.Holds held txnId branches := by
  cases phase with
  | preparing _ _ | remembering _ | recording _ => exact absurd stands.2 decided
  | _ => exact True.intro

theorem CommitPhase.Holds.congr (holds : phase.Holds held txnId branches)
    (same : ∀ shardId, held' shardId txnId = held shardId txnId) : phase.Holds held' txnId branches := by
  cases phase with
  | preparing rest prepared =>
    obtain ⟨done, whole, all⟩ := holds
    exact ⟨done, whole, fun branch inside => (same _).trans (all branch inside)⟩
  | remembering _ | recording _ => exact fun branch inside => (same _).trans (holds branch inside)
  | _ => exact True.intro

theorem LocalShard.Logged.suffer (logged : shard.Logged) (fault : ShardFault) : (shard.suffer fault).Logged := by
  cases fault with
  | prepareFailure armed => exact logged.step .plain (.injectPrepareFailure armed)
  | crashAfterPrepare armed => exact logged.step .plain (.injectCrashAfterPrepare armed)
  | restart => exact Logged.recover

theorem LocalShard.Logged.suffer_prepared (logged : shard.Logged) (fault : ShardFault) :
    (shard.suffer fault).prepared = shard.prepared := by
  cases fault with
  | restart => exact logged.recover_same.1
  | _ => rfl

theorem LocalShard.Logged.update (logged : ∀ shardId, (shards shardId).Logged)
    (moved : shard.Logged) : ∀ shardId, (Function.update shards target shard shardId).Logged :=
  (forall_update_iff shards fun _ shard => shard.Logged).mpr ⟨moved, fun shardId _ => logged shardId⟩

variable {append : AppendResult} {site : Site LocalShard}

theorem CommitCall.Moves.logged {library : Library} {after : Site LocalShard}
    {next : CommitCall ⊕ Except TakyonicError DistTxnOutcome}
    (moves : call.Moves library (participant library) append site after next)
    (logged : ∀ shardId, (site.shards shardId).Logged) (shardId : Nat) : (after.shards shardId).Logged := by
  have step : ∀ {target shard}, shard.Logged → ((site.setShard target shard).shards shardId).Logged :=
    fun moved => Logged.update logged moved shardId
  cases moves with
  | @voted branch _ _ _ _ | @refused branch _ _ _ _ =>
    exact step ((logged branch.shardId).step library
      (.prepare call.txnId call.request.readTs branch.writes branch.reads))
  | @rolledBack target _ _ _ => exact step ((logged target).step library (.abort call.txnId))
  | @applied commitTs branch _ _ | @stuck commitTs branch _ _ _ =>
    exact step ((logged branch.shardId).step library (.commit call.txnId commitTs))
  | _ => exact logged shardId

namespace Deployment

def Unused (deployment : Deployment) : Prop :=
  ∀ coordinator ∈ deployment.coordinator,
    (∀ shardId, (deployment.shards shardId).prepared[coordinator.nextTxn]? = none) ∧
      ∀ call ∈ deployment.recoveries, coordinator.nextTxn ∉ call.rest ∧
        ∀ found ∈ call.looked, found.1 ≠ coordinator.nextTxn

/-- `commit` is called for a transaction of the running coordinator with one branch for each shard, and
    `recover_participant` looks up no transaction whose commit call has not recorded its decision yet. -/
def Tended (deployment : Deployment) : Op → Prop
  | .commit txnId request => (deployment.audit.snapshots (deployment.audit.txn txnId)).isSome ∧
      (request.branches.map ShardBranch.shardId).Nodup
  | .resolve position => ∀ call ∈ deployment.recoveries[position]?, call.looked = none → ∀ id ∈ call.rest.head?,
      ∀ commit ∈ deployment.commits, commit.txnId = id → commit.phase.settled = true
  | _ => True

instance (deployment : Deployment) (op : Op) : Decidable (deployment.Tended op) := by
  rcases op with ⟨⟩ <;> unfold Tended <;> infer_instance

/-- The invariant of runs with crashes: the ledger, the calls in progress, and the decision file. -/
structure Atomic (library : Library) (records : List TcDecisionRecord) (deployment : Deployment) : Prop where
  kept : Kept library records deployment
  logged : ∀ shardId, (deployment.shards shardId).Logged
  ledger : Ledger (durable records) (heldBy deployment.shards) deployment.audit
  calls : ∀ call ∈ deployment.commits, call.Sound (heldBy deployment.shards) deployment.audit
  called : ∀ coordinator, deployment.coordinator = some coordinator → ∀ id,
    (deployment.audit.requests (deployment.audit.txn id)).isSome →
      coordinator.decisions id ≠ none ∨ ∃ call ∈ deployment.commits, call.txnId = id
  recoveries : ∀ call ∈ deployment.recoveries, call.Sound (durable records) deployment.audit deployment.commits

variable {library : Library} {records records' : List TcDecisionRecord} {deployment after : Deployment}

theorem fresh_atomic (library : Library) : Atomic library [] fresh where
  kept := fresh_kept library
  logged shardId := new_logged shardId
  ledger := Ledger.empty _
  calls _ member := nomatch member
  called _ up := nomatch up
  recoveries _ member := nomatch member

section

variable (atomic : Atomic library records deployment) {old new : TransactionCoordinator}
  {front back : List CommitCall}
include atomic

theorem Atomic.moved {next : Option CommitCall} (was : deployment.coordinator = some old)
    (calls : deployment.commits = front ++ call :: back) (kept : Kept library records' after)
    (logged : ∀ shardId, (after.shards shardId).Logged)
    (served : Served (durable records') call.txnId deployment.shards after.shards deployment.audit after.audit)
    (up : after.coordinator = some new) (commits : after.commits = front ++ (next.toList ++ back))
    (recoveries : after.recoveries = deployment.recoveries)
    (own : ∀ call' ∈ next, call'.txnId = call.txnId ∧ call'.request = call.request ∧
      call'.phase.Holds (heldBy after.shards) call.txnId call.request.branches)
    (stable : ∀ id, durable records id ≠ none ∨ id ≠ call.txnId → durable records' id = durable records id)
    (decided : ∀ id, old.decisions id ≠ none → new.decisions id ≠ none)
    (ended : next = none → new.decisions call.txnId ≠ none) : Atomic library records' after := by
  have member : call ∈ deployment.commits := by
    rw [calls]
    exact mem_append_right _ mem_cons_self
  have split : ∀ other ∈ after.commits, other ∈ deployment.commits ∧ other.txnId ≠ call.txnId ∨ other ∈ next := by
    rw [commits, calls]
    exact fun other => mem_replaced (calls ▸ atomic.kept.distinct)
  constructor
  · exact kept
  · exact logged
  · exact served.ledger
  · intro other present
    rcases split other present with ⟨present, apart⟩ | present
    · have sound := atomic.calls other present
      exact served.sound sound rfl rfl (sound.holds.congr fun shardId => served.others shardId _ apart)
    · obtain ⟨sameId, sameRequest, holds⟩ := own other present
      exact served.sound (atomic.calls call member) sameId sameRequest holds
  · intro coordinator now id requested
    cases up.symm.trans now
    rw [served.requests, served.txn] at requested
    by_cases here : id = call.txnId
    · subst here
      cases ending : next with
      | none => exact .inl (ended ending)
      | some call' => exact .inr ⟨call', commits ▸ mem_replacement ending, (own call' ending).1⟩
    · rcases atomic.called old was id requested with known | ⟨other, present, same⟩
      · exact .inl (decided id known)
      · rw [calls] at present
        exact .inr ⟨other, commits ▸ mem_unreplaced present (same.symm ▸ here), same⟩
  · intro recovery present
    rw [recoveries] at present
    obtain ⟨rest, looked⟩ := atomic.recoveries recovery present
    refine ⟨fun id inRest => (served.called id).mpr (rest id inRest), ?_⟩
    intro id decision found
    obtain ⟨called, known, free⟩ := looked id decision found
    refine ⟨(served.called id).mpr called, ?_, ?_⟩
    · rw [stable id, known]
      rw [known]
      cases decision with
      | some decision => exact .inl nofun
      | none => exact .inr (fun here => free nofun call member here.symm)
    · intro lost other present
      rcases split other present with ⟨present, _⟩ | present
      · exact free lost other present
      · rw [(own other present).1]
        exact free lost call member

variable {position : Nat}

theorem Atomic.advance (synced : deployment.Synced (.advance position append)) :
    Atomic library (records ++ deployment.appended (.advance position append))
      (deployment.advance library position append) := by
  have kept := atomic.kept.step synced
  dsimp only [Deployment.step, appended] at kept ⊢
  have advances := deployment.advance_advances library position append
  generalize deployment.advance library position append = result at advances kept ⊢
  cases advances with
  | idle absent =>
    rw [atomic.kept.absent absent]
    exact (append_nil records).symm ▸ atomic
  | @moved coordinator file front call back after next up disk calls here moves =>
    rw [here] at kept ⊢
    dsimp only [bind_some] at kept ⊢
    have member : call ∈ deployment.commits := calls ▸ mem_append_cons_self
    have stands := atomic.kept.calls coordinator up call member
    have sound := atomic.calls call member
    have holds := sound.holds
    obtain ⟨steady, standing, _, ended⟩ := moves.standing stands
    refine atomic.moved up calls kept (moves.logged atomic.logged) ?_ rfl rfl rfl
      (fun call' present => ⟨(standing call' present).1, (standing call' present).2.1, ?_⟩) ?_
      (fun id known => (steady id (.inr known)).symm ▸ known) ended
    · have quiet : call.phase.pending = none →
          durable (records ++ (call.phase.pending.map (TcDecisionRecord.ofDecision call.txnId)).toList) =
            durable records := by
        intro none
        rw [none]
        exact congrArg durable (append_nil records)
      have grown : ∀ {decision}, call.phase.pending = some decision →
          durable (records ++ (call.phase.pending.map (TcDecisionRecord.ofDecision call.txnId)).toList) =
            update (durable records) call.txnId (some decision) := by
        intro decision pending
        funext id
        rw [durable_noted, pending, update_apply]
        rfl
      cases moves with
      | unknown phase _ =>
        rw [quiet (by rw [phase]; rfl), phase]
        exact .untouched atomic.ledger _
      | voted phase _ | refused phase =>
        rw [quiet (by rw [phase]; rfl), phase]
        rw [phase] at stands holds
        obtain ⟨done, whole, _⟩ := holds
        exact atomic.ledger.prepares library call.request.readTs sound.sent (whole ▸ mem_append_cons_self) stands.2
      | rolledBack phase =>
        rw [quiet (by rw [phase]; rfl), phase]
        rw [phase] at stands
        exact atomic.ledger.aborts _ (by rw [stands.2]; exact nofun)
      | recordedAbort phase =>
        rw [grown (by rw [phase]; rfl), phase]
        rw [phase] at stands
        exact ⟨atomic.ledger.recordedAbort stands.2, fun _ _ _ => rfl, rfl, rfl, rfl⟩
      | @recorded commitTs _ phase _ =>
        rw [grown (by rw [phase]; rfl), phase]
        rw [phase] at stands holds
        exact ⟨atomic.ledger.recorded commitTs stands.2 sound.begun sound.sent holds, fun _ _ _ => rfl, rfl, rfl, rfl⟩
      | unrecorded phase failed =>
        obtain rfl := atomic.kept.written disk
        cases (synced.appends here (by rw [phase]; rfl) library records).2.symm.trans failed
      | applied phase | stuck phase =>
        rw [quiet (by rw [phase]; rfl), phase]
        rw [phase] at stands
        exact atomic.ledger.commits _ stands.2
      | rememberedAbort phase | ticked phase | remembered phase | crashed phase | proceeded phase | finished phase =>
        rw [quiet (by rw [phase]; rfl), phase]
        exact .kept atomic.ledger rfl
    · cases moves with
      | @voted branch rest prepared phase answer =>
        cases present
        rw [phase] at holds
        obtain ⟨done, whole, all⟩ := holds
        refine ⟨done ++ [branch], by rw [whole, append_assoc]; rfl, fun earlier member => ?_⟩
        have held := heldBy_logs
          ((deployment.shards branch.shardId).replay_txnPrepare call.txnId call.request.readTs branch.writes)
        rw [← (prepare_ok library _ answer).1] at held
        exact (congrFun₂ held _ _).trans (CommitPhase.holds_voted whole sound.distinct all earlier member)
      | ticked phase =>
        cases present
        rw [phase] at holds
        obtain ⟨done, whole, all⟩ := holds
        rw [append_nil] at whole
        exact whole ▸ all
      | remembered phase =>
        cases present
        rw [phase] at holds
        exact holds
      | recordedAbort _ | unrecorded _ _ | crashed _ | stuck _ | finished _ => cases present
      | _ =>
        cases present
        exact True.intro
    · intro id free
      rw [durable_noted]
      split
      · rename_i same
        subst same
        exact stands.or_pending (free.resolve_right fun other => other rfl)
      · rfl

theorem Atomic.served (kept : Kept library records after) (logged : ∀ shardId, (after.shards shardId).Logged)
    (served : Served (durable records) txnId deployment.shards after.shards deployment.audit after.audit)
    (coordinator : after.coordinator = deployment.coordinator) (commits : after.commits = deployment.commits)
    (settled : ∀ call ∈ deployment.commits, call.txnId = txnId → durable records txnId ≠ none ∨
      ∀ shardId, heldBy after.shards shardId txnId = heldBy deployment.shards shardId txnId)
    (recoveries : ∀ call ∈ after.recoveries, call.Sound (durable records) deployment.audit deployment.commits) :
    Atomic library records after := by
  constructor
  · exact kept
  · exact logged
  · exact served.ledger
  · intro call member
    rw [commits] at member
    have sound := atomic.calls call member
    apply served.sound sound rfl rfl
    by_cases here : call.txnId = txnId
    · rcases settled call member here with decided | same
      · cases up : deployment.coordinator with
        | none =>
          rw [(atomic.kept.idle up).1] at member
          cases member
        | some running => exact (atomic.kept.calls running up call member).holds (here ▸ decided) _ _ _
      · exact sound.holds.congr (fun shardId => here ▸ same shardId)
    · exact sound.holds.congr (fun shardId => served.others shardId _ here)
  · intro running now id requested
    rw [served.requests, served.txn] at requested
    rw [commits]
    exact atomic.called running (coordinator ▸ now) id requested
  · intro call member
    obtain ⟨rest, looked⟩ := recoveries call member
    refine ⟨fun id inside => (served.called id).mpr (rest id inside), ?_⟩
    intro id decision found
    obtain ⟨called, known, free⟩ := looked id decision found
    rw [commits]
    exact ⟨(served.called id).mpr called, known, free⟩

theorem Atomic.resolve (tended : deployment.Tended (.resolve position)) :
    Atomic library records (deployment.resolve library position) := by
  have kept := atomic.kept.resolve position
  have resolves := deployment.resolve_resolves library position
  generalize deployment.resolve library position = result at resolves kept ⊢
  cases resolves with
  | idle => exact atomic
  | @moved coordinator file front call back after next up disk calls here moves =>
    have sound := atomic.recoveries call (calls ▸ mem_append_cons_self)
    have present : (∀ other, next = .inl other → other.Sound (durable records) deployment.audit deployment.commits) →
        ∀ other ∈ front ++ (next.getLeft?.toList ++ back),
          other.Sound (durable records) deployment.audit deployment.commits := by
      intro moved other inside
      rcases mem_changed inside with inside | new
      · exact atomic.recoveries other (calls ▸ inside)
      · exact moved other (Sum.getLeft?_eq_some_iff.mp new)
    have logged : ∀ {shard : LocalShard}, shard.Logged →
        ∀ shardId, (update deployment.shards call.shardId shard shardId).Logged := .update atomic.logged
    have untouched := @Served.untouched _ 0 _ _ atomic.ledger call.shardId
    cases moves with
    | @applied txnId commitTs next looked cleared =>
      obtain ⟨_, committed, _⟩ := sound.looked txnId _ looked
      refine atomic.served kept (logged ((atomic.logged call.shardId).step library (.commit txnId commitTs)))
        (atomic.ledger.commits call.shardId committed) up.symm rfl ?_ (present ?_)
      · intro _ _ _
        left
        rw [committed]
        exact nofun
      · intro other moved
        rw [cleared other moved]
        exact ⟨sound.rest, nofun⟩
    | @rolledBack txnId decision next looked lost cleared =>
      obtain ⟨_, known, free⟩ := sound.looked txnId decision looked
      refine atomic.served kept (logged ((atomic.logged call.shardId).step library (.abort txnId)))
        (atomic.ledger.aborts call.shardId (by rw [known]; exact lost)) up.symm rfl ?_ (present ?_)
      · exact fun other inside same => absurd same (free lost other inside)
      · intro other moved
        rw [cleared other moved]
        exact ⟨sound.rest, nofun⟩
    | skipped looked =>
      refine atomic.served kept atomic.logged untouched up.symm rfl (fun _ _ _ => .inr fun _ => rfl) (present ?_)
      rintro other ⟨⟩
      exact ⟨sound.rest, nofun⟩
    | @lookedUp txnId rest idle orphans =>
      refine atomic.served kept atomic.logged untouched up.symm rfl (fun _ _ _ => .inr fun _ => rfl) (present ?_)
      rintro other ⟨⟩
      have first : ∀ commit ∈ deployment.commits, commit.txnId = txnId → commit.phase.settled = true :=
        tended call here idle txnId (by rw [orphans]; rfl)
      have unpending : ∀ commit ∈ deployment.commits, commit.txnId = txnId → commit.phase.pending = none := by
        intro commit inside same
        have settled := first commit inside same
        cases phase : commit.phase with
        | recordingAbort _ | recording _ =>
          rw [phase] at settled
          cases settled
        | _ => rfl
      have known := atomic.kept.memory coordinator up txnId unpending
      refine ⟨fun id inside => sound.rest id (orphans ▸ mem_cons_of_mem _ inside), ?_⟩
      intro id decision found
      obtain ⟨rfl, rfl⟩ := Prod.mk.inj (some.inj found)
      refine ⟨sound.rest txnId (orphans ▸ mem_cons_self), known.symm, ?_⟩
      intro lost commit inside same
      have settled := first commit inside same
      have stands := atomic.kept.calls coordinator up commit inside
      rw [same] at stands
      cases phase : commit.phase with
      | decided ts | applying ts _ =>
        rw [phase] at stands
        exact lost ts stands.1
      | _ =>
        rw [phase] at settled
        cases settled
    | finished idle =>
      exact atomic.served kept atomic.logged untouched up.symm rfl (fun _ _ _ => .inr fun _ => rfl) (present nofun)

theorem Atomic.step {op : Op} (synced : deployment.Synced op) (tended : deployment.Tended op)
    (unused : op = .begin → deployment.Unused) :
    Atomic library (records ++ deployment.appended op) (deployment.step library op) := by
  have quiet : deployment.appended op = [] → (Kept library records (deployment.step library op) →
      Atomic library records (deployment.step library op)) →
      Atomic library (records ++ deployment.appended op) (deployment.step library op) := by
    intro nothing after
    have kept := atomic.kept.step synced
    rw [nothing, append_nil] at kept ⊢
    exact after kept
  cases op with
  | advance position append => exact atomic.advance synced
  | resolve position => exact quiet rfl fun _ => atomic.resolve tended
  | openLog =>
    refine quiet rfl fun kept => ?_
    dsimp only [Deployment.step, Deployment.openLog] at kept ⊢
    cases up : deployment.coordinator with
    | some coordinator => exact atomic
    | none =>
      obtain ⟨commits, recoveries⟩ := atomic.kept.idle up
      rw [up, atomic.kept.opens] at kept
      rw [atomic.kept.opens]
      refine ⟨kept, atomic.logged, atomic.ledger.opened, ?_, ?_, ?_⟩
      · intro call member
        rw [show _ = deployment.commits from rfl, commits] at member
        cases member
      · intro coordinator _ id requested
        have begun := atomic.ledger.past _ (atomic.ledger.begun _ requested)
        exact absurd begun (Nat.not_succ_le_self _)
      · intro call member
        rw [show _ = deployment.recoveries from rfl, recoveries] at member
        cases member
  | crash => exact quiet rfl fun kept => ⟨kept, atomic.logged, atomic.ledger, nofun, nofun, nofun⟩
  | shard shardId fault =>
    refine quiet rfl fun kept => ?_
    have logged := (atomic.logged shardId).suffer fault
    have held : heldBy (update deployment.shards shardId ((deployment.shards shardId).suffer fault)) =
        heldBy deployment.shards := by
      have same : ∀ other,
          (update deployment.shards shardId ((deployment.shards shardId).suffer fault) other).prepared =
          (deployment.shards other).prepared :=
        (forall_update_iff _ fun other (shard : LocalShard) => shard.prepared = (deployment.shards other).prepared).mpr
          ⟨(atomic.logged shardId).suffer_prepared fault, fun _ _ => rfl⟩
      funext other id
      rw [heldBy, same]
      rfl
    exact ⟨kept, .update atomic.logged logged, held.symm ▸ atomic.ledger, held.symm ▸ atomic.calls, atomic.called,
      atomic.recoveries⟩
  | begin =>
    refine quiet rfl fun kept => ?_
    dsimp only [Deployment.step, Deployment.begin] at kept ⊢
    cases up : deployment.coordinator with
    | none => exact atomic
    | some coordinator =>
      rw [up] at kept
      obtain ⟨free, idle⟩ := unused rfl coordinator up
      have older {id} := @noteBegin_other id coordinator.nextTxn deployment.audit coordinator.clock
      have called : ∀ {id}, id ≠ coordinator.nextTxn → deployment.audit.Called id →
          (deployment.audit.noteBegin coordinator.nextTxn coordinator.clock).Called id := by
        intro id other called begun
        exact called (older other ▸ begun)
      refine ⟨kept, atomic.logged, atomic.ledger.began coordinator.clock free, ?_, ?_, ?_⟩
      · intro call member
        obtain ⟨begun, sent, single, holds⟩ := atomic.calls call member
        refine ⟨?_, sent, single, holds⟩
        by_cases here : call.txnId = coordinator.nextTxn
        · rw [here]
          exact (noteBegin_self _ _ _).symm ▸ rfl
        · exact (older here).symm ▸ begun
      · intro now same id requested
        cases same
        exact atomic.called coordinator up id requested
      · intro call member
        obtain ⟨rest, looked⟩ := atomic.recoveries call member
        obtain ⟨notRest, notLooked⟩ := idle call member
        refine ⟨fun id inside => called (fun same => notRest (same ▸ inside)) (rest id inside), ?_⟩
        intro id decision found
        obtain ⟨was, known, none⟩ := looked id decision found
        exact ⟨called (notLooked _ found) was, known, none⟩
  | read txnId shardId key =>
    refine quiet rfl fun kept => ?_
    dsimp only [Deployment.step, Deployment.read] at kept ⊢
    split at kept
    · exact ⟨kept, atomic.logged, { atomic.ledger with }, fun call member => { atomic.calls call member with },
        atomic.called, fun call member => { atomic.recoveries call member with }⟩
    · exact atomic
  | commit txnId request =>
    refine quiet rfl fun kept => ?_
    dsimp only [Deployment.step, Deployment.commit] at kept ⊢
    cases up : deployment.coordinator with
    | none => exact atomic
    | some coordinator =>
      rw [up] at kept
      obtain ⟨undecided, free⟩ := synced
      obtain ⟨begun, single⟩ := tended
      rw [Deployment.decision, up] at undecided
      have first : deployment.audit.requests (deployment.audit.txn txnId) = none := by
        by_contra known
        rcases atomic.called coordinator up txnId (isSome_iff_ne_none.mpr known) with decided | ⟨call, inside, same⟩
        · exact decided undecided
        · exact free call inside same
      have older {id} := @noteCommit_other id txnId deployment.audit request
      have newest := deployment.audit.noteCommit_self txnId request
      refine ⟨kept, atomic.logged, atomic.ledger.requested begun first, ?_, ?_, ?_⟩
      · refine forall_mem_append.mpr ⟨fun call member => ?_, forall_mem_singleton.mpr ?_⟩
        · obtain ⟨begun, sent, single, holds⟩ := atomic.calls call member
          exact ⟨begun, (older (free call member)).trans sent, single, holds⟩
        · refine ⟨begun, newest, single, ?_⟩
          dsimp only [CommitCall.start]
          split
          · exact True.intro
          · exact ⟨[], rfl, by simp⟩
      · intro now same id requested
        cases same
        by_cases here : id = txnId
        · right
          exact ⟨_, mem_append_right _ (mem_singleton_self _), here.symm⟩
        · rcases atomic.called coordinator up id (older here ▸ requested) with decided | ⟨call, inside, same⟩
          · exact .inl decided
          · exact .inr ⟨call, mem_append_left _ inside, same⟩
      · intro call member
        obtain ⟨rest, looked⟩ := atomic.recoveries call member
        have called : ∀ {id}, deployment.audit.Called id → (deployment.audit.noteCommit txnId request).Called id := by
          intro id called began
          by_cases here : id = txnId
          · rw [here]
            show ((deployment.audit.noteCommit txnId request).requests (deployment.audit.txn txnId)).isSome
            rw [newest]
            rfl
          · exact (older here).symm ▸ called began
        refine ⟨fun id inside => called (rest id inside), ?_⟩
        intro id decision found
        obtain ⟨was, known, none⟩ := looked id decision found
        refine ⟨called was, known, ?_⟩
        intro lost commit inside
        rcases mem_append.mp inside with inside | inside
        · exact none lost commit inside
        · rw [mem_singleton.mp inside]
          rintro rfl
          have requested : (deployment.audit.requests (deployment.audit.txn txnId)).isSome := was begun
          rw [first] at requested
          cases requested
  | recover shardId order =>
    refine quiet rfl fun kept => ?_
    dsimp only [Deployment.step] at kept ⊢
    split at kept
    · rename_i up
      rw [if_pos up]
      refine ⟨kept, atomic.logged, atomic.ledger, atomic.calls, atomic.called, ?_⟩
      refine forall_mem_append.mpr ⟨atomic.recoveries, forall_mem_singleton.mpr ?_⟩
      refine ⟨?_, by simp [RecoverCall.start]⟩
      intro id inside begun
      have orphan : id ∈ (deployment.shards shardId).prepared.keys := by
        dsimp only [RecoverCall.start] at inside
        split at inside
        · rename_i same
          exact same.mem_iff.mp inside
        · exact inside
      have holds : (heldBy deployment.shards shardId id).isSome :=
        Std.TreeMap.mem_iff_isSome_getElem?.mp (Std.TreeMap.mem_keys.mp orphan)
      obtain ⟨writes, found⟩ := isSome_iff_exists.mp holds
      obtain ⟨request, sent, _⟩ := atomic.ledger.owned shardId id writes found
      rw [atomic.ledger.current shardId id holds begun] at sent
      rw [txn, sent]
      rfl
    · rename_i down
      rw [if_neg down]
      exact atomic
  | _ =>
    refine quiet rfl fun kept => ⟨kept, atomic.logged, atomic.ledger, atomic.calls, ?_, atomic.recoveries⟩
    intro coordinator now id requested
    obtain ⟨old, was, rfl⟩ := map_eq_some_iff.mp now
    exact atomic.called old was id requested

end

/-- Appends succeed; every commit call is for an undecided transaction of the running coordinator, once, with one
    branch for each shard; recovery keeps off transactions whose decision is not recorded yet; and `begin` hands
    out no id that is still in use. -/
def Orderly (deployment : Deployment) (op : Op) : Prop :=
  deployment.Synced op ∧ deployment.Tended op ∧ (op = .begin → deployment.Unused)

/-- In every orderly run, with crashes, reopenings and recoveries at any step: a branch is applied only if the
    commit call of its transaction has recorded that commit, and of a recorded transaction every branch is
    applied or still prepared where it was sent. -/
theorem run_atomic (library : Library) (ops : List Op) (orderly : Along (step library) Orderly fresh ops) :
    let after := run (step library) fresh ops
    ∀ txn, (after.audit.snapshots txn).isSome →
      (∀ entry ∈ after.audit.applied, entry.txn = txn → after.audit.recorded txn = some entry.commitTs ∧
        ∃ request, after.audit.requests txn = some request ∧ request.Sends entry.shardId entry.writes) ∧
      ∀ commitTs, after.audit.recorded txn = some commitTs → ∃ request, after.audit.requests txn = some request ∧
        ∀ branch ∈ request.branches, ⟨txn, branch.shardId, commitTs, branch.writes⟩ ∈ after.audit.applied ∨
          (after.shards branch.shardId).prepared[txn.txnId]? = some branch.writes ∧
            after.audit.holder branch.shardId txn.txnId = txn.session := by
  intro after txn _
  have atomic : ∃ records, Atomic library records after := by
    refine orderly.invariant (P := fun state => ∃ records, Atomic library records state) ⟨[], fresh_atomic library⟩ ?_
    rintro state op ⟨records, atomic⟩ ⟨synced, tended, unused⟩
    exact ⟨_, atomic.step synced tended unused⟩
  obtain ⟨records, atomic⟩ := atomic
  refine ⟨?_, fun commitTs recorded => atomic.ledger.resolved txn commitTs recorded⟩
  rintro entry member rfl
  exact atomic.ledger.applied entry member

def crashInPhaseTwo : List Op :=
  [.openLog, .register 0, .register 1, .begin,
    .commit 1 ⟨1, [⟨0, [(⟨[107]⟩, some ⟨[118]⟩)], []⟩, ⟨1, [(⟨[106]⟩, some ⟨[119]⟩)], []⟩]⟩,
    .advance 0 .synced, .advance 0 .synced, .advance 0 .synced, .advance 0 .synced, .advance 0 .synced,
    .advance 0 .synced, .advance 0 .synced, .crash, .openLog]

theorem run_atomic_recovered :
    let after := run (step .plain) fresh (crashInPhaseTwo ++ [.recover 1 [1], .resolve 0, .resolve 0])
    (∀ branch ∈ [(0, [(⟨[107]⟩, some ⟨[118]⟩)]), (1, [(⟨[106]⟩, some ⟨[119]⟩)])],
        (⟨⟨1, 1⟩, branch.1, 2, branch.2⟩ : AppliedBranch) ∈ after.audit.applied) ∧
      after.audit.recorded ⟨1, 1⟩ = some 2 := by
  intro after
  have careful : Along (step .plain) (fun state op => state.Synced op ∧ state.Tended op) fresh
      (crashInPhaseTwo ++ [.recover 1 [1], .resolve 0, .resolve 0]) := by
    decide +kernel
  have unused : Along (step .plain) (fun state op => op = .begin → state.Unused) fresh
      (crashInPhaseTwo ++ [.recover 1 [1], .resolve 0, .resolve 0]) := by
    refine ⟨nofun, nofun, nofun, fun _ => ?_, nofun, nofun, nofun, nofun, nofun, nofun, nofun, nofun, nofun, nofun,
      nofun, nofun, nofun, True.intro⟩
    rintro coordinator ⟨⟩
    exact ⟨fun _ => rfl, nofun⟩
  have orderly : Along (step .plain) Orderly fresh (crashInPhaseTwo ++ [.recover 1 [1], .resolve 0, .resolve 0]) :=
    (careful.and unused).mono (fun _ _ both => ⟨both.1.1, both.1.2, both.2⟩)
  have applied := (run_atomic .plain _ orderly ⟨1, 1⟩ (by decide +kernel)).1
  refine ⟨by decide +kernel, (applied ⟨⟨1, 1⟩, 0, 2, [(⟨[107]⟩, some ⟨[118]⟩)]⟩ ?_ rfl).1⟩
  decide +kernel

/-- The coordinator crashes while transaction 1 is prepared on shard 0 and undecided. The reopened coordinator
    hands out the id 1 again, that transaction commits on shard 1 alone, and a recovery of shard 0 then applies
    the branch of the first one, which never recorded a commit. -/
theorem reused_id_applies :
    let after := run (step .plain) fresh [.openLog, .register 0, .register 1, .begin,
      .commit 1 ⟨1, [⟨0, [(⟨[107]⟩, some ⟨[118]⟩)], []⟩, ⟨1, [(⟨[106]⟩, some ⟨[118]⟩)], []⟩]⟩, .advance 0 .synced,
      .crash, .openLog, .register 0, .register 1, .begin,
      .commit 1 ⟨1, [⟨1, [(⟨[106]⟩, some ⟨[119]⟩)], []⟩]⟩, .advance 0 .synced, .advance 0 .synced,
      .advance 0 .synced, .advance 0 .synced, .advance 0 .synced, .advance 0 .synced, .advance 0 .synced,
      .recover 0 [1], .resolve 0, .resolve 0]
    (⟨⟨1, 1⟩, 0, 2, [(⟨[107]⟩, some ⟨[118]⟩)]⟩ : AppliedBranch) ∈ after.audit.applied ∧
      after.audit.snapshots ⟨1, 1⟩ = some 1 ∧ after.audit.recorded ⟨1, 1⟩ = none ∧
      (after.shards 0).getAt ⟨[107]⟩ 2 = some ⟨[118]⟩ ∧ (after.shards 1).getAt ⟨[106]⟩ 2 = some ⟨[119]⟩ := by
  decide +kernel

end Deployment

end Takyonic
