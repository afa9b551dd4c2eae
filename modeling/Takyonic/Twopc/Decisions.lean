import Takyonic.Twopc.Deployment

namespace Takyonic

open Foundation TcDecisionLog List Option TcDecisionRecord

def CommitPhase.pending : CommitPhase → Option CoordinatorDecision
  | .recordingAbort _ => some .aborted
  | .recording commitTs => some (.committed commitTs)
  | _ => none

def CommitPhase.Standing (memory disk : Option CoordinatorDecision) : CommitPhase → Prop
  | .preparing _ _ | .aborting _ _ | .remembering _ => memory = none ∧ disk = none
  | .recordingAbort _ => memory = some .aborted ∧ disk = none
  | .recording commitTs => memory = some (.committed commitTs) ∧ disk = none
  | .decided commitTs | .applying commitTs _ =>
    memory = some (.committed commitTs) ∧ disk = some (.committed commitTs)

def TcDecisionLog.durable (records : List TcDecisionRecord) (txnId : Nat) : Option CoordinatorDecision :=
  (records.foldl Loaded.add .empty).decisions txnId

theorem TcDecisionLog.durable_noted (records : List TcDecisionRecord) (txnId : Nat)
    (noted : Option CoordinatorDecision) (id : Nat) :
    durable (records ++ (noted.map (ofDecision txnId)).toList) id =
      if id = txnId then noted.or (durable records id) else durable records id := by
  cases noted with
  | none => simp
  | some decision =>
    unfold durable
    rw [map_some, toList_some, foldl_append]
    exact Function.update_apply _ _ _ _

/-- What a step of a commit call does to the decisions that the coordinator remembers. -/
theorem CommitCall.Moves.standing {σ : Type} {library : Library} {participant : ShardParticipant σ}
    {append : AppendResult}
    {site after : Site σ} {call : CommitCall} {next : CommitCall ⊕ Except TakyonicError DistTxnOutcome}
    (moves : call.Moves library participant append site after next) {disk : Option CoordinatorDecision}
    (stands : call.phase.Standing (site.coordinator.decisions call.txnId) disk) :
    (∀ id, id ≠ call.txnId ∨ site.coordinator.decisions id ≠ none →
        after.coordinator.decisions id = site.coordinator.decisions id) ∧
      (∀ call' ∈ next.getLeft?, call'.txnId = call.txnId ∧ call'.request = call.request ∧
        call'.phase.Standing (after.coordinator.decisions call.txnId) (call.phase.pending.or disk)) ∧
      ((∀ call' ∈ next.getLeft?, call'.phase.pending = none) →
        after.coordinator.decisions call.txnId = call.phase.pending.or disk) ∧
      (next.getLeft? = none → after.coordinator.decisions call.txnId ≠ none) := by
  cases moves with
  | unknown phase _ | voted phase _ | refused phase | rolledBack phase | ticked phase | proceeded phase
  | applied phase =>
    rw [phase] at stands ⊢
    refine ⟨fun _ _ => rfl, ?_, fun _ => stands.1.trans stands.2.symm, nofun⟩
    rintro call' ⟨⟩
    exact ⟨rfl, rfl, stands⟩
  | rememberedAbort phase | remembered phase =>
    rw [phase] at stands ⊢
    refine ⟨fun id kept => Function.update_of_ne ?_ _ _, ?_, (fun free => nomatch free _ rfl), nofun⟩
    · rintro rfl
      exact kept.elim (fun other => other rfl) (fun known => known stands.1)
    · rintro call' ⟨⟩
      exact ⟨rfl, rfl, Function.update_self _ _ _, stands.2⟩
  | recorded phase _ =>
    rw [phase] at stands ⊢
    refine ⟨fun _ _ => rfl, ?_, fun _ => stands.1, nofun⟩
    rintro call' ⟨⟩
    exact ⟨rfl, rfl, stands.1, rfl⟩
  | recordedAbort phase | unrecorded phase _ =>
    rw [phase] at stands ⊢
    exact ⟨fun _ _ => rfl, nofun, fun _ => stands.1, fun _ none => nomatch stands.1.symm.trans none⟩
  | crashed phase | stuck phase | finished phase =>
    rw [phase] at stands ⊢
    exact ⟨fun _ _ => rfl, nofun, fun _ => stands.1.trans stands.2.symm,
      fun _ none => nomatch stands.1.symm.trans none⟩

namespace Deployment

def Synced (deployment : Deployment) : Op → Prop
  | .advance position append =>
    ∀ call ∈ deployment.commits[position]?, ∀ decision ∈ call.phase.pending,
      append = .synced ∧ call.txnId < 2 ^ 64 ∧ decision.commitTs.getD 0 < 2 ^ 64
  | .commit txnId _ => deployment.decision txnId = none ∧ ∀ call ∈ deployment.commits, call.txnId ≠ txnId
  | _ => True

instance (deployment : Deployment) (op : Op) : Decidable (deployment.Synced op) := by
  rcases op with ⟨⟩ <;> unfold Synced <;> infer_instance

def appended (deployment : Deployment) : Op → List TcDecisionRecord
  | .advance position _ => ((deployment.commits[position]?).bind fun call =>
      call.phase.pending.map (ofDecision call.txnId)).toList
  | _ => []

def reopened (records : List TcDecisionRecord) : TransactionCoordinator :=
  ⟨[], 1, max ((records.foldl Loaded.add .empty).maxId + 1) 1, durable records, false⟩

structure Kept (library : Library) (records : List TcDecisionRecord) (deployment : Deployment) : Prop where
  fits : ∀ record ∈ records, record.Fits
  file : deployment.file = some (log library.xxh3 records) ∨
    deployment.file = none ∧ records = [] ∧ deployment.coordinator = none
  idle : deployment.coordinator = none → deployment.commits = [] ∧ deployment.recoveries = []
  distinct : deployment.commits.Pairwise fun first second => first.txnId ≠ second.txnId
  calls : ∀ coordinator, deployment.coordinator = some coordinator → ∀ call ∈ deployment.commits,
    call.phase.Standing (coordinator.decisions call.txnId) (durable records call.txnId)
  memory : ∀ coordinator, deployment.coordinator = some coordinator → ∀ txnId,
    (∀ call ∈ deployment.commits, call.txnId = txnId → call.phase.pending = none) →
      coordinator.decisions txnId = durable records txnId

variable {library : Library} {records : List TcDecisionRecord} {deployment after : Deployment}
  {call : CommitCall} {position : Nat} {append : AppendResult}

theorem fresh_kept (library : Library) : Kept library [] fresh where
  fits _ member := nomatch member
  file := .inr ⟨rfl, rfl, rfl⟩
  idle _ := ⟨rfl, rfl⟩
  distinct := .nil
  calls _ up := nomatch up
  memory _ up := nomatch up

theorem Kept.same (kept : Kept library records deployment) (file : after.file = deployment.file)
    (commits : after.commits = deployment.commits)
    (recoveries : deployment.coordinator = none → after.recoveries = deployment.recoveries)
    (decisions : after.coordinator.map (·.decisions) = deployment.coordinator.map (·.decisions)) :
    Kept library records after := by
  have coordinator : after.coordinator = none ↔ deployment.coordinator = none := by
    rw [← map_eq_none_iff, decisions, map_eq_none_iff]
  have before : ∀ new, after.coordinator = some new →
      ∃ old, deployment.coordinator = some old ∧ new.decisions = old.decisions := by
    intro new up
    rw [up] at decisions
    obtain ⟨old, was, same⟩ := map_eq_some_iff.mp decisions.symm
    exact ⟨old, was, same.symm⟩
  constructor
  · exact kept.fits
  · rw [file, coordinator]
    exact kept.file
  · intro down
    rw [commits, recoveries (coordinator.mp down)]
    exact kept.idle (coordinator.mp down)
  · rw [commits]
    exact kept.distinct
  · intro new up call member
    obtain ⟨old, was, same⟩ := before new up
    rw [same]
    exact kept.calls old was call (commits ▸ member)
  · intro new up txnId settled
    obtain ⟨old, was, same⟩ := before new up
    rw [same]
    exact kept.memory old was txnId (commits ▸ settled)

theorem Kept.moved {old new : TransactionCoordinator} {records' : List TcDecisionRecord}
    {front back : List CommitCall} {next : Option CommitCall} (kept : Kept library records deployment)
    (was : deployment.coordinator = some old) (up : after.coordinator = some new)
    (calls : deployment.commits = front ++ call :: back)
    (commits : after.commits = front ++ (next.toList ++ back)) (fits : ∀ record ∈ records', record.Fits)
    (file : after.file = some (log library.xxh3 records'))
    (others : ∀ txnId, txnId ≠ call.txnId → new.decisions txnId = old.decisions txnId ∧
      durable records' txnId = durable records txnId) (standing : ∀ call' ∈ next, call'.txnId = call.txnId ∧
      call'.phase.Standing (new.decisions call.txnId) (durable records' call.txnId))
    (settled : (∀ call' ∈ next, call'.phase.pending = none) →
      new.decisions call.txnId = durable records' call.txnId) : Kept library records' after := by
  have distinct := kept.distinct
  rw [calls] at distinct
  constructor
  · exact fits
  · exact .inl file
  · intro down
    rw [up] at down
    cases down
  · rw [commits]
    exact pairwise_replaced distinct (fun call' member => (standing call' member).1)
  · intro coordinator same other member
    rw [up] at same
    cases same
    rw [commits] at member
    rcases mem_replaced distinct member with ⟨member, apart⟩ | member
    · obtain ⟨decisions, disk⟩ := others other.txnId apart
      rw [decisions, disk]
      exact kept.calls old was other (calls ▸ member)
    · obtain ⟨same, stands⟩ := standing other member
      rw [same]
      exact stands
  · intro coordinator same txnId free
    rw [up] at same
    cases same
    by_cases here : txnId = call.txnId
    · subst here
      apply settled
      intro call' member
      exact free call' (commits ▸ mem_replacement member) (standing call' member).1
    · obtain ⟨decisions, disk⟩ := others txnId here
      rw [decisions, disk]
      apply kept.memory old was
      intro other member same
      rw [calls] at member
      exact free other (commits ▸ mem_unreplaced member (same ▸ here)) same

theorem Synced.appends {decision : CoordinatorDecision} (synced : deployment.Synced (.advance position append))
    (here : deployment.commits[position]? = some call) (pending : call.phase.pending = some decision)
    (library : Library) (records : List TcDecisionRecord) :
    (ofDecision call.txnId decision).Fits ∧
      appendDecision library.xxh3 append (log library.xxh3 records) (.ofDecision call.txnId decision) =
        (log library.xxh3 (records ++ [.ofDecision call.txnId decision]), .ok ()) := by
  obtain ⟨rfl, small, inRange⟩ := synced call here decision pending
  have fits : (ofDecision call.txnId decision).Fits := by
    refine ⟨small, ?_⟩
    cases phase : call.phase with
    | recordingAbort reason =>
      rw [phase] at pending
      cases pending
      exact .inl rfl
    | recording commitTs =>
      rw [phase] at pending
      cases pending
      exact .inr ⟨commitTs, inRange, rfl⟩
    | _ =>
      rw [phase] at pending
      cases pending
  exact ⟨fits, appendDecision_log library.xxh3 fits⟩

variable (kept : Kept library records deployment)
include kept

theorem Kept.absent
    (absent : deployment.coordinator = none ∨ deployment.file = none ∨ deployment.commits[position]? = none) :
    deployment.commits[position]? = none := by
  have down : deployment.coordinator = none → deployment.commits[position]? = none := by
    intro down
    rw [(kept.idle down).1]
    rfl
  rcases absent with absent | missing | none
  · exact down absent
  · rcases kept.file with found | ⟨_, _, absent⟩
    · rw [missing] at found
      cases found
    · exact down absent
  · exact none

theorem Kept.written {file : Bytes} (disk : deployment.file = some file) : file = log library.xxh3 records := by
  rcases kept.file with found | ⟨missing, _⟩
  · rw [disk] at found
    exact Option.some.inj found
  · rw [disk] at missing
    cases missing

theorem Kept.advance (synced : deployment.Synced (.advance position append)) :
    Kept library (records ++ deployment.appended (.advance position append))
      (deployment.advance library position append) := by
  dsimp only [Deployment.appended]
  have advances := deployment.advance_advances library position append
  generalize deployment.advance library position append = result at advances ⊢
  cases advances with
  | idle absent =>
    rw [kept.absent absent]
    exact (append_nil records).symm ▸ kept
  | @moved coordinator file front call back after next up disk calls here moves =>
    rw [here]
    dsimp only [bind_some]
    have stands := kept.calls coordinator up call (calls ▸ mem_append_cons_self)
    obtain rfl := kept.written disk
    have file : after.file = log library.xxh3
        (records ++ (call.phase.pending.map (ofDecision call.txnId)).toList) := by
      cases moves with
      | recordedAbort phase =>
        rw [phase]
        exact congrArg Prod.fst (synced.appends here (by rw [phase]; rfl) library records).2
      | recorded phase appended =>
        cases (synced.appends here (by rw [phase]; rfl) library records).2.symm.trans appended
        rw [phase]
        rfl
      | unrecorded phase failed =>
        cases (synced.appends here (by rw [phase]; rfl) library records).2.symm.trans failed
      | unknown phase _ | voted phase _ | refused phase | rolledBack phase | rememberedAbort phase | ticked phase
      | remembered phase | crashed phase | proceeded phase | applied phase | stuck phase | finished phase =>
        rw [phase]
        exact congrArg (log library.xxh3) (append_nil records).symm
    obtain ⟨steady, standing, settled, _⟩ := moves.standing stands
    refine kept.moved up rfl calls rfl ?_ (congrArg some file) (fun id other => ⟨steady id (.inl other), ?_⟩)
      (fun call' member => ?_) ?_
    · refine forall_mem_append.mpr ⟨kept.fits, fun record member => ?_⟩
      obtain ⟨decision, pending, rfl⟩ := map_eq_some_iff.mp (mem_toList.mp member)
      exact (synced.appends here pending library records).1
    · rw [durable_noted, if_neg other]
    · rw [durable_noted, if_pos rfl]
      exact ⟨(standing call' member).1, (standing call' member).2.2⟩
    · rw [durable_noted, if_pos rfl]
      exact settled

theorem Kept.opens :
    TransactionCoordinator.openLog library.xxh3 deployment.file =
      .ok (reopened records, log library.xxh3 records) := by
  rcases kept.file with found | ⟨missing, none, _⟩
  · unfold TransactionCoordinator.openLog
    rw [found, load_log library.xxh3 kept.fits, openLog_log]
    rfl
  · rw [missing, none]
    rfl

theorem Kept.openLog : Kept library records (deployment.openLog library) := by
  unfold Deployment.openLog
  cases up : deployment.coordinator with
  | some coordinator => exact kept
  | none =>
    rw [kept.opens]
    obtain ⟨commits, recoveries⟩ := kept.idle up
    constructor
    · exact kept.fits
    · exact .inl rfl
    · intro down
      cases down
    · exact kept.distinct
    · intro coordinator _ call member
      rw [commits] at member
      cases member
    · intro coordinator same txnId _
      cases same
      rfl

theorem Kept.resolve (position : Nat) : Kept library records (deployment.resolve library position) := by
  have resolves := deployment.resolve_resolves library position
  generalize deployment.resolve library position = result at resolves ⊢
  cases resolves with
  | idle => exact kept
  | @moved coordinator file front call back after next up disk calls here moves =>
    have same : after.coordinator = coordinator ∧ after.file = file := by
      cases moves with
      | applied _ _ | rolledBack _ _ _ | skipped _ | lookedUp _ _ | finished _ => exact ⟨rfl, rfl⟩
    have file : some after.file = deployment.file := by rw [disk, same.2]
    refine kept.same file rfl (fun down => ?_) ?_
    · rw [up] at down
      cases down
    · rw [up, ← same.1]
      rfl

theorem Kept.crash : Kept library records (deployment.step library .crash) := by
  refine ⟨kept.fits, ?_, fun _ => ⟨rfl, rfl⟩, .nil, nofun, nofun⟩
  rcases kept.file with found | ⟨missing, none, _⟩
  · exact .inl found
  · exact .inr ⟨missing, none, rfl⟩

theorem Kept.step {op : Op} (synced : deployment.Synced op) :
    Kept library (records ++ deployment.appended op) (deployment.step library op) := by
  have quiet : deployment.appended op = [] → Kept library records (deployment.step library op) →
      Kept library (records ++ deployment.appended op) (deployment.step library op) := by
    intro nothing after
    rwa [nothing, append_nil]
  cases op with
  | advance position append => exact kept.advance synced
  | openLog => exact quiet rfl kept.openLog
  | crash => exact quiet rfl kept.crash
  | shard shardId fault => exact quiet rfl (kept.same rfl rfl (fun _ => rfl) rfl)
  | begin =>
    refine quiet rfl ?_
    dsimp only [Deployment.step, Deployment.begin]
    cases up : deployment.coordinator with
    | none => exact kept
    | some coordinator =>
      refine kept.same rfl rfl (fun _ => rfl) ?_
      rw [up]
      rfl
  | read txnId shardId key =>
    refine quiet rfl ?_
    dsimp only [Deployment.step, Deployment.read]
    split
    · exact kept.same rfl rfl (fun _ => rfl) rfl
    · exact kept
  | commit txnId request =>
    refine quiet rfl ?_
    dsimp only [Deployment.step, Deployment.commit]
    cases up : deployment.coordinator with
    | none => exact kept
    | some coordinator =>
      obtain ⟨undecided, free⟩ := synced
      have memory : coordinator.decisions txnId = none := by
        rw [Deployment.decision, up] at undecided
        exact undecided
      have disk : durable records txnId = none := by
        rw [← kept.memory coordinator up txnId (fun call member same => absurd same (free call member))]
        exact memory
      constructor
      · exact kept.fits
      · rcases kept.file with found | ⟨_, _, down⟩
        · exact .inl found
        · rw [up] at down
          cases down
      · exact nofun
      · rw [pairwise_append]
        refine ⟨kept.distinct, pairwise_singleton _ _, ?_⟩
        intro call member other same
        rw [mem_singleton.mp same]
        exact free call member
      · intro new now call member
        cases now
        rcases mem_append.mp member with member | member
        · exact kept.calls coordinator up call member
        · rw [mem_singleton.mp member]
          dsimp only [CommitCall.start]
          split
          · exact ⟨memory, disk⟩
          · exact ⟨memory, disk⟩
      · intro new now other settled
        cases now
        apply kept.memory coordinator up other
        exact fun call member => settled call (mem_append_left _ member)
  | recover shardId order =>
    refine quiet rfl ?_
    dsimp only [Deployment.step]
    split
    · rename_i up
      refine kept.same rfl rfl (fun down => ?_) rfl
      rw [down] at up
      cases up
    · exact kept
  | resolve position => exact quiet rfl (kept.resolve position)
  | _ =>
    refine quiet rfl (kept.same rfl rfl (fun _ => rfl) ?_)
    exact map_map _ _ _

end Deployment

open LocalShard Deployment

theorem Site.setShard_shards {σ : Type} (site : Site σ) (target shardId : Nat) (shard : σ) :
    (site.setShard target shard).shards shardId = if shardId = target then shard else site.shards shardId :=
  Function.update_apply _ _ _ _

variable {site after : Site LocalShard} {shardId id ts : Nat} {library : Library} {ops : List WriteOp}

theorem LocalShard.setShard_raftLog {target : Nat} {shard : LocalShard} {command : RaftCommand} {found : Prop}
    (moved : command ∈ shard.raftLog → command ∈ (site.shards target).raftLog ∨ found)
    (logged : command ∈ ((site.setShard target shard).shards shardId).raftLog) :
    command ∈ (site.shards shardId).raftLog ∨ found := by
  rw [Site.setShard_shards] at logged
  split at logged
  · rename_i here
    rw [here]
    exact moved logged
  · exact .inl logged

section

variable (logged : .txnCommit id ts ops ∈ (after.shards shardId).raftLog)
include logged

theorem CommitCall.Moves.txnCommit {append : AppendResult} {call : CommitCall}
    {next : CommitCall ⊕ Except TakyonicError DistTxnOutcome}
    (moves : call.Moves library (participant library) append site after next) :
    .txnCommit id ts ops ∈ (site.shards shardId).raftLog ∨
      id = call.txnId ∧ ∃ rest, call.phase = .applying ts rest := by
  cases moves with
  | voted _ _ | refused _ =>
    exact setShard_raftLog (fun new => .inl (prepare_raftLog library new)) logged
  | rolledBack _ => exact setShard_raftLog (fun new => .inl (abort_raftLog new)) logged
  | applied phase | stuck phase =>
    refine setShard_raftLog (fun new => ?_) logged
    rcases commit_raftLog new with before | ⟨rfl, rfl⟩
    · exact .inl before
    · exact .inr ⟨rfl, _, phase⟩
  | _ => exact .inl logged

theorem RecoverCall.Moves.txnCommit {call : RecoverCall} {next : RecoverCall ⊕ Except TakyonicError Nat}
    (moves : call.Moves (participant library) site after next) :
    .txnCommit id ts ops ∈ (site.shards shardId).raftLog ∨ call.looked = some (id, some (.committed ts)) := by
  cases moves with
  | rolledBack _ _ _ => exact setShard_raftLog (fun new => .inl (abort_raftLog new)) logged
  | applied looked _ =>
    refine setShard_raftLog (fun new => ?_) logged
    rcases commit_raftLog new with before | ⟨rfl, rfl⟩
    · exact .inl before
    · exact .inr looked
  | _ => exact .inl logged

end

theorem LocalShard.suffer_raftLog (shard : LocalShard) (fault : ShardFault) :
    (shard.suffer fault).raftLog = shard.raftLog := by
  cases fault with
  | restart => exact shard.recoverFromRaftLog_log.1
  | _ => rfl

namespace Deployment

/-- Appends succeed, `commit` is called for an id that is neither decided nor in progress, and the process does
    not crash between remembering a decision and appending it. -/
def Careful (deployment : Deployment) (op : Op) : Prop :=
  deployment.Synced op ∧ (op = .crash → ∀ call ∈ deployment.commits, call.phase.pending = none)

instance (deployment : Deployment) (op : Op) : Decidable (deployment.Careful op) :=
  inferInstanceAs (Decidable (_ ∧ _))

def outcome (library : Library) (deployment : Deployment) (txnId : Nat) : Option CoordinatorDecision :=
  match deployment.coordinator with
  | some coordinator => coordinator.decisions txnId
  | none => (load library.xxh3 deployment.file).toOption.bind (·.decisions txnId)

variable {library : Library} {records : List TcDecisionRecord} {deployment : Deployment} {txnId : Nat}
  {decision : CoordinatorDecision} {op : Op} {ops : List Op}

theorem outcome_up {coordinator : TransactionCoordinator} (up : deployment.coordinator = some coordinator)
    (txnId : Nat) : deployment.outcome library txnId = coordinator.decisions txnId := by
  rw [outcome, up]

section

variable (kept : Kept library records deployment)
include kept

theorem Kept.outcome_down (down : deployment.coordinator = none) (txnId : Nat) :
    deployment.outcome library txnId = durable records txnId := by
  rw [outcome, down]
  rcases kept.file with found | ⟨missing, none, _⟩
  · rw [found, load_log library.xxh3 kept.fits]
    rfl
  · rw [missing, none]
    rfl

theorem Kept.advance_outcome {position : Nat} {append : AppendResult}
    (decided : deployment.outcome library txnId = some decision) :
    (deployment.advance library position append).outcome library txnId = some decision := by
  have advances := deployment.advance_advances library position append
  generalize deployment.advance library position append = result at advances ⊢
  cases advances with
  | idle _ => exact decided
  | @moved coordinator file front call back after next up disk calls here moves =>
    have stands := kept.calls coordinator up call (calls ▸ mem_append_cons_self)
    rw [outcome_up up] at decided
    exact ((moves.standing stands).1 txnId (.inr (decided ▸ nofun))).trans decided

theorem Kept.outcome_step (careful : deployment.Careful op)
    (decided : deployment.outcome library txnId = some decision) :
    (deployment.step library op).outcome library txnId = some decision := by
  cases op with
  | openLog =>
    dsimp only [Deployment.step]
    unfold Deployment.openLog
    cases up : deployment.coordinator with
    | some coordinator => exact decided
    | none =>
      rw [kept.outcome_down up] at decided
      rw [kept.opens]
      exact decided
  | crash =>
    rw [kept.crash.outcome_down rfl]
    cases up : deployment.coordinator with
    | none =>
      rw [← kept.outcome_down up]
      exact decided
    | some coordinator =>
      rw [outcome_up up, kept.memory coordinator up txnId (fun call member _ => careful.2 rfl call member)] at decided
      exact decided
  | shard shardId fault => exact decided
  | begin | commit _ _ =>
    dsimp only [Deployment.step, Deployment.begin, Deployment.commit]
    cases up : deployment.coordinator with
    | none => exact decided
    | some coordinator =>
      rw [outcome_up up] at decided
      exact decided
  | advance position append => exact kept.advance_outcome decided
  | read _ _ _ | recover _ _ =>
    dsimp only [Deployment.step, Deployment.read]
    split
    · exact decided
    · exact decided
  | resolve position =>
    dsimp only [Deployment.step]
    have resolves := deployment.resolve_resolves library position
    generalize deployment.resolve library position = result at resolves ⊢
    cases resolves with
    | idle => exact decided
    | moved up disk calls here moves =>
      rw [outcome_up up] at decided
      cases moves with
      | applied _ _ | rolledBack _ _ _ | skipped _ | lookedUp _ _ | finished _ => exact decided
  | _ =>
    unfold outcome at decided ⊢
    dsimp only [Deployment.step]
    cases up : deployment.coordinator with
    | none | some coordinator =>
      rw [up] at decided
      exact decided

end

structure Final (library : Library) (deployment : Deployment) : Prop where
  kept : ∃ records, Kept library records deployment
  applied : ∀ shardId id ts ops, .txnCommit id ts ops ∈ (deployment.shards shardId).raftLog →
    deployment.outcome library id = some (.committed ts)
  looked : ∀ call ∈ deployment.recoveries, ∀ id ts, call.looked = some (id, some (.committed ts)) →
    deployment.outcome library id = some (.committed ts)

theorem fresh_final (library : Library) : Final library fresh where
  kept := ⟨[], fresh_kept library⟩
  applied _ _ _ _ logged := nomatch logged
  looked _ member := nomatch member

theorem Final.step (final : Final library deployment) (careful : deployment.Careful op) :
    Final library (deployment.step library op) := by
  obtain ⟨⟨records, kept⟩, applied, looked⟩ := final
  have lasting : ∀ {id ts}, deployment.outcome library id = some (.committed ts) →
      (deployment.step library op).outcome library id = some (.committed ts) := kept.outcome_step careful
  refine ⟨⟨_, kept.step careful.1⟩, ?_, ?_⟩
  · intro shardId id ts ops logged
    apply lasting
    cases op with
    | shard target fault =>
      apply applied shardId id ts ops
      dsimp only [step] at logged
      rw [Function.update_apply] at logged
      split at logged
      · rename_i here
        rw [here]
        exact (suffer_raftLog _ fault) ▸ logged
      · exact logged
    | advance position append =>
      have advances := deployment.advance_advances library position append
      dsimp only [step] at logged
      generalize deployment.advance library position append = result at advances logged
      cases advances with
      | idle _ => exact applied shardId id ts ops logged
      | @moved coordinator file front call back after next up disk calls here moves =>
        rcases moves.txnCommit logged with before | ⟨rfl, rest, phase⟩
        · exact applied shardId id ts ops before
        · have stands := kept.calls coordinator up call (calls ▸ mem_append_cons_self)
          rw [phase] at stands
          exact (outcome_up up _).trans stands.1
    | resolve position =>
      have resolves := deployment.resolve_resolves library position
      dsimp only [step] at logged
      generalize deployment.resolve library position = result at resolves logged
      cases resolves with
      | idle => exact applied shardId id ts ops logged
      | @moved coordinator file front call back after next up disk calls here moves =>
        rcases moves.txnCommit logged with before | found
        · exact applied shardId id ts ops before
        · exact looked call (calls ▸ mem_append_cons_self) id ts found
    | _ =>
      rw [deployment.step_shards library rfl] at logged
      exact applied shardId id ts ops logged
  · intro call member id ts found
    apply lasting
    cases op with
    | crash => cases member
    | recover target order =>
      dsimp only [step] at member
      split at member
      · rcases mem_append.mp member with member | member
        · exact looked call member id ts found
        · rw [mem_singleton.mp member] at found
          cases found
      · exact looked call member id ts found
    | resolve position =>
      have resolves := deployment.resolve_resolves library position
      dsimp only [step] at member
      generalize deployment.resolve library position = result at resolves member
      cases resolves with
      | idle => exact looked call member id ts found
      | @moved coordinator file front call' back after next up disk calls here moves =>
        rcases mem_changed member with present | new
        · exact looked call (calls ▸ present) id ts found
        obtain rfl := Sum.getLeft?_eq_some_iff.mp new
        cases moves with
        | applied _ cleared | rolledBack _ _ cleared =>
          rw [cleared call rfl] at found
          cases found
        | skipped _ => cases found
        | lookedUp _ _ =>
          obtain ⟨rfl, decided⟩ := Prod.mk.inj (Option.some.inj found)
          exact (outcome_up up _).trans decided
    | _ =>
      rw [deployment.step_recoveries library rfl] at member
      exact looked call member id ts found

theorem run_final (library : Library) (careful : Along (step library) Careful fresh ops) :
    Final library (run (step library) fresh ops) :=
  careful.invariant (fresh_final library) (fun _ _ final here => final.step here)

theorem run_outcome (library : Library) {start : Deployment} (careful : Along (step library) Careful start ops)
    (final : Final library start) (decided : start.outcome library txnId = some decision) :
    (run (step library) start ops).outcome library txnId = some decision := by
  induction ops generalizing start with
  | nil => exact decided
  | cons op ops ih =>
    obtain ⟨records, kept⟩ := final.kept
    exact ih careful.2 (final.step careful.1) (kept.outcome_step careful.1 decided)

/-- Decisions are final, over crashes and reopenings too, once every append succeeds, no crash falls between a
    decision in memory and its append, and `commit` is called only for ids that are neither decided nor in
    progress. -/
theorem run_decision_final (library : Library) (first second : List Op)
    (careful : Along (step library) Careful fresh (first ++ second))
    (up : (run (step library) fresh (first ++ second)).coordinator.isSome) :
    let before := run (step library) fresh first
    let after := run (step library) fresh (first ++ second)
    (∀ txnId decision, before.decision txnId = some decision → after.decision txnId = some decision) ∧
      ∀ shardId txnId commitTs writes, .txnCommit txnId commitTs writes ∈ (before.shards shardId).raftLog →
        after.decision txnId = some (.committed commitTs) := by
  intro before after
  obtain ⟨early, late⟩ := Along.append.mp careful
  have final : Final library before := run_final library early
  obtain ⟨coordinator, running⟩ := Option.isSome_iff_exists.mp up
  have lasting : ∀ {txnId decision}, before.outcome library txnId = some decision →
      after.decision txnId = some decision := by
    intro txnId decision decided
    have later := run_outcome library late final decided
    rw [← run_append, outcome_up running] at later
    show (run (step library) fresh (first ++ second)).coordinator.bind _ = _
    rw [running]
    exact later
  refine ⟨fun txnId decision decided => lasting ?_, ?_⟩
  · obtain ⟨coordinator, running, found⟩ := Option.bind_eq_some_iff.mp decided
    exact (outcome_up running _).trans found
  · exact fun shardId txnId commitTs writes logged => lasting (final.applied shardId txnId commitTs writes logged)

def decideOne : List Op :=
  [.openLog, .register 0, .begin, .commit 1 ⟨1, [⟨0, [(⟨[107]⟩, some ⟨[118]⟩)], []⟩]⟩, .advance 0 .synced,
    .advance 0 .synced, .advance 0 .synced]

/-- The append succeeds, the shard applies, and the decision is there after a crash. -/
theorem run_decision_final_reopened :
    let after := run (step .plain) fresh (decideOne ++ ([.advance 0 .synced, .advance 0 .synced, .advance 0 .synced] ++
      [.crash, .openLog]))
    after.decision 1 = some (.committed 2) := by
  intro after
  have final := run_decision_final .plain decideOne
    ([.advance 0 .synced, .advance 0 .synced, .advance 0 .synced] ++ [.crash, .openLog]) (by decide +kernel)
    (by decide +kernel)
  exact final.1 1 (.committed 2) (by decide +kernel)

/-- The append fails after the decision has been put in memory, where it is already visible; after a crash it
    is gone. -/
theorem decision_lost :
    let before := run (step .plain) fresh (decideOne ++ [.advance 0 (.failed 0)])
    let after := run (step .plain) fresh (decideOne ++ [.advance 0 (.failed 0)] ++ [.crash, .openLog])
    before.decision 1 = some (.committed 2) ∧ after.coordinator.isSome ∧ after.decision 1 = none := by
  decide +kernel

end Deployment

end Takyonic
