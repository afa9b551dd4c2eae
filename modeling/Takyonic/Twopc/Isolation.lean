import Takyonic.Twopc.Deployment

namespace Takyonic

open Foundation TcDecisionLog List Function LocalShard

def CommitPhase.issued : CommitPhase → Option Nat
  | .remembering commitTs | .recording commitTs | .decided commitTs | .applying commitTs _ => some commitTs
  | _ => none

def CommitCall.unapplied (call : CommitCall) : List ShardBranch :=
  match call.phase with
  | .applying _ rest => rest
  | _ => call.request.branches

open CommitCall

def CommitCall.Avoids (call : CommitCall) (readTs shardId : Nat) (key : Key) : Prop :=
  ∀ commitTs ∈ call.phase.issued, commitTs ≤ readTs → ∀ branch ∈ call.unapplied, branch.shardId = shardId →
    key ∉ branch.writes.map Prod.fst

instance (call : CommitCall) (readTs shardId : Nat) (key : Key) : Decidable (call.Avoids readTs shardId key) :=
  inferInstanceAs (Decidable (∀ _ ∈ _, _))

def CommitPhase.Guarded (shards : Nat → LocalShard) (clock txnId : Nat) (request : DistTxnRequest)
    (recorded : Option Nat) : CommitPhase → Prop
  | .preparing rest _ => recorded = none ∧ ∃ done, request.branches = done ++ rest ∧
      ∀ branch ∈ done, (shards branch.shardId).Guards txnId request.readTs branch.writes
  | .aborting _ _ | .recordingAbort _ => recorded = none
  | .remembering commitTs | .recording commitTs => recorded = none ∧ request.readTs < commitTs ∧ commitTs < clock ∧
      ∀ branch ∈ request.branches, (shards branch.shardId).Guards txnId request.readTs branch.writes
  | .decided commitTs => recorded = some commitTs ∧ request.readTs < commitTs ∧ commitTs < clock ∧
      ∀ branch ∈ request.branches, (shards branch.shardId).Guards txnId request.readTs branch.writes
  | .applying commitTs rest => recorded = some commitTs ∧ request.readTs < commitTs ∧ commitTs < clock ∧
      (∃ done, request.branches = done ++ rest) ∧
      ∀ branch ∈ rest, (shards branch.shardId).Guards txnId request.readTs branch.writes

/-- `after` still guards what `before` guards for other transactions. -/
def LocalShard.Spares (txnId : Nat) (before after : LocalShard) : Prop :=
  ∀ id readTs writes, id ≠ txnId → before.Guards id readTs writes → after.Guards id readTs writes

/-- The call after a step, with no read disturbed that is below the clock. -/
structure CommitCall.Follows (shards : Nat → LocalShard) (clock clock' : Nat) (recorded : Option Nat)
    (call call' : CommitCall) : Prop where
  txnId : call'.txnId = call.txnId
  request : call'.request = call.request
  guarded : call'.phase.Guarded shards clock' call.txnId call.request recorded
  avoids : ∀ readTs < clock, ∀ shardId key, call.Avoids readTs shardId key → call'.Avoids readTs shardId key

variable {request : DistTxnRequest} {shards shards' : Nat → LocalShard}
  {clock clock' txnId id commitTs shardId : Nat} {audit : Audit}

theorem CommitPhase.Guarded.congr {recorded : Option Nat} {phase : CommitPhase}
    (guarded : phase.Guarded shards clock txnId request recorded) (later : clock ≤ clock')
    (guards : ∀ shardId writes, (shards shardId).Guards txnId request.readTs writes →
      (shards' shardId).Guards txnId request.readTs writes) :
    phase.Guarded shards' clock' txnId request recorded := by
  cases phase with
  | preparing rest prepared =>
    obtain ⟨undecided, done, whole, all⟩ := guarded
    exact ⟨undecided, done, whole, fun branch member => guards _ _ (all branch member)⟩
  | aborting _ _ | recordingAbort _ => exact guarded
  | applying _ _ =>
    obtain ⟨known, after, issued, whole, all⟩ := guarded
    exact ⟨known, after, lt_of_lt_of_le issued later, whole, fun branch member => guards _ _ (all branch member)⟩
  | _ =>
    obtain ⟨known, after, issued, all⟩ := guarded
    exact ⟨known, after, lt_of_lt_of_le issued later, fun branch member => guards _ _ (all branch member)⟩

theorem Audit.noteShard_frame (audit : Audit) (shardId : Nat) (before after : LocalShard) :
    ∃ holder applied, audit.noteShard shardId before after = { audit with holder, applied } := by
  unfold noteShard
  induction after.raftLog.drop before.raftLog.length generalizing audit with
  | nil => exact ⟨audit.holder, audit.applied, rfl⟩
  | cons command rest ih =>
    obtain ⟨holder, applied, same⟩ := ih (audit.note shardId command)
    refine ⟨holder, applied, same.trans ?_⟩
    unfold note
    split <;> rfl

/-- Snapshot isolation as it stands in the middle of a run of one coordinator. -/
structure Isolation (shards : Nat → LocalShard) (coordinator : TransactionCoordinator) (commits : List CommitCall)
    (audit : Audit) : Prop where
  begun : ∀ id readTs, audit.snapshots (audit.txn id) = some readTs →
    readTs < coordinator.clock ∧ id < coordinator.nextTxn
  called : ∀ id request, audit.requests (audit.txn id) = some request →
    audit.snapshots (audit.txn id) = some request.readTs ∧ (request.branches.map ShardBranch.shardId).Nodup
  distinct : commits.Pairwise fun first second => first.txnId ≠ second.txnId
  ordered : ∀ shardId, (shards shardId).Ordered coordinator.clock
  calls : ∀ call ∈ commits, audit.requests (audit.txn call.txnId) = some call.request ∧
    call.phase.Guarded shards coordinator.clock call.txnId call.request (audit.recorded (audit.txn call.txnId))
  settled : ∀ id commitTs, audit.recorded (audit.txn id) = some commitTs →
    ∃ request, audit.requests (audit.txn id) = some request ∧ request.readTs < commitTs ∧
      ∀ branch ∈ request.branches, (shards branch.shardId).Guards id request.readTs branch.writes ∨
        (shards branch.shardId).Applied request.readTs commitTs branch.writes
  sources : ∀ shardId key, ∀ version ∈ (shards shardId).store key, ∃ id request,
    audit.recorded (audit.txn id) = some version.1 ∧ audit.requests (audit.txn id) = some request ∧
      ∃ branch ∈ request.branches, branch.shardId = shardId ∧ key ∈ branch.writes.map Prod.fst
  reads : ∀ read ∈ audit.reads, ∃ id readTs, read.txn = audit.txn id ∧
    audit.snapshots (audit.txn id) = some readTs ∧ (shards read.shardId).getAt read.key readTs = read.value ∧
    ∀ call ∈ commits, call.Avoids readTs read.shardId read.key

namespace Isolation

variable {shards shards' : Nat → LocalShard} {coordinator coordinator' : TransactionCoordinator}
  {commits front back : List CommitCall} {call : CommitCall} {audit : Audit} {next : Option CommitCall}
  {shardId clock : Nat} {shard : LocalShard} {txnId commitTs : Nat} {branch : ShardBranch}

theorem moved {recorded : Txn → Option Nat} {holder : Nat → Nat → Nat} {applied : List AppliedBranch}
    (isolation : Isolation shards coordinator (front ++ call :: back) audit)
    (later : coordinator.clock ≤ coordinator'.clock) (ids : coordinator.nextTxn = coordinator'.nextTxn)
    (ordered : ∀ shardId, (shards' shardId).Ordered coordinator'.clock)
    (stores : ∀ shardId, (shards' shardId).store = (shards shardId).store)
    (others : ∀ shardId, Spares call.txnId (shards shardId) (shards' shardId))
    (elsewhere : ∀ id, id ≠ call.txnId → recorded (audit.txn id) = audit.recorded (audit.txn id))
    (grown : ∀ commitTs, audit.recorded (audit.txn call.txnId) = some commitTs →
      recorded (audit.txn call.txnId) = some commitTs)
    (settled : ∀ commitTs, recorded (audit.txn call.txnId) = some commitTs → call.request.readTs < commitTs ∧
      ∀ branch ∈ call.request.branches,
        (shards' branch.shardId).Guards call.txnId call.request.readTs branch.writes ∨
          (shards' branch.shardId).Applied call.request.readTs commitTs branch.writes)
    (own : ∀ call' ∈ next, call.Follows shards' coordinator.clock coordinator'.clock
      (recorded (audit.txn call.txnId)) call') :
    Isolation shards' coordinator' (front ++ (next.toList ++ back)) { audit with recorded, holder, applied } := by
  have here : call ∈ front ++ call :: back := mem_append_right _ mem_cons_self
  obtain ⟨sent, _⟩ := isolation.calls call here
  constructor
  · intro id readTs found
    obtain ⟨below, known⟩ := isolation.begun id readTs found
    exact ⟨lt_of_lt_of_le below later, ids ▸ known⟩
  · exact isolation.called
  · exact pairwise_replaced isolation.distinct (fun call' present => (own call' present).txnId)
  · exact ordered
  · intro other present
    rcases mem_replaced isolation.distinct present with ⟨present, apart⟩ | present
    · obtain ⟨sent, guarded⟩ := isolation.calls other present
      rw [← elsewhere other.txnId apart] at guarded
      exact ⟨sent, guarded.congr later (fun shardId writes => others shardId _ _ writes apart)⟩
    · have follows := own other present
      rw [follows.txnId, follows.request]
      exact ⟨sent, follows.guarded⟩
  · intro id commitTs found
    by_cases mine : id = call.txnId
    · subst mine
      exact ⟨call.request, sent, settled commitTs found⟩
    obtain ⟨request, requested, after, all⟩ := isolation.settled id commitTs ((elsewhere id mine).symm.trans found)
    refine ⟨request, requested, after, fun branch inside => ?_⟩
    rcases all branch inside with guards | ⟨group, older⟩
    · exact .inl (others _ id _ _ mine guards)
    right
    constructor
    · rw [stores]
      exact group
    · rw [stores]
      exact older
  · intro shardId key version inside
    rw [stores] at inside
    obtain ⟨id, request, found, requested, source⟩ := isolation.sources shardId key version inside
    refine ⟨id, request, ?_, requested, source⟩
    by_cases mine : id = call.txnId
    · subst mine
      exact grown _ found
    · exact (elsewhere id mine).trans found
  · intro read member
    obtain ⟨id, readTs, ofTxn, snapshot, value, avoids⟩ := isolation.reads read member
    refine ⟨id, readTs, ofTxn, snapshot, ?_, ?_⟩
    · rw [← value, getAt, stores]
      rfl
    · intro other present
      rcases mem_replaced isolation.distinct present with ⟨present, _⟩ | present
      · exact avoids other present
      · exact (own other present).avoids readTs (isolation.begun id readTs snapshot).1 _ _ (avoids call here)

theorem update_others (kept : Spares txnId (shards shardId) shard) (other : Nat) :
    Spares txnId (shards other) (update shards shardId shard other) :=
  (forall_update_iff shards fun other shard => Spares txnId (shards other) shard).mpr
    ⟨kept, fun _ _ _ _ _ _ guards => guards⟩ other

theorem update_ordered (ordered : ∀ other, (shards other).Ordered clock)
    (kept : shard.Ordered clock) : ∀ other, (update shards shardId shard other).Ordered clock :=
  (forall_update_iff shards fun _ shard => shard.Ordered clock).mpr ⟨kept, fun other _ => ordered other⟩

theorem update_stores (kept : shard.store = (shards shardId).store) :
    ∀ other, (update shards shardId shard other).store = (shards other).store :=
  (forall_update_iff shards fun other shard => shard.store = (shards other).store).mpr ⟨kept, fun _ _ => rfl⟩

theorem applies (isolation : Isolation shards coordinator commits audit)
    (recorded : audit.recorded (audit.txn txnId) = some commitTs)
    (sent : audit.requests (audit.txn txnId) = some request) (inside : branch ∈ request.branches)
    (guards : (shards branch.shardId).Guards txnId request.readTs branch.writes)
    (after : request.readTs < commitTs) (issued : commitTs < coordinator.clock)
    (apart : ∀ call ∈ commits, call.txnId = txnId → ∃ rest, call.phase = .applying commitTs rest ∧
      ∀ other ∈ rest, other.shardId ≠ branch.shardId)
    (hidden : ∀ read ∈ audit.reads, ∀ readTs, audit.snapshots read.txn = some readTs →
      read.shardId = branch.shardId → read.key ∈ branch.writes.map Prod.fst → readTs < commitTs) :
    Isolation (update shards branch.shardId ((shards branch.shardId).commit txnId commitTs).1) coordinator
      commits audit := by
  have others := @update_others shards branch.shardId _ txnId fun _ _ _ other held =>
    held.commit (isolation.ordered _) other commitTs
  refine { isolation with ordered := ?_, calls := ?_, settled := ?_, sources := ?_, reads := ?_ }
  · exact update_ordered isolation.ordered ((isolation.ordered _).commit guards after issued)
  · intro call member
    obtain ⟨requested, guarded⟩ := isolation.calls call member
    refine ⟨requested, ?_⟩
    by_cases mine : call.txnId = txnId
    · obtain ⟨rest, phase, away⟩ := apart call member mine
      rw [phase] at guarded ⊢
      obtain ⟨known, above, below, whole, all⟩ := guarded
      refine ⟨known, above, below, whole, fun other inRest => ?_⟩
      rw [update_of_ne (away other inRest)]
      exact all other inRest
    · exact guarded.congr le_rfl (fun shardId writes => others shardId _ _ writes mine)
  · intro id ts found
    obtain ⟨request', requested, above, all⟩ := isolation.settled id ts found
    refine ⟨request', requested, above, fun other member => ?_⟩
    by_cases target : other.shardId = branch.shardId
    · by_cases mine : id = txnId
      · subst mine
        cases recorded.symm.trans found
        cases sent.symm.trans requested
        have single := inj_on_of_nodup_map (isolation.called id request sent).2 member inside target
        subst single
        rw [update_self]
        exact guards.applied after
      · rcases all other member with held | applied
        · exact .inl (others _ id _ _ mine held)
        · right
          rw [target, update_self]
          rw [target] at applied
          exact applied.commit guards after
    · rw [update_of_ne target]
      exact all other member
  · intro shardId key version member
    by_cases target : shardId = branch.shardId
    · subst target
      rw [update_self] at member
      rcases commit_store guards.held commitTs with same | moved
      · rw [same] at member
        exact isolation.sources _ key version member
      · rw [moved] at member
        rcases mem_append.mp member with member | member
        · exact isolation.sources _ key version member
        · obtain ⟨sameTs, written⟩ := mem_versions.mp member
          exact ⟨txnId, request, sameTs ▸ recorded, sent, branch, inside, rfl, mem_map_of_mem written⟩
    · rw [update_of_ne target] at member
      exact isolation.sources shardId key version member
  · intro read member
    obtain ⟨id, readTs, ofTxn, snapshot, value, avoids⟩ := isolation.reads read member
    refine ⟨id, readTs, ofTxn, snapshot, ?_, avoids⟩
    by_cases target : read.shardId = branch.shardId
    · rw [target, update_self, guards.getAt read.key, ← target]
      · exact value
      · exact hidden read member readTs (ofTxn ▸ snapshot) target
    · rw [update_of_ne target]
      exact value

variable (isolation : Isolation shards coordinator (front ++ call :: back) audit)
include isolation

theorem rephased (later : coordinator.clock ≤ coordinator'.clock)
    (ids : coordinator.nextTxn = coordinator'.nextTxn) (holder : Nat → Nat → Nat) (applied : List AppliedBranch)
    (own : ∀ call' ∈ next, call.Follows shards coordinator.clock coordinator'.clock
      (audit.recorded (audit.txn call.txnId)) call') :
    Isolation shards coordinator' (front ++ (next.toList ++ back)) { audit with holder, applied } := by
  obtain ⟨sent, _⟩ := isolation.calls call (mem_append_right _ mem_cons_self)
  refine isolation.moved later ids (fun shardId => (isolation.ordered shardId).mono later) (fun _ => rfl)
    (fun _ _ _ _ _ guards => guards) (fun _ _ => rfl) (fun _ found => found) ?_ own
  intro commitTs found
  obtain ⟨request, requested, settled⟩ := isolation.settled call.txnId commitTs found
  cases sent.symm.trans requested
  exact settled

theorem served (undecided : audit.recorded (audit.txn call.txnId) = none) (holder : Nat → Nat → Nat)
    (applied : List AppliedBranch) (ordered : shard.Ordered coordinator.clock)
    (store : shard.store = (shards shardId).store) (others : Spares call.txnId (shards shardId) shard)
    (own : ∀ call' ∈ next, call'.txnId = call.txnId ∧ call'.request = call.request ∧
      call'.phase.Guarded (update shards shardId shard) coordinator.clock call.txnId call.request none ∧
      call'.phase.issued = none) :
    Isolation (update shards shardId shard) coordinator (front ++ (next.toList ++ back))
      { audit with holder, applied } := by
  refine isolation.moved le_rfl rfl (update_ordered isolation.ordered ordered) (update_stores store)
    (update_others others) (fun _ _ => rfl) (fun _ found => found) ?_ ?_
  · intro commitTs found
    rw [undecided] at found
    cases found
  · intro call' present
    obtain ⟨sameId, sameRequest, guarded, unissued⟩ := own call' present
    rw [undecided]
    refine ⟨sameId, sameRequest, guarded, ?_⟩
    intro readTs _ shardId key _ commitTs issued
    rw [unissued] at issued
    cases issued

theorem reaches {rest : List ShardBranch} (phase : call.phase = .applying commitTs (branch :: rest))
    (holder : Nat → Nat → Nat) (applied : List AppliedBranch)
    (own : ∀ call' ∈ next, call' = { call with phase := .applying commitTs rest }) :
    Isolation (update shards branch.shardId ((shards branch.shardId).commit call.txnId commitTs).1) coordinator
      (front ++ (next.toList ++ back)) { audit with holder, applied } := by
  have here : call ∈ front ++ call :: back := mem_append_right _ mem_cons_self
  obtain ⟨sent, guarded⟩ := isolation.calls call here
  rw [phase] at guarded
  obtain ⟨known, after, issued, ⟨done, whole⟩, all⟩ := guarded
  have distinct := (isolation.called call.txnId call.request sent).2
  rw [whole, map_append, nodup_append, map_cons, nodup_cons] at distinct
  -- the call first passes over its branch, then the shard applies it
  have passed : Isolation shards coordinator (front ++ (next.toList ++ back)) { audit with holder, applied } := by
    refine isolation.rephased le_rfl rfl holder applied ?_
    intro call' present
    rw [own call' present]
    refine ⟨rfl, rfl, ⟨known, after, issued, ⟨done ++ [branch], by rw [whole, append_assoc]; rfl⟩, ?_⟩, ?_⟩
    · exact fun other inRest => all other (mem_cons_of_mem _ inRest)
    · intro readTs _ shardId key avoids
      unfold Avoids unapplied at avoids ⊢
      rw [phase] at avoids
      exact fun ts drawn inside other inRest => avoids ts drawn inside other (mem_cons_of_mem _ inRest)
  have inside : branch ∈ call.request.branches := by
    rw [whole]
    exact mem_append_right _ mem_cons_self
  refine passed.applies known sent inside (all branch mem_cons_self) after issued ?_ ?_
  · intro other present same
    have mine : other ∈ next := (mem_replaced isolation.distinct present).resolve_left (fun found => found.2 same)
    refine ⟨rest, by rw [own other mine], fun later inRest target => distinct.2.1.1 ?_⟩
    rw [← target]
    exact mem_map_of_mem inRest
  · intro read member readTs snapshot target written
    obtain ⟨id, ts, ofTxn, found, _, avoids⟩ := isolation.reads read member
    rw [ofTxn] at snapshot
    cases found.symm.trans snapshot
    have free := avoids call here
    unfold Avoids unapplied at free
    rw [phase] at free
    by_contra late
    exact free commitTs rfl (le_of_not_gt late) branch mem_cons_self target.symm written

end Isolation

namespace Deployment

/-- The steps of transactions under one coordinator: each `commit` is the first call for a transaction it has
    begun, at its snapshot and with one branch for each shard, and a read finds no commit call that has drawn a
    timestamp inside the snapshot and still has to apply the key. -/
def Settled (deployment : Deployment) : Op → Prop
  | .openLog | .register _ | .begin | .advance _ _ => True
  | .read txnId shardId key => ∀ readTs ∈ deployment.audit.snapshots (deployment.audit.txn txnId),
      ∀ call ∈ deployment.commits, call.Avoids readTs shardId key
  | .commit txnId request => deployment.audit.snapshots (deployment.audit.txn txnId) = some request.readTs ∧
      deployment.audit.requests (deployment.audit.txn txnId) = none ∧
      (request.branches.map ShardBranch.shardId).Nodup
  | .crash | .injectCrashAfterDecide _ | .shard _ _ | .recover _ _ | .resolve _ => False

instance (deployment : Deployment) (op : Op) : Decidable (deployment.Settled op) := by
  rcases op with ⟨⟩ <;> unfold Settled <;> infer_instance

def Isolated (deployment : Deployment) : Prop :=
  ∃ coordinator, deployment.coordinator = some coordinator ∧
    Isolation deployment.shards coordinator deployment.commits deployment.audit

variable {library : Library} {deployment : Deployment} {txnId shardId : Nat}

theorem opened_isolated (library : Library) : (fresh.openLog library).Isolated := by
  refine ⟨_, rfl, ?_⟩
  constructor
  · exact nofun
  · exact nofun
  · exact List.Pairwise.nil
  · exact fun shardId => ⟨fun _ => List.Pairwise.nil, nofun, nofun, TwopcTables.empty_exclusive⟩
  · exact nofun
  · exact nofun
  · exact nofun
  · exact nofun

variable (isolated : deployment.Isolated)
include isolated

theorem Isolated.advance (position : Nat) (append : AppendResult) :
    (deployment.advance library position append).Isolated := by
  have advances := deployment.advance_advances library position append
  generalize deployment.advance library position append = result at advances ⊢
  cases advances with
  | idle _ => exact isolated
  | @moved coordinator file front call back after next up disk calls here moves =>
    obtain ⟨running, same, isolation⟩ := isolated
    cases up.symm.trans same
    rw [calls] at isolation
    obtain ⟨sent, guarded⟩ := isolation.calls call (mem_append_right _ mem_cons_self)
    obtain ⟨snapshot, distinct⟩ := isolation.called call.txnId call.request sent
    refine ⟨after.coordinator, rfl, ?_⟩
    obtain ⟨audit, noted⟩ : ∃ audit, (call.phase.shard.elim deployment.audit fun shardId =>
        deployment.audit.noteShard shardId (deployment.shards shardId) (after.shards shardId)) = audit := ⟨_, rfl⟩
    obtain ⟨holder, applied, frame⟩ : ∃ holder applied, audit = { deployment.audit with holder, applied } := by
      rw [← noted]
      cases call.phase.shard with
      | none => exact ⟨_, _, rfl⟩
      | some shardId => exact deployment.audit.noteShard_frame shardId _ _
    rw [noted, frame]
    have avoided : ∀ {phase}, call.phase.issued = phase.issued →
        call.unapplied = ({ call with phase } : CommitCall).unapplied → ∀ readTs < coordinator.clock, ∀ shardId key,
          call.Avoids readTs shardId key → ({ call with phase } : CommitCall).Avoids readTs shardId key := by
      intro phase issued unapplied readTs _ shardId key avoids
      unfold Avoids at avoids ⊢
      rwa [issued, unapplied] at avoids
    cases moves with
    | unknown phase _ =>
      rw [phase] at guarded
      refine isolation.rephased le_rfl rfl holder applied ?_
      rintro call' ⟨⟩
      exact ⟨rfl, rfl, guarded.1, nofun⟩
    | @voted branch rest prepared phase answer =>
      rw [phase] at guarded
      obtain ⟨undecided, done, whole, all⟩ := guarded
      refine isolation.served undecided holder applied ((isolation.ordered _).prepare library _ _ _ _)
        (prepare_store library) (fun _ _ _ apart guards => guards.prepare library apart _ _ _) ?_
      rintro call' ⟨⟩
      refine ⟨rfl, rfl, ⟨rfl, done ++ [branch], by rw [whole, append_assoc]; rfl, ?_⟩, rfl⟩
      intro earlier member
      rcases mem_append.mp member with member | member
      · rw [update_of_ne (ShardBranch.apart (whole ▸ distinct) member)]
        exact all earlier member
      · rw [mem_singleton.mp member, update_self]
        exact (isolation.ordered _).guards library answer
    | refused phase =>
      rw [phase] at guarded
      refine isolation.served guarded.1 holder applied ((isolation.ordered _).prepare library _ _ _ _)
        (prepare_store library) (fun _ _ _ apart guards => guards.prepare library apart _ _ _) ?_
      rintro call' ⟨⟩
      exact ⟨rfl, rfl, rfl, rfl⟩
    | rolledBack phase =>
      rw [phase] at guarded
      refine isolation.served guarded holder applied ((isolation.ordered _).abort _) (abort_store _)
        (fun _ _ _ apart guards => guards.abort apart) ?_
      rintro call' ⟨⟩
      exact ⟨rfl, rfl, rfl, rfl⟩
    | rememberedAbort phase =>
      rw [phase] at guarded
      refine isolation.rephased (by exact le_rfl) (by rfl) holder applied ?_
      rintro call' ⟨⟩
      exact ⟨rfl, rfl, guarded, nofun⟩
    | ticked phase =>
      rw [phase] at guarded
      obtain ⟨undecided, done, whole, all⟩ := guarded
      rw [append_nil] at whole
      refine isolation.rephased (by exact Nat.le_succ _) (by rfl) holder applied ?_
      rintro call' ⟨⟩
      refine ⟨rfl, rfl, ⟨undecided, (isolation.begun _ _ snapshot).1, Nat.lt_succ_self _, whole ▸ all⟩, ?_⟩
      rintro readTs below shardId key _ commitTs ⟨⟩ inside
      exact absurd inside (not_le_of_gt below)
    | remembered phase =>
      rw [phase] at guarded
      refine isolation.rephased (by exact le_rfl) (by rfl) holder applied ?_
      rintro call' ⟨⟩
      exact ⟨rfl, rfl, guarded, avoided (by rw [phase]; rfl) (by rw [unapplied, phase]; rfl)⟩
    | @recorded commitTs file phase appended =>
      rw [phase] at guarded
      obtain ⟨undecided, after, issued, all⟩ := guarded
      have newest : update deployment.audit.recorded (deployment.audit.txn call.txnId) (some commitTs)
          (deployment.audit.txn call.txnId) = some commitTs := update_self _ _ _
      refine isolation.moved le_rfl rfl isolation.ordered (fun _ => rfl) (fun _ _ _ _ _ guards => guards)
        (fun id other => update_of_ne (fun same => other (Txn.mk.inj same).2) _ _) ?_ ?_ ?_
      · intro ts found
        rw [undecided] at found
        cases found
      · intro ts found
        cases newest.symm.trans found
        exact ⟨after, fun branch inside => .inl (all branch inside)⟩
      · rintro call' ⟨⟩
        exact ⟨rfl, rfl, ⟨newest, after, issued, all⟩, avoided (by rw [phase]; rfl) (by rw [unapplied, phase]; rfl)⟩
    | proceeded phase =>
      rw [phase] at guarded
      obtain ⟨known, after, issued, all⟩ := guarded
      refine isolation.rephased (by exact le_rfl) (by rfl) holder applied ?_
      rintro call' ⟨⟩
      exact ⟨rfl, rfl, ⟨known, after, issued, ⟨[], rfl⟩, all⟩,
        avoided (by rw [phase]; rfl) (by rw [unapplied, phase]; rfl)⟩
    | applied phase =>
      refine isolation.reaches phase holder applied ?_
      rintro call' ⟨⟩
      rfl
    | stuck phase =>
      refine isolation.reaches phase holder applied ?_
      rintro call' ⟨⟩
    | _ =>
      refine isolation.rephased (by exact le_rfl) (by rfl) holder applied ?_
      rintro call' ⟨⟩

theorem Isolated.begin : deployment.begin.Isolated := by
  obtain ⟨coordinator, up, isolation⟩ := isolated
  unfold Deployment.begin
  rw [up]
  refine ⟨_, rfl, ?_⟩
  have fresh : ∀ {id readTs}, deployment.audit.snapshots (deployment.audit.txn id) = some readTs →
      (deployment.audit.noteBegin coordinator.nextTxn coordinator.clock).snapshots (deployment.audit.txn id) =
        some readTs := by
    intro id readTs found
    have older : deployment.audit.txn id ≠ deployment.audit.txn coordinator.nextTxn := by
      intro same
      exact absurd (isolation.begun id readTs found).2 (not_lt_of_ge (le_of_eq (Txn.mk.inj same).2.symm))
    exact (update_of_ne older _ _).trans found
  refine { isolation with begun := ?_, called := ?_, ordered := ?_, calls := ?_, reads := ?_ }
  · intro id readTs found
    by_cases newest : deployment.audit.txn id = deployment.audit.txn coordinator.nextTxn
    · cases (Txn.mk.inj newest).2
      cases (deployment.audit.noteBegin_self coordinator.nextTxn coordinator.clock).symm.trans found
      exact ⟨Nat.lt_succ_self _, Nat.lt_succ_self _⟩
    · obtain ⟨below, known⟩ := isolation.begun id readTs ((update_of_ne newest _ _).symm.trans found)
      exact ⟨Nat.lt_succ_of_lt below, Nat.lt_succ_of_lt known⟩
  · intro id request sent
    obtain ⟨snapshot, distinct⟩ := isolation.called id request sent
    exact ⟨fresh snapshot, distinct⟩
  · exact fun shardId => (isolation.ordered shardId).mono (Nat.le_succ _)
  · intro call member
    obtain ⟨sent, guarded⟩ := isolation.calls call member
    exact ⟨sent, guarded.congr (Nat.le_succ _) (fun _ _ guards => guards)⟩
  · intro read member
    obtain ⟨id, readTs, ofTxn, snapshot, rest⟩ := isolation.reads read member
    exact ⟨id, readTs, ofTxn, fresh snapshot, rest⟩

theorem Isolated.read {key : Key} (settled : deployment.Settled (.read txnId shardId key)) :
    (deployment.read txnId shardId key).Isolated := by
  obtain ⟨coordinator, up, isolation⟩ := isolated
  unfold Deployment.read
  dsimp only
  split
  · rename_i readTs snapshot _
    refine ⟨coordinator, up, { isolation with reads := fun read member => ?_ }⟩
    rcases mem_append.mp member with member | member
    · exact isolation.reads read member
    · rw [mem_singleton.mp member]
      exact ⟨txnId, readTs, rfl, snapshot, rfl, settled readTs snapshot⟩
  · exact ⟨coordinator, up, isolation⟩

theorem Isolated.commit (settled : deployment.Settled (.commit txnId request)) :
    (deployment.commit txnId request).Isolated := by
  obtain ⟨coordinator, up, isolation⟩ := isolated
  obtain ⟨snapshot, uncalled, single⟩ := settled
  unfold Deployment.commit
  rw [up]
  refine ⟨coordinator, rfl, ?_⟩
  have older : ∀ {id request'}, deployment.audit.requests (deployment.audit.txn id) = some request' →
      (deployment.audit.noteCommit txnId request).requests (deployment.audit.txn id) = some request' := by
    intro id request' sent
    have other : deployment.audit.txn id ≠ deployment.audit.txn txnId := by
      intro same
      rw [same, uncalled] at sent
      cases sent
    exact (update_of_ne other _ _).trans sent
  have newest := deployment.audit.noteCommit_self txnId request
  have unrecorded : deployment.audit.recorded (deployment.audit.txn txnId) = none := by
    cases found : deployment.audit.recorded (deployment.audit.txn txnId) with
    | none => rfl
    | some commitTs =>
      obtain ⟨request', sent, _⟩ := isolation.settled txnId commitTs found
      rw [uncalled] at sent
      cases sent
  have unissued : (start txnId request coordinator.shards).phase.issued = none := by
    unfold start
    split <;> rfl
  refine { isolation with called := ?_, distinct := ?_, calls := ?_, settled := ?_, sources := ?_, reads := ?_ }
  · intro id request' sent
    by_cases here : deployment.audit.txn id = deployment.audit.txn txnId
    · cases (Txn.mk.inj here).2
      cases newest.symm.trans sent
      exact ⟨snapshot, single⟩
    · exact isolation.called id request' ((update_of_ne here _ _).symm.trans sent)
  · refine pairwise_append.mpr ⟨isolation.distinct, pairwise_singleton _ _, ?_⟩
    intro call member started inside same
    rw [mem_singleton.mp inside] at same
    have sent := (isolation.calls call member).1
    rw [same, show (start txnId request coordinator.shards).txnId = txnId from rfl, uncalled] at sent
    cases sent
  · refine forall_mem_append.mpr ⟨fun call member => ?_, forall_mem_singleton.mpr ?_⟩
    · obtain ⟨sent, guarded⟩ := isolation.calls call member
      exact ⟨older sent, guarded⟩
    · refine ⟨newest, ?_⟩
      unfold start
      dsimp only
      split
      · exact unrecorded
      · exact ⟨unrecorded, [], rfl, nofun⟩
  · intro id commitTs found
    obtain ⟨request', sent, rest⟩ := isolation.settled id commitTs found
    exact ⟨request', older sent, rest⟩
  · intro target key version member
    obtain ⟨id, request', recorded, sent, source⟩ := isolation.sources target key version member
    exact ⟨id, request', recorded, older sent, source⟩
  · intro read member
    obtain ⟨id, readTs, ofTxn, found, value, avoids⟩ := isolation.reads read member
    refine ⟨id, readTs, ofTxn, found, value, fun call present => ?_⟩
    rcases mem_append.mp present with present | present
    · exact avoids call present
    · rw [mem_singleton.mp present]
      intro commitTs issued
      rw [unissued] at issued
      cases issued

theorem Isolated.step {op : Op} (settled : deployment.Settled op) : (deployment.step library op).Isolated := by
  cases op with
  | openLog =>
    obtain ⟨coordinator, up, isolation⟩ := isolated
    dsimp only [Deployment.step, Deployment.openLog]
    rw [up]
    exact ⟨coordinator, up, isolation⟩
  | register shardId =>
    obtain ⟨coordinator, up, isolation⟩ := isolated
    exact ⟨coordinator.registerShard shardId, by dsimp only [Deployment.step]; rw [up]; rfl, { isolation with }⟩
  | begin => exact isolated.begin
  | read txnId shardId key => exact isolated.read settled
  | commit txnId request => exact isolated.commit settled
  | advance position append => exact isolated.advance position append
  | _ => cases settled

end Deployment

def Audit.Wrote (audit : Audit) (id commitTs shardId : Nat) (key : Key) (writes : List WriteOp) : Prop :=
  audit.recorded (audit.txn id) = some commitTs ∧ key ∈ writes.map Prod.fst ∧
    ∃ request, audit.requests (audit.txn id) = some request ∧ request.Sends shardId writes

namespace Isolation

variable {shards : Nat → LocalShard} {coordinator : TransactionCoordinator} {commits : List CommitCall}
  {audit : Audit} {shardId id commitTs readTs : Nat} {key : Key} {writes : List WriteOp}
  {first second firstTs secondTs : Nat} {others : List WriteOp}

variable (isolation : Isolation shards coordinator commits audit)
include isolation

theorem wrote (wrote : audit.Wrote id commitTs shardId key writes) :
    ∃ readTs, audit.snapshots (audit.txn id) = some readTs ∧ readTs < commitTs ∧
      ((shards shardId).Guards id readTs writes ∨ (shards shardId).Applied readTs commitTs writes) := by
  obtain ⟨recorded, _, request, sent, branch, inside, rfl, rfl⟩ := wrote
  obtain ⟨request', sent', after, all⟩ := isolation.settled id commitTs recorded
  cases sent.symm.trans sent'
  exact ⟨request.readTs, (isolation.called id request sent).1, after, all branch inside⟩

section

variable (wroteFirst : audit.Wrote first firstTs shardId key writes)
  (wroteSecond : audit.Wrote second secondTs shardId key others) (before : firstTs < secondTs)
include wroteFirst wroteSecond before

theorem applied_before (snapshot : audit.snapshots (audit.txn second) = some readTs) :
    firstTs ≤ readTs ∧ readTs < secondTs ∧ ∃ earlier, (shards shardId).Applied earlier firstTs writes := by
  obtain ⟨earlier, _, beforeFirst, standsFirst⟩ := isolation.wrote wroteFirst
  obtain ⟨readTs', found, beforeSecond, standsSecond⟩ := isolation.wrote wroteSecond
  cases snapshot.symm.trans found
  obtain ⟨op, inWrites, rfl⟩ := mem_map.mp wroteFirst.2.1
  obtain ⟨other, inOthers, sameKey⟩ := mem_map.mp wroteSecond.2.1
  rcases standsFirst with guardsFirst | appliedFirst
  · rcases standsSecond with guardsSecond | appliedSecond
    · have same :=
        (isolation.ordered shardId).locked.same guardsFirst.held guardsSecond.held inWrites inOthers sameKey.symm
      subst same
      cases wroteFirst.1.symm.trans wroteSecond.1
      exact absurd before (lt_irrefl _)
    · have member := appliedSecond.mem inOthers
      rw [sameKey] at member
      have below : secondTs ≤ earlier := guardsFirst.older op inWrites _ member
      omega
  · have member := appliedFirst.mem inWrites
    rw [← sameKey] at member
    refine ⟨?_, beforeSecond, earlier, appliedFirst⟩
    rcases standsSecond with guardsSecond | appliedSecond
    · exact guardsSecond.older other inOthers _ member
    · exact appliedSecond.older other inOthers _ member before

theorem no_lost_update (adjacent : ∀ id commitTs between, audit.Wrote id commitTs shardId key between →
      commitTs ≤ firstTs ∨ secondTs ≤ commitTs) {read : ShardRead} (member : read ∈ audit.reads)
    (ofSecond : read.txn = audit.txn second) (there : read.shardId = shardId) (ofKey : read.key = key) :
    read.value = lastWrite writes key := by
  obtain ⟨id, readTs, ofTxn, snapshot, value, _⟩ := isolation.reads read member
  cases (Txn.mk.inj (ofTxn.symm.trans ofSecond)).2
  obtain ⟨covers, inside, earlier, applied⟩ := isolation.applied_before wroteFirst wroteSecond before snapshot
  obtain ⟨op, inWrites, rfl⟩ := mem_map.mp wroteFirst.2.1
  subst there
  rw [← value, ofKey]
  refine applied.getAt (isolation.ordered _) inWrites covers ?_
  intro version present visible
  obtain ⟨source, request, recorded, sent, branch, inBranches, here, written⟩ :=
    isolation.sources _ _ version present
  have wrote : audit.Wrote source version.1 read.shardId op.1 branch.writes :=
    ⟨recorded, written, request, sent, branch, inBranches, here, rfl⟩
  rcases adjacent source version.1 branch.writes wrote with older | newer
  · exact older
  · omega

end

end Isolation

namespace Deployment

/-- Along runs whose reads meet no half-applied commit inside their snapshot, no update is lost. -/
theorem run_no_lost_update (library : Library) (ops : List Op)
    (settled : Along (step library) Settled (fresh.openLog library) ops) :
    let audit := (run (step library) (fresh.openLog library) ops).audit
    ∀ first second firstTs secondTs shardId key writes others, audit.Wrote first firstTs shardId key writes →
      audit.Wrote second secondTs shardId key others → firstTs < secondTs →
      (∀ id commitTs between, audit.Wrote id commitTs shardId key between → commitTs ≤ firstTs ∨ secondTs ≤ commitTs) →
      ∀ read ∈ audit.reads, read.txn = audit.txn second → read.shardId = shardId → read.key = key →
        read.value = lastWrite writes key := by
  intro audit first second firstTs secondTs shardId key writes others wroteFirst wroteSecond before adjacent read member
    ofSecond there ofKey
  have isolated : (run (step library) (fresh.openLog library) ops).Isolated :=
    settled.invariant (P := Isolated) (opened_isolated library) (fun _ _ isolated settled => isolated.step settled)
  obtain ⟨coordinator, _, isolation⟩ := isolated
  exact isolation.no_lost_update wroteFirst wroteSecond before adjacent member ofSecond there ofKey

def wholeCommit : List Op := List.replicate 7 (.advance 0 .synced)

def secondAfterFirst : List Op :=
  [.register 0, .begin, .commit 1 ⟨1, [⟨0, [(⟨[107]⟩, some ⟨[118]⟩)], []⟩]⟩] ++ wholeCommit ++
    [.begin, .read 2 0 ⟨[107]⟩, .commit 2 ⟨3, [⟨0, [(⟨[107]⟩, some ⟨[119]⟩)], []⟩]⟩] ++ wholeCommit

theorem adjacent_of_recorded
    (recorded : audit.recorded = update (update (fun _ => none) ⟨1, 1⟩ (some 2)) ⟨1, 2⟩ (some 4))
    {key : Key} {writes : List WriteOp}
    (wrote : audit.Wrote id commitTs shardId key writes) : commitTs ≤ 2 ∨ 4 ≤ commitTs := by
  have found := wrote.1
  rw [recorded, update_apply, update_apply] at found
  split at found
  · cases found
    exact .inr (le_rfl)
  · split at found
    · cases found
      exact .inl (le_rfl)
    · cases found

theorem wrote_single {id commitTs readTs : Nat} {value : Option Value}
    (recorded : audit.recorded (audit.txn id) = some commitTs)
    (requested : audit.requests (audit.txn id) = some ⟨readTs, [⟨0, [(⟨[107]⟩, value)], []⟩]⟩) :
    audit.Wrote id commitTs 0 ⟨[107]⟩ [(⟨[107]⟩, value)] :=
  ⟨recorded, by simp, _, requested, _, mem_singleton_self _, rfl, rfl⟩

theorem run_no_lost_update_second :
    let audit := (run (step .plain) (fresh.openLog .plain) secondAfterFirst).audit
    audit.reads = [⟨⟨1, 2⟩, 0, ⟨[107]⟩, some ⟨[118]⟩⟩] ∧
      some ⟨[118]⟩ = lastWrite [(⟨[107]⟩, some ⟨[118]⟩)] ⟨[107]⟩ := by
  intro audit
  have reads : audit.reads = [⟨⟨1, 2⟩, 0, ⟨[107]⟩, some ⟨[118]⟩⟩] := by decide +kernel
  have settled : Along (step .plain) Settled (fresh.openLog .plain) secondAfterFirst := by decide +kernel
  have first := @wrote_single audit 1 2 1 (some ⟨[118]⟩) (by decide +kernel) (by decide +kernel)
  have second := @wrote_single audit 2 4 3 (some ⟨[119]⟩) (by decide +kernel) (by decide +kernel)
  refine ⟨reads, run_no_lost_update .plain secondAfterFirst settled 1 2 2 4 0 ⟨[107]⟩ _ _ first second (by decide)
    (fun id commitTs between => adjacent_of_recorded rfl) ⟨⟨1, 2⟩, 0, ⟨[107]⟩, some ⟨[118]⟩⟩ ?_ rfl rfl rfl⟩
  exact reads ▸ mem_singleton_self _

def readBeforeApply : List Op :=
  [.register 0, .begin, .commit 1 ⟨1, [⟨0, [(⟨[107]⟩, some ⟨[118]⟩)], []⟩]⟩, .advance 0 .synced, .advance 0 .synced,
    .begin, .read 2 0 ⟨[107]⟩] ++ List.replicate 5 (.advance 0 .synced) ++
    [.commit 2 ⟨3, [⟨0, [(⟨[107]⟩, some ⟨[119]⟩)], []⟩]⟩] ++ wholeCommit

/-- Both transactions commit, one after the other, and the second has not seen the write of the first. -/
theorem update_lost :
    let audit := (run (step .plain) (fresh.openLog .plain) readBeforeApply).audit
    audit.Wrote 1 2 0 ⟨[107]⟩ [(⟨[107]⟩, some ⟨[118]⟩)] ∧ audit.Wrote 2 4 0 ⟨[107]⟩ [(⟨[107]⟩, some ⟨[119]⟩)] ∧
      (∀ id commitTs between, audit.Wrote id commitTs 0 ⟨[107]⟩ between → commitTs ≤ 2 ∨ 4 ≤ commitTs) ∧
      audit.reads = [⟨audit.txn 2, 0, ⟨[107]⟩, none⟩] ∧
      lastWrite [(⟨[107]⟩, some ⟨[118]⟩)] ⟨[107]⟩ = some ⟨[118]⟩ := by
  intro audit
  have first := @wrote_single audit 1 2 1 (some ⟨[118]⟩) (by decide +kernel) (by decide +kernel)
  have second := @wrote_single audit 2 4 3 (some ⟨[119]⟩) (by decide +kernel) (by decide +kernel)
  have adjacent : ∀ id commitTs between, audit.Wrote id commitTs 0 ⟨[107]⟩ between → commitTs ≤ 2 ∨ 4 ≤ commitTs :=
    fun id commitTs between => adjacent_of_recorded rfl
  exact ⟨first, second, adjacent, by decide +kernel, by decide⟩

end Deployment

end Takyonic
