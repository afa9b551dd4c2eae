import Takyonic.Foundation.Trace
import Takyonic.Twopc.Participant

namespace Takyonic

open Foundation Twopc TwopcTables List

structure LocalShard where
  id : Nat
  store : Key → List (Nat × Option Value)
  prepared : Std.TreeMap Nat (List WriteOp)
  locks : Key → Option Nat
  raftLog : List RaftCommand
  failPrepare : Bool
  crashAfterPrepare : Bool
  lastCommit : Key → Option Nat

namespace LocalShard

def new (id : Nat) : LocalShard := ⟨id, fun _ => [], ∅, fun _ => none, [], false, false, fun _ => none⟩

def applyWrites (shard : LocalShard) (writes : List WriteOp) (commitTs : Nat) : LocalShard :=
  { shard with
    store := fun key => shard.store key ++ (writes.filter (·.1 = key)).map fun op => (commitTs, op.2)
    lastCommit := noteCommitted writes commitTs shard.lastCommit }

variable (library : Library) {id ts : Nat} {ops : List WriteOp} {shard base plain first second : LocalShard}
  {older newer : List (Nat × Option Value)}

def prepare (shard : LocalShard) (txnId readTs : Nat) (writes : List WriteOp) (reads : List (Key × Nat)) :
    LocalShard × Except TakyonicError Unit :=
  let id := shard.id
  if shard.failPrepare then (shard, .error (.network s!"shard {id}: injected prepare failure"))
  else match occValidate library shard.id shard.lastCommit readTs reads writes with
    | .error error => (shard, .error error)
    | .ok () =>
      match lockedBy txnId writes shard.locks with
      | some owner => (shard, .error (.conflict s!"shard {id}: key locked by txn {owner}"))
      | none =>
        let shard := { shard with
          locks := lockWrites txnId writes shard.locks
          raftLog := shard.raftLog ++ [.txnPrepare txnId readTs writes]
          prepared := shard.prepared.insert txnId writes }
        if shard.crashAfterPrepare then (shard, .error (.network s!"shard {id}: crashed after PREPARED"))
        else (shard, .ok ())

def commit (shard : LocalShard) (txnId commitTs : Nat) : LocalShard × Except TakyonicError Unit :=
  let id := shard.id
  if shard.crashAfterPrepare then (shard, .error (.network s!"shard {id}: down (cannot commit)"))
  else match shard.prepared[txnId]? with
    | none => (shard, .error (.engine s!"shard {id}: commit for unknown prepared txn {txnId}"))
    | some writes =>
      let released : LocalShard := { shard with
        prepared := shard.prepared.erase txnId
        locks := unlockWrites writes shard.locks
        raftLog := shard.raftLog ++ [.txnCommit txnId commitTs writes] }
      (released.applyWrites writes commitTs, .ok ())

def abort (shard : LocalShard) (txnId : Nat) : LocalShard × Except TakyonicError Unit :=
  let id := shard.id
  if shard.crashAfterPrepare then (shard, .error (.network s!"shard {id}: down (cannot abort)"))
  else
    let shard := match shard.prepared[txnId]? with
      | some writes =>
        { shard with prepared := shard.prepared.erase txnId, locks := unlockWrites writes shard.locks }
      | none => shard
    ({ shard with raftLog := shard.raftLog ++ [.txnAbort txnId] }, .ok ())

def orphanedPrepared (shard : LocalShard) : List Nat := shard.prepared.keys

def getAt (shard : LocalShard) (key : Key) (readTs : Nat) : Option Value :=
  ((shard.store key).reverse.find? (·.1 ≤ readTs)).bind Prod.snd

def participant : ShardParticipant LocalShard where
  prepare := prepare library
  commit := commit
  abort := abort
  orphanedPrepared := orphanedPrepared

/-- One command of the log in `recover_from_raft_log`. -/
def replay (shard : LocalShard) : RaftCommand → LocalShard
  | .txnPrepare txnId _ ops =>
    { shard with locks := lockWrites txnId ops shard.locks, prepared := shard.prepared.insert txnId ops }
  | .txnCommit txnId commitTs ops =>
    { shard with
      prepared := shard.prepared.erase txnId, locks := unlockWrites ops shard.locks }.applyWrites ops commitTs
  | .txnAbort txnId =>
    match shard.prepared[txnId]? with
    | some writes => { shard with prepared := shard.prepared.erase txnId, locks := unlockWrites writes shard.locks }
    | none => shard
  | _ => shard

def recoverFromRaftLog (shard : LocalShard) : LocalShard :=
  shard.raftLog.foldl replay { shard with prepared := ∅, locks := fun _ => none }

inductive Call where
  | prepare (txnId readTs : Nat) (writes : List WriteOp) (reads : List (Key × Nat))
  | commit (txnId commitTs : Nat)
  | abort (txnId : Nat)
  | injectPrepareFailure (on : Bool)
  | injectCrashAfterPrepare (on : Bool)
  | recoverFromRaftLog
  deriving DecidableEq, Repr

def step (shard : LocalShard) : Call → LocalShard
  | .prepare txnId readTs writes reads => (shard.prepare library txnId readTs writes reads).1
  | .commit txnId commitTs => (shard.commit txnId commitTs).1
  | .abort txnId => (shard.abort txnId).1
  | .injectPrepareFailure on => { shard with failPrepare := on }
  | .injectCrashAfterPrepare on => { shard with crashAfterPrepare := on }
  | .recoverFromRaftLog => shard.recoverFromRaftLog

/-- The shard once a command has gone to its log and been carried out. -/
def logs (shard : LocalShard) (command : RaftCommand) : LocalShard :=
  { shard.replay command with raftLog := shard.raftLog ++ [command] }

section Rules

variable {P : LocalShard → Prop} {txnId readTs commitTs : Nat} {writes : List WriteOp} {reads : List (Key × Nat)}

theorem prepare_cases (shard : LocalShard) :
    (∃ error, shard.prepare library txnId readTs writes reads = (shard, .error error)) ∨
      occValidate library shard.id shard.lastCommit readTs reads writes = .ok () ∧
      lockedBy txnId writes shard.locks = none ∧
      (shard.prepare library txnId readTs writes reads).1 = shard.logs (.txnPrepare txnId readTs writes) ∧
      (shard.crashAfterPrepare = false → (shard.prepare library txnId readTs writes reads).2 = .ok ()) := by
  unfold prepare
  dsimp only
  split
  · exact .inl ⟨_, rfl⟩
  split
  · exact .inl ⟨_, rfl⟩
  rename_i valid
  split
  · exact .inl ⟨_, rfl⟩
  rename_i free
  refine .inr ⟨valid, free, ?_, fun up => ?_⟩
  · split <;> rfl
  · rw [up]
    rfl

theorem prepare_ok (shard : LocalShard) (ok : (shard.prepare library txnId readTs writes reads).2 = .ok ()) :
    (shard.prepare library txnId readTs writes reads).1 = shard.logs (.txnPrepare txnId readTs writes) ∧
      occValidate library shard.id shard.lastCommit readTs reads writes = .ok () := by
  rcases shard.prepare_cases library with ⟨error, refused⟩ | ⟨valid, -, moved, -⟩
  · rw [refused] at ok
    cases ok
  · exact ⟨moved, valid⟩

theorem prepare_refused {error : TakyonicError} (up : shard.crashAfterPrepare = false)
    (refused : (shard.prepare library txnId readTs writes reads).2 = .error error) :
    (shard.prepare library txnId readTs writes reads).1 = shard := by
  rcases shard.prepare_cases library with ⟨error, same⟩ | ⟨-, -, -, ok⟩
  · rw [same]
  · cases (ok up).symm.trans refused

theorem prepare_rule (same : P shard)
    (moved : occValidate library shard.id shard.lastCommit readTs reads writes = .ok () →
      lockedBy txnId writes shard.locks = none → P (shard.logs (.txnPrepare txnId readTs writes))) :
    P (shard.prepare library txnId readTs writes reads).1 := by
  rcases shard.prepare_cases library with ⟨error, refused⟩ | ⟨valid, free, logged, -⟩
  · rw [refused]
    exact same
  · rw [logged]
    exact moved valid free

theorem commit_rule (same : P shard) (moved : ∀ writes, shard.prepared[txnId]? = some writes →
    P (shard.logs (.txnCommit txnId commitTs writes))) : P (shard.commit txnId commitTs).1 := by
  unfold commit
  split
  · exact same
  split
  · exact same
  · exact moved _ ‹_›

theorem abort_rule (same : P shard) (moved : P (shard.logs (.txnAbort txnId))) : P (shard.abort txnId).1 := by
  unfold abort
  split
  · exact same
  · unfold logs replay at moved
    cases held : shard.prepared[txnId]? <;> simpa [held] using moved

end Rules

theorem prepare_raftLog : .txnCommit id ts ops ∈ (shard.prepare library txnId readTs writes reads).1.raftLog →
      .txnCommit id ts ops ∈ shard.raftLog := by
  apply prepare_rule library (P := fun after => _ ∈ after.raftLog → _) (fun logged => logged)
  intro _ _ logged
  simpa [logs] using logged

theorem commit_raftLog : .txnCommit id ts ops ∈ (shard.commit txnId commitTs).1.raftLog →
      .txnCommit id ts ops ∈ shard.raftLog ∨ id = txnId ∧ ts = commitTs := by
  refine commit_rule (P := fun after => _ ∈ after.raftLog → _) .inl fun writes _ logged => ?_
  rcases mem_append.mp logged with logged | logged
  · exact .inl logged
  · cases mem_singleton.mp logged
    exact .inr ⟨rfl, rfl⟩

theorem abort_raftLog :
    .txnCommit id ts ops ∈ (shard.abort txnId).1.raftLog → .txnCommit id ts ops ∈ shard.raftLog := by
  apply abort_rule (P := fun after => _ ∈ after.raftLog → _) (fun logged => logged)
  intro logged
  simpa [logs] using logged

def rebuilt (shard : LocalShard) : LocalShard := shard.raftLog.foldl replay (new shard.id)

/-- `shard` is `plain` on top of the versions and commit timestamps of `base`. -/
structure Over (base plain shard : LocalShard) : Prop where
  prepared : shard.prepared = plain.prepared
  locks : shard.locks = plain.locks
  store : ∀ key, shard.store key = base.store key ++ plain.store key
  lastCommit : ∀ key, shard.lastCommit key = (plain.lastCommit key).or (base.lastCommit key)

theorem Over.replay (laid : Over base plain shard) (command : RaftCommand) :
    Over base (plain.replay command) (shard.replay command) := by
  obtain ⟨prepared, locks, store, lastCommit⟩ := laid
  cases command with
  | txnPrepare txnId readTs ops =>
    exact ⟨by simp only [LocalShard.replay, prepared], by simp only [LocalShard.replay, locks], store, lastCommit⟩
  | txnCommit txnId commitTs ops =>
    refine ⟨by simp only [LocalShard.replay, applyWrites, prepared],
      by simp only [LocalShard.replay, applyWrites, locks],
      fun key => ?_, fun key => ?_⟩
    · simp only [LocalShard.replay, applyWrites, store, append_assoc]
    · simp only [LocalShard.replay, applyWrites, noteCommitted]
      split
      · rfl
      · exact lastCommit key
  | txnAbort txnId =>
    simp only [LocalShard.replay, prepared]
    split
    · exact ⟨rfl, by simp only [locks], store, lastCommit⟩
    · exact ⟨prepared, locks, store, lastCommit⟩
  | _ => exact ⟨prepared, locks, store, lastCommit⟩

theorem Over.replayAll (laid : Over base plain shard) (log : List RaftCommand) :
    Over base (log.foldl LocalShard.replay plain) (log.foldl LocalShard.replay shard) := by
  induction log generalizing plain shard with
  | nil => exact laid
  | cons command log ih => exact ih (laid.replay command)

theorem recoverFromRaftLog_over (shard : LocalShard) : Over shard shard.rebuilt shard.recoverFromRaftLog := by
  apply Over.replayAll
  exact ⟨rfl, rfl, fun key => (append_nil _).symm, fun key => rfl⟩

theorem replay_raftLog {command : RaftCommand} : (shard.replay command).raftLog = shard.raftLog := by
  unfold replay
  split
  · rfl
  · rfl
  · split <;> rfl
  · rfl

theorem replay_id {command : RaftCommand} : (shard.replay command).id = shard.id := by
  unfold replay
  split
  · rfl
  · rfl
  · split <;> rfl
  · rfl

def Logged (shard : LocalShard) : Prop := ∃ base, Over base shard.rebuilt shard

theorem new_logged (id : Nat) : (new id).Logged := ⟨new id, rfl, rfl, fun _ => rfl, fun _ => rfl⟩

theorem Logged.append (logged : shard.Logged) (command : RaftCommand) : (shard.logs command).Logged := by
  obtain ⟨base, laid⟩ := logged
  have grown : (shard.logs command).rebuilt = shard.rebuilt.replay command := by
    unfold rebuilt logs
    rw [foldl_append, replay_id]
    rfl
  exact ⟨base, grown ▸ { laid.replay command with }⟩

theorem recoverFromRaftLog_log (shard : LocalShard) : shard.recoverFromRaftLog.raftLog = shard.raftLog ∧
    shard.recoverFromRaftLog.id = shard.id := by
  have kept : ∀ (log : List RaftCommand) (start : LocalShard),
      (log.foldl replay start).raftLog = start.raftLog ∧ (log.foldl replay start).id = start.id := by
    intro log
    induction log with
    | nil => exact fun start => ⟨rfl, rfl⟩
    | cons command log ih =>
      intro start
      obtain ⟨sameLog, sameId⟩ := ih (start.replay command)
      exact ⟨sameLog.trans replay_raftLog, sameId.trans replay_id⟩
  exact kept _ _

theorem Logged.recover : shard.recoverFromRaftLog.Logged := by
  obtain ⟨sameLog, sameId⟩ := shard.recoverFromRaftLog_log
  have same : shard.recoverFromRaftLog.rebuilt = shard.rebuilt := by
    unfold rebuilt
    rw [sameLog, sameId]
  exact ⟨shard, by rw [same]; exact shard.recoverFromRaftLog_over⟩

theorem Logged.step (logged : shard.Logged) (library : Library) (call : Call) :
    (shard.step library call).Logged := by
  cases call with
  | prepare txnId readTs writes reads => exact prepare_rule library logged fun _ _ => logged.append _
  | commit txnId commitTs => exact commit_rule logged fun _ _ => logged.append _
  | abort txnId => exact abort_rule logged (logged.append _)
  | recoverFromRaftLog => exact Logged.recover
  | _ =>
    obtain ⟨base, laid⟩ := logged
    exact ⟨base, { laid with }⟩

theorem getAt_of_store {key : Key}
    (once : first.store key = older ++ newer) (twice : second.store key = (older ++ newer) ++ newer) (readTs : Nat) :
    second.getAt key readTs = first.getAt key readTs := by
  unfold getAt
  rw [once, twice, reverse_append, reverse_append, find?_append, find?_append, ← Option.or_assoc, Option.or_self]

theorem Logged.recover_same (logged : shard.Logged) :
    shard.recoverFromRaftLog.prepared = shard.prepared ∧ shard.recoverFromRaftLog.locks = shard.locks ∧
      shard.recoverFromRaftLog.lastCommit = shard.lastCommit ∧
      ∀ key readTs, shard.recoverFromRaftLog.getAt key readTs = shard.getAt key readTs := by
  obtain ⟨base, laid⟩ := logged
  have recovered := shard.recoverFromRaftLog_over
  refine ⟨recovered.prepared.trans laid.prepared.symm, recovered.locks.trans laid.locks.symm, ?_, ?_⟩
  · funext key
    rw [recovered.lastCommit, laid.lastCommit, ← Option.or_assoc, Option.or_self]
  · intro key readTs
    apply getAt_of_store (laid.store key)
    rw [recovered.store, laid.store]

/-- Recovery is the identity on what a shard shows, after any calls, injected faults and earlier recoveries. -/
theorem run_recoverFromRaftLog (library : Library) (id : Nat) (calls : List Call) :
    let shard := run (step library) (new id) calls
    shard.recoverFromRaftLog.prepared = shard.prepared ∧ shard.recoverFromRaftLog.locks = shard.locks ∧
      shard.recoverFromRaftLog.lastCommit = shard.lastCommit ∧
      ∀ key readTs, shard.recoverFromRaftLog.getAt key readTs = shard.getAt key readTs := by
  intro shard
  have each : ∀ call ∈ calls, (fun _ : Call => True) call := fun _ _ => True.intro
  have logged : shard.Logged := run_invariant each (new_logged id) (fun state call logged _ => logged.step library call)
  exact logged.recover_same

def tables (shard : LocalShard) : TwopcTables := ⟨shard.prepared, shard.locks⟩

theorem replay_tables (shard : LocalShard) (command : RaftCommand) :
    (shard.replay command).tables = shard.tables.apply command := by
  cases command with
  | txnAbort txnId =>
    unfold replay apply
    dsimp only [tables]
    cases shard.prepared[txnId]? <;> rfl
  | _ => rfl

theorem replay_txnPrepare (shard : LocalShard) (txnId readTs : Nat) (ops : List WriteOp) (id : Nat) :
    (shard.replay (.txnPrepare txnId readTs ops)).prepared[id]? =
      if id = txnId then some ops else shard.prepared[id]? := shard.tables.apply_txnPrepare txnId readTs ops id

theorem replay_txnCommit (shard : LocalShard) (txnId commitTs : Nat) (ops : List WriteOp) (id : Nat) :
    (shard.replay (.txnCommit txnId commitTs ops)).prepared[id]? =
      if id = txnId then none else shard.prepared[id]? := shard.tables.apply_txnCommit txnId commitTs ops id

theorem replay_txnAbort (shard : LocalShard) (txnId id : Nat) :
    (shard.replay (.txnAbort txnId)).prepared[id]? = if id = txnId then none else shard.prepared[id]? := by
  have same := congrArg TwopcTables.prepared (shard.replay_tables (.txnAbort txnId))
  change (shard.replay (.txnAbort txnId)).prepared = _ at same
  rw [same]
  exact shard.tables.apply_txnAbort txnId id

def Call.prepares : Call → Option Nat
  | .prepare txnId _ _ _ => some txnId
  | _ => none

structure Locking (called : List Nat) (shard : LocalShard) : Prop where
  logged : shard.Logged
  exclusive : shard.tables.Exclusive
  tight : shard.tables.Tight
  called : ∀ txnId, shard.prepared[txnId]? ≠ none → txnId ∈ called

section

variable {called called' : List Nat} (locking : Locking called shard)
include locking

theorem Locking.logs {command : RaftCommand} (exclusive : (shard.tables.apply command).Exclusive)
    (tight : (shard.tables.apply command).Tight)
    (held : ∀ txnId, (shard.tables.apply command).prepared[txnId]? ≠ none → txnId ∈ called') :
    Locking called' (shard.logs command) := by
  rw [← replay_tables] at exclusive tight held
  exact ⟨locking.logged.append command, exclusive, tight, held⟩

theorem Locking.step (call : Call) (first : ∀ txnId ∈ call.prepares, txnId ∉ called ∧ txnId ∈ called')
    (grown : called ⊆ called') : Locking called' (shard.step library call) := by
  have kept : Locking called' shard := { locking with called := fun id held => grown (locking.called id held) }
  have ends : ∀ {txnId id}, (if id = txnId then none else shard.tables.prepared[id]?) ≠ none → id ∈ called' := by
    intro txnId id held
    split at held
    · exact absurd rfl held
    · exact kept.called id held
  cases call with
  | prepare txnId readTs writes reads =>
    refine prepare_rule library kept fun _ free => ?_
    obtain ⟨new, inside⟩ := first txnId rfl
    have unheld : shard.tables.prepared[txnId]? = none := by
      by_contra held
      exact new (locking.called txnId held)
    refine kept.logs (locking.exclusive.prepare free readTs) (locking.tight.prepare unheld readTs writes) ?_
    intro id held
    rw [apply_txnPrepare] at held
    split at held
    · rename_i same
      exact same ▸ inside
    · exact kept.called id held
  | commit txnId commitTs =>
    refine commit_rule kept fun writes held => kept.logs (locking.exclusive.commit held commitTs) ?_ ?_
    · exact locking.tight.commit (fun _ same => Option.some.inj (same.symm.trans held)) commitTs
    · exact fun id still => ends (apply_txnCommit .. ▸ still)
  | abort txnId =>
    refine abort_rule kept (kept.logs (locking.exclusive.abort txnId) (locking.tight.abort txnId) ?_)
    exact fun id still => ends (apply_txnAbort .. ▸ still)
  | injectPrepareFailure on => exact { kept with logged := locking.logged.step library (.injectPrepareFailure on) }
  | injectCrashAfterPrepare on =>
    exact { kept with logged := locking.logged.step library (.injectCrashAfterPrepare on) }
  | recoverFromRaftLog =>
    obtain ⟨prepared, locks, _⟩ := locking.logged.recover_same
    have same : shard.recoverFromRaftLog.tables = shard.tables := congrArg₂ TwopcTables.mk prepared locks
    exact ⟨.recover, same ▸ kept.exclusive, same ▸ kept.tight, prepared ▸ kept.called⟩

end

theorem run_locking (id : Nat) {calls : List Call} (once : (calls.filterMap Call.prepares).Nodup) :
    Locking (calls.filterMap Call.prepares) (run (step library) (new id) calls) := by
  induction calls using reverseRecOn with
  | nil => exact ⟨new_logged id, empty_exclusive, empty_tight, fun _ held => absurd rfl held⟩
  | append_singleton calls call ih =>
    rw [filterMap_append] at once ⊢
    obtain ⟨before, -, apart⟩ := nodup_append.mp once
    rw [run_append]
    refine (ih before).step library call (fun txnId prepares => ?_) (subset_append_left _ _)
    have last : txnId ∈ [call].filterMap Call.prepares := mem_filterMap.mpr ⟨call, mem_singleton_self _, prepares⟩
    exact ⟨fun early => apart txnId early txnId last rfl, mem_append_right _ last⟩

/-- A key is locked exactly by the prepared transaction that writes it, as long as no transaction is prepared twice. -/
theorem run_locks (library : Library) (id : Nat) (calls : List Call) (once : (calls.filterMap Call.prepares).Nodup) :
    let shard := run (step library) (new id) calls
    (∀ key owner, shard.locks key = some owner ↔
      ∃ writes, shard.prepared[owner]? = some writes ∧ key ∈ writes.map Prod.fst) ∧
    (∀ (first second : Nat) (writes others : List WriteOp), shard.prepared[first]? = some writes →
      shard.prepared[second]? = some others → first ≠ second → (writes.map Prod.fst).Disjoint (others.map Prod.fst)) ∧
    ∀ txnId readTs writes reads error, (shard.prepare library txnId readTs writes reads).2 = .error error →
      shard.crashAfterPrepare = false → (shard.prepare library txnId readTs writes reads).1 = shard := by
  intro shard
  have locking : Locking _ shard := run_locking library id once
  have owned : ∀ {owner : Nat} {writes : List WriteOp} {key}, shard.prepared[owner]? = some writes →
      key ∈ writes.map Prod.fst → shard.locks key = some owner := by
    intro owner writes key held written
    obtain ⟨op, member, rfl⟩ := mem_map.mp written
    exact locking.exclusive owner writes held op member
  refine ⟨fun key owner => ⟨locking.tight key owner, fun ⟨writes, held, written⟩ => owned held written⟩, ?_, ?_⟩
  · intro first second writes others heldFirst heldSecond different key inFirst inSecond
    exact different (Option.some.inj ((owned heldFirst inFirst).symm.trans (owned heldSecond inSecond)))
  · exact fun _ _ _ _ _ refused up => prepare_refused library up refused

theorem run_locks_released : ∃ writes,
    (run (step Library.plain) (new 0) [.prepare 1 5 [(⟨[97]⟩, none)] [], .prepare 2 5 [(⟨[97]⟩, none)] [], .abort 1,
      .prepare 3 5 [(⟨[97]⟩, none)] []]).prepared[3]? = some writes ∧ ⟨[97]⟩ ∈ writes.map Prod.fst :=
  ((run_locks Library.plain 0 [.prepare 1 5 [(⟨[97]⟩, none)] [], .prepare 2 5 [(⟨[97]⟩, none)] [], .abort 1,
    .prepare 3 5 [(⟨[97]⟩, none)] []] (by decide)).1 ⟨[97]⟩ 3).mp (by decide)

end LocalShard

namespace LocalShard

def versions (commitTs : Nat) (writes : List WriteOp) (key : Key) : List (Nat × Option Value) :=
  (writes.filter (·.1 = key)).map fun op => (commitTs, op.2)

def lastWrite (writes : List WriteOp) (key : Key) : Option Value := (writes.filter (·.1 = key)).getLast?.bind Prod.snd

structure Ordered (clock : Nat) (shard : LocalShard) : Prop where
  sorted : ∀ key, (shard.store key).Pairwise fun earlier later => earlier.1 ≤ later.1
  past : ∀ key, ∀ version ∈ shard.store key, version.1 < clock
  last : ∀ key, ∀ version ∈ shard.store key, ∃ ts, shard.lastCommit key = some ts ∧ version.1 ≤ ts
  locked : shard.tables.Exclusive

structure Guards (shard : LocalShard) (txnId readTs : Nat) (writes : List WriteOp) : Prop where
  held : shard.prepared[txnId]? = some writes
  older : ∀ op ∈ writes, ∀ version ∈ shard.store op.1, version.1 ≤ readTs

structure Applied (shard : LocalShard) (readTs commitTs : Nat) (writes : List WriteOp) : Prop where
  group : ∀ op ∈ writes, (shard.store op.1).filter (·.1 = commitTs) = versions commitTs writes op.1
  older : ∀ op ∈ writes, ∀ version ∈ shard.store op.1, version.1 < commitTs → version.1 ≤ readTs

variable {commitTs readTs clock snapshot clock' : Nat} {writes : List WriteOp}

theorem mem_versions {key : Key} {version : Nat × Option Value} :
    version ∈ versions commitTs writes key ↔ version.1 = commitTs ∧ (key, version.2) ∈ writes := by
  obtain ⟨ts, value⟩ := version
  simp only [versions, mem_map, mem_filter, decide_eq_true_eq]
  constructor
  · rintro ⟨⟨key', value'⟩, ⟨member, rfl⟩, same⟩
    cases same
    exact ⟨rfl, member⟩
  · rintro ⟨rfl, member⟩
    exact ⟨(key, value), ⟨member, rfl⟩, rfl⟩

theorem versions_getLast (commitTs : Nat) (writes : List WriteOp) (key : Key) :
    (versions commitTs writes key).getLast?.bind Prod.snd = lastWrite writes key := by
  rw [versions, getLast?_map, lastWrite]
  cases (writes.filter (·.1 = key)).getLast? <;> rfl

variable {shard : LocalShard} {op : WriteOp}

theorem Applied.mem (applied : shard.Applied readTs commitTs writes) (member : op ∈ writes) :
    (commitTs, op.2) ∈ shard.store op.1 := by
  have inside : (commitTs, op.2) ∈ versions commitTs writes op.1 := mem_versions.mpr ⟨rfl, member⟩
  rw [← applied.group op member] at inside
  exact mem_of_mem_filter inside

theorem getLast_filter_of_last {α : Type} {list : List α} {last : α} (found : list.getLast? = some last)
    (keep : α → Bool) (kept : keep last = true) : (list.filter keep).getLast? = some last := by
  obtain ⟨front, rfl⟩ := getLast?_eq_some_iff.mp found
  rw [filter_append, filter_cons_of_pos kept, filter_nil, getLast?_concat]

theorem getAt_eq :
    shard.getAt key readTs = ((shard.store key).filter (·.1 ≤ readTs)).getLast?.bind Prod.snd := by
  rw [getAt, ← head?_filter, filter_reverse, head?_reverse]

theorem Applied.getAt (ordered : shard.Ordered clock)
    (applied : shard.Applied readTs commitTs writes) (member : op ∈ writes) (reaches : commitTs ≤ snapshot)
    (newest : ∀ version ∈ shard.store op.1, version.1 ≤ snapshot → version.1 ≤ commitTs) :
    shard.getAt op.1 snapshot = lastWrite writes op.1 := by
  have visible : (commitTs, op.2) ∈ (shard.store op.1).filter (·.1 ≤ snapshot) :=
    mem_filter.mpr ⟨applied.mem member, decide_eq_true reaches⟩
  have sorted := (ordered.sorted op.1).filter (fun version => decide (version.1 ≤ snapshot))
  rw [getAt_eq, ← versions_getLast commitTs, ← applied.group op member]
  obtain ⟨last, found⟩ : ∃ last, ((shard.store op.1).filter (·.1 ≤ snapshot)).getLast? = some last := by
    cases here : ((shard.store op.1).filter (·.1 ≤ snapshot)).getLast? with
    | some last => exact ⟨last, rfl⟩
    | none =>
      rw [getLast?_eq_none_iff.mp here] at visible
      cases visible
  have inside := mem_filter.mp (mem_of_getLast? found)
  have above : commitTs ≤ last.1 := by
    obtain ⟨front, split⟩ := getLast?_eq_some_iff.mp found
    rw [split] at visible sorted
    rcases mem_append.mp visible with earlier | here
    · exact (pairwise_append.mp sorted).2.2 _ earlier last (mem_singleton_self last)
    · rw [← mem_singleton.mp here]
  have same : last.1 = commitTs := le_antisymm (newest last inside.1 (of_decide_eq_true inside.2)) above
  have group := getLast_filter_of_last found (fun version => decide (version.1 = commitTs)) (decide_eq_true same)
  rw [filter_filter] at group
  have narrower : (shard.store op.1).filter
      (fun version => decide (version.1 = commitTs) && decide (version.1 ≤ snapshot)) =
      (shard.store op.1).filter (·.1 = commitTs) := by
    apply filter_congr
    intro version _
    by_cases here : version.1 = commitTs
    · simp [here, reaches]
    · simp [here]
  rw [narrower] at group
  rw [found, group]

theorem Ordered.mono (ordered : shard.Ordered clock) (later : clock ≤ clock') :
    shard.Ordered clock' :=
  ⟨ordered.sorted, fun key version member => lt_of_lt_of_le (ordered.past key version member) later, ordered.last,
    ordered.locked⟩

variable (library : Library) {clock : Nat} {shard : LocalShard}

theorem prepare_store : (shard.prepare library txnId readTs writes reads).1.store = shard.store :=
  prepare_rule library (P := fun after => after.store = _) rfl fun _ _ => rfl

theorem replay_txnAbort_same (shard : LocalShard) (txnId : Nat) :
    (shard.replay (.txnAbort txnId)).store = shard.store ∧
      (shard.replay (.txnAbort txnId)).lastCommit = shard.lastCommit := by
  unfold replay
  dsimp only
  split <;> exact ⟨rfl, rfl⟩

theorem abort_store (txnId : Nat) : (shard.abort txnId).1.store = shard.store :=
  abort_rule (P := fun after => after.store = _) rfl (shard.replay_txnAbort_same txnId).1

theorem Ordered.prepare (ordered : shard.Ordered clock) (txnId readTs : Nat) (writes : List WriteOp)
    (reads : List (Key × Nat)) : (shard.prepare library txnId readTs writes reads).1.Ordered clock :=
  prepare_rule library ordered fun _ free =>
    ⟨ordered.sorted, ordered.past, ordered.last, ordered.locked.prepare free readTs⟩

theorem Ordered.abort (ordered : shard.Ordered clock) (txnId : Nat) : (shard.abort txnId).1.Ordered clock := by
  obtain ⟨store, lastCommit⟩ := shard.replay_txnAbort_same txnId
  have locked := ordered.locked.abort txnId
  rw [← replay_tables] at locked
  exact abort_rule ordered ⟨store.symm ▸ ordered.sorted, store.symm ▸ ordered.past,
    store.symm ▸ lastCommit.symm ▸ ordered.last, locked⟩

variable {txnId : Nat}

theorem commit_store (held : shard.prepared[txnId]? = some writes) (commitTs : Nat) :
    (shard.commit txnId commitTs).1 = shard ∨
      ∀ key, (shard.commit txnId commitTs).1.store key = shard.store key ++ versions commitTs writes key := by
  refine commit_rule (P := fun after => after = shard ∨ ∀ key, after.store key = shard.store key ++
    versions commitTs writes key) (.inl rfl) fun found held' => .inr ?_
  cases held.symm.trans held'
  exact fun _ => rfl

theorem Ordered.commit (ordered : shard.Ordered clock) (guards : shard.Guards txnId readTs writes)
    (after : readTs < commitTs) (issued : commitTs < clock) : (shard.commit txnId commitTs).1.Ordered clock := by
  refine commit_rule ordered fun found held => ?_
  cases guards.held.symm.trans held
  have newer : ∀ key, ∀ added ∈ versions commitTs writes key, ∀ version ∈ shard.store key, version.1 ≤ commitTs := by
    intro key added inside version member
    obtain ⟨_, written⟩ := mem_versions.mp inside
    exact le_of_lt (lt_of_le_of_lt (guards.older _ written version member) after)
  refine ⟨?_, ?_, ?_, ?_⟩
  · intro key
    refine pairwise_append.mpr ⟨ordered.sorted key, ?_, ?_⟩
    · exact Pairwise.map _ (fun _ _ _ => Nat.le_refl commitTs) (pairwise_of_forall fun _ _ => True.intro)
    · intro version member added inside
      rw [(mem_versions.mp inside).1]
      exact newer key added inside version member
  · intro key version member
    rcases mem_append.mp member with member | member
    · exact ordered.past key version member
    · rw [(mem_versions.mp member).1]
      exact issued
  · intro key version member
    change ∃ ts, noteCommitted writes commitTs shard.lastCommit key = some ts ∧ version.1 ≤ ts
    unfold noteCommitted
    by_cases here : key ∈ writes.map Prod.fst
    · rw [if_pos here]
      obtain ⟨op, inWrites, rfl⟩ := mem_map.mp here
      refine ⟨commitTs, rfl, ?_⟩
      rcases mem_append.mp member with member | member
      · exact newer op.1 (commitTs, op.2) (mem_versions.mpr ⟨rfl, inWrites⟩) version member
      · exact le_of_eq (mem_versions.mp member).1
    · rw [if_neg here]
      rcases mem_append.mp member with member | member
      · exact ordered.last key version member
      · exact absurd (mem_map_of_mem (mem_versions.mp member).2) here
  · exact ordered.locked.commit held commitTs

theorem Ordered.guards (ordered : shard.Ordered clock) {reads : List (Key × Nat)}
    (accepted : (shard.prepare library txnId readTs writes reads).2 = .ok ()) :
    (shard.prepare library txnId readTs writes reads).1.Guards txnId readTs writes := by
  obtain ⟨moved, valid⟩ := shard.prepare_ok library accepted
  constructor
  · rw [moved]
    exact (shard.replay_txnPrepare txnId readTs writes txnId).trans (if_pos rfl)
  · intro op member version inside
    rw [prepare_store] at inside
    obtain ⟨ts, last, below⟩ := ordered.last op.1 version inside
    exact le_trans below (occValidate_writes valid member last)

variable {txnId id ts snapshot : Nat} {others : List WriteOp}

section

variable (guards : shard.Guards id snapshot others)
include guards

theorem Guards.prepare (other : id ≠ txnId) (readTs : Nat) (writes : List WriteOp) (reads : List (Key × Nat)) :
    (shard.prepare library txnId readTs writes reads).1.Guards id snapshot others :=
  prepare_rule library (P := (Guards · id snapshot others)) guards fun _ _ =>
    ⟨(shard.replay_txnPrepare txnId readTs writes id).trans ((if_neg other).trans guards.held), guards.older⟩

theorem Guards.abort (other : id ≠ txnId) : (shard.abort txnId).1.Guards id snapshot others :=
  abort_rule (P := (Guards · id snapshot others)) guards
    ⟨(shard.replay_txnAbort txnId id).trans ((if_neg other).trans guards.held),
    (shard.replay_txnAbort_same txnId).1.symm ▸ guards.older⟩

theorem Guards.commit (ordered : shard.Ordered clock) (other : id ≠ txnId) (commitTs : Nat) :
    (shard.commit txnId commitTs).1.Guards id snapshot others := by
  refine commit_rule (P := (Guards · id snapshot others)) guards fun writes held =>
    ⟨(shard.replay_txnCommit txnId commitTs writes id).trans ((if_neg other).trans guards.held), ?_⟩
  intro op member version inside
  rcases mem_append.mp inside with inside | inside
  · exact guards.older op member version inside
  · exact absurd (ordered.locked.same guards.held held member (mem_versions.mp inside).2 rfl) other

end

section

variable (guards : shard.Guards txnId readTs writes)
include guards

theorem Applied.commit (applied : shard.Applied snapshot ts others) (after : readTs < commitTs) :
    (shard.commit txnId commitTs).1.Applied snapshot ts others := by
  rcases commit_store guards.held commitTs with same | moved
  · rw [same]
    exact applied
  have above : ∀ op ∈ others, ∀ version ∈ versions commitTs writes op.1, ts < version.1 := by
    intro op member version inside
    obtain ⟨sameTs, written⟩ := mem_versions.mp inside
    have below : ts ≤ readTs := guards.older (op.1, version.2) written (ts, op.2) (applied.mem member)
    rw [sameTs]
    exact lt_of_le_of_lt below after
  constructor
  · intro op member
    rw [moved, filter_append, applied.group op member, filter_eq_nil_iff.mpr, append_nil]
    intro version inside same
    exact absurd (of_decide_eq_true same) (ne_of_gt (above op member version inside))
  · intro op member version inside earlier
    rw [moved] at inside
    rcases mem_append.mp inside with inside | inside
    · exact applied.older op member version inside earlier
    · exact absurd earlier (Nat.lt_asymm (above op member version inside))

theorem Guards.applied (after : readTs < commitTs) :
    (shard.commit txnId commitTs).1.Guards txnId readTs writes ∨
      (shard.commit txnId commitTs).1.Applied readTs commitTs writes := by
  rcases commit_store guards.held commitTs with same | moved
  · left
    rw [same]
    exact guards
  right
  constructor
  · intro op member
    rw [moved, filter_append, filter_eq_nil_iff.mpr, nil_append, filter_eq_self]
    · exact fun version inside => decide_eq_true (mem_versions.mp inside).1
    · intro version inside same
      have below := guards.older op member version inside
      rw [of_decide_eq_true same] at below
      exact absurd below (not_le_of_gt after)
  · intro op member version inside earlier
    rw [moved] at inside
    rcases mem_append.mp inside with inside | inside
    · exact guards.older op member version inside
    · exact absurd (mem_versions.mp inside).1 (ne_of_lt earlier)

theorem Guards.getAt (key : Key) (hidden : key ∈ writes.map Prod.fst → snapshot < commitTs) :
    (shard.commit txnId commitTs).1.getAt key snapshot = shard.getAt key snapshot := by
  rcases commit_store guards.held commitTs with same | moved
  · rw [same]
  have invisible : (versions commitTs writes key).filter (·.1 ≤ snapshot) = [] := by
    apply filter_eq_nil_iff.mpr
    intro version inside visible
    obtain ⟨sameTs, written⟩ := mem_versions.mp inside
    have below := of_decide_eq_true visible
    rw [sameTs] at below
    exact absurd (hidden (mem_map_of_mem written)) (not_lt_of_ge below)
  rw [getAt_eq, getAt_eq, moved, filter_append, invisible, append_nil]

end

end LocalShard

end Takyonic
