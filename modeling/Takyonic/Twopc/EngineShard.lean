import Takyonic.Storage.Engine
import Takyonic.Twopc.Participant

namespace Takyonic

open Twopc

inductive ShardEvent where
  | command (command : RaftCommand)
  | wrote (writes : List WriteOp)
  deriving DecidableEq, Repr

/-- An engine as a participant of two-phase commit. `quorum` is what the next proposals to an attached Raft node
    meet, `raftLog` the commands of the protocol that its log retains with their indices, and `trace` what an
    observer notes; no call depends on it. -/
structure EngineShard where
  world : World
  id : Nat
  tables : TwopcTables
  failPrepare : Bool
  crashAfterPrepare : Bool
  quorum : Except TakyonicError Unit
  raftLog : List (Nat × RaftCommand)
  trace : List ShardEvent

/-- The step of `apply_log` for one committed command. -/
def LocalRaftNode.applyCommand (node : LocalRaftNode) (index : Nat) (command : RaftCommand) : LocalRaftNode :=
  if command.isMeta then node.advance index
  else match command.toEntries index with
    | .ok entries => (entries.foldl LocalRaftNode.applyEntry node).advance index
    | .error _ => node

namespace EngineShard

def new (id : Nat) (config : Config) (catalog : List TableSchema) : EngineShard :=
  ⟨World.fresh config catalog, id, .empty, false, false, .ok (), [], []⟩

def engine (shard : EngineShard) : TakyonicEngine := shard.world.engine

def setEngine (shard : EngineShard) (engine : TakyonicEngine) : EngineShard :=
  { shard with world := { shard.world with engine } }

variable (library : Library)

def applyTwopcSideEffect (shard : EngineShard) (command : RaftCommand) : EngineShard :=
  let shard := { shard with tables := shard.tables.apply command, trace := shard.trace ++ [.command command] }
  match command with
  | .txnCommit _ commitTs ops => shard.setEngine (shard.engine.noteCommittedKeys (ops.map Prod.fst) commitTs)
  | _ => shard

def raftIndex (shard : EngineShard) : Nat :=
  (shard.raftLog.map Prod.fst).foldl max shard.engine.store.node.lastApplied + 1

/-- `apply_committed` for a command of the protocol. The proposer does not learn whether its flush failed. -/
def applyCommitted (shard : EngineShard) (command : RaftCommand) : EngineShard :=
  let index := shard.raftIndex
  let store := { shard.engine.store with node := shard.engine.store.node.applyCommand index command }
  let shard := { shard with raftLog := shard.raftLog ++ [(index, command)] }
  let shard := (shard.setEngine { shard.engine with store }).applyTwopcSideEffect command
  shard.setEngine shard.engine.maybeFlush.1

def proposeTwopc (shard : EngineShard) (command : RaftCommand) : EngineShard × Except TakyonicError Unit :=
  match shard.engine.distributedRaft with
  | some raft =>
    match TakyonicEngine.requireLeader raft, shard.quorum with
    | .error error, _ => (shard, .error error)
    | .ok (), .error error => (shard, .error error)
    | .ok (), .ok () => (shard.applyCommitted command, .ok ())
  | none =>
    match shard.engine.store.propose library.xxh3 command with
    | (store, .error error) => (shard.setEngine { shard.engine with store }, .error error)
    | (store, .ok _) => ((shard.setEngine { shard.engine with store }).applyTwopcSideEffect command, .ok ())

def releaseWrites (txnId : Nat) (writes : List WriteOp) (locks : Key → Option Nat) : Key → Option Nat :=
  fun key => if key ∈ writes.map Prod.fst ∧ locks key = some txnId then none else locks key

def twopcPrepare (shard : EngineShard) (txnId readTs : Nat) (writes : List WriteOp) (reads : List (Key × Nat)) :
    EngineShard × Except TakyonicError Unit :=
  let id := shard.id
  match shard.engine.ensureOpen with
  | .error error => (shard, .error error)
  | .ok () =>
    if shard.failPrepare then (shard, .error (.network s!"shard {id}: injected prepare failure"))
    else match occValidate library shard.id shard.engine.lastCommit readTs reads writes with
      | .error error => (shard, .error error)
      | .ok () =>
        match lockedBy txnId writes shard.tables.locks with
        | some owner => (shard, .error (.conflict s!"shard {id}: key locked by txn {owner}"))
        | none =>
          let locked := { shard with
            tables := { shard.tables with locks := lockWrites txnId writes shard.tables.locks } }
          match locked.proposeTwopc library (.txnPrepare txnId readTs writes) with
          | (shard, .error error) =>
            let locks := releaseWrites txnId writes shard.tables.locks
            ({ shard with tables := { shard.tables with locks } }, .error error)
          | (shard, .ok ()) =>
            if shard.crashAfterPrepare then (shard, .error (.network s!"shard {id}: crashed after PREPARED"))
            else (shard, .ok ())

def twopcCommit (shard : EngineShard) (txnId commitTs : Nat) : EngineShard × Except TakyonicError Unit :=
  let id := shard.id
  match shard.engine.ensureOpen with
  | .error error => (shard, .error error)
  | .ok () =>
    if shard.crashAfterPrepare then (shard, .error (.network s!"shard {id}: down (cannot commit)"))
    else match shard.tables.prepared[txnId]? with
      | none => (shard, .error (.engine s!"shard {id}: commit for unknown prepared txn {txnId}"))
      | some writes => shard.proposeTwopc library (.txnCommit txnId commitTs writes)

def twopcAbort (shard : EngineShard) (txnId : Nat) : EngineShard × Except TakyonicError Unit :=
  let id := shard.id
  match shard.engine.ensureOpen with
  | .error error => (shard, .error error)
  | .ok () =>
    if shard.crashAfterPrepare then (shard, .error (.network s!"shard {id}: down (cannot abort)"))
    else shard.proposeTwopc library (.txnAbort txnId)

def twopcOrphanedPrepared (shard : EngineShard) : List Nat := shard.tables.prepared.keys

def twopcRecoverFromRaftLog (shard : EngineShard) : EngineShard × Except TakyonicError Unit :=
  match shard.engine.ensureOpen, shard.engine.distributedRaft with
  | .error error, _ => (shard, .error error)
  | .ok (), none => (shard, .ok ())
  | .ok (), some _ => ({ shard with tables := (shard.raftLog.map Prod.snd).foldl TwopcTables.apply .empty }, .ok ())

def participant : ShardParticipant EngineShard where
  prepare := twopcPrepare library
  commit := twopcCommit library
  abort := twopcAbort library
  orphanedPrepared := twopcOrphanedPrepared

inductive Call where
  | engine (op : Op)
  | prepare (txnId readTs : Nat) (writes : List WriteOp) (reads : List (Key × Nat))
  | commit (txnId commitTs : Nat)
  | abort (txnId : Nat)
  | injectPrepareFailure (on : Bool)
  | injectCrashAfterPrepare (on : Bool)
  | quorum (answer : Except TakyonicError Unit)
  | compact (through : Nat)
  | recoverFromRaftLog
  | restart (raft : RaftHandle)

def serve (shard : EngineShard) (op : Op) : EngineShard :=
  let world := shard.world.step library op
  let trace := shard.trace ++ (world.deeds.drop shard.world.deeds.length).map fun deed => .wrote deed.writes
  match op with
  | .reopen => { shard with world, trace, tables := .empty, failPrepare := false, crashAfterPrepare := false }
  | _ => { shard with world, trace }

def step (shard : EngineShard) : Call → EngineShard
  | .engine op => shard.serve library op
  | .prepare txnId readTs writes reads => (shard.twopcPrepare library txnId readTs writes reads).1
  | .commit txnId commitTs => (shard.twopcCommit library txnId commitTs).1
  | .abort txnId => (shard.twopcAbort library txnId).1
  | .injectPrepareFailure on => { shard with failPrepare := on }
  | .injectCrashAfterPrepare on => { shard with crashAfterPrepare := on }
  | .quorum answer => { shard with quorum := answer }
  | .compact through =>
    if through ≤ shard.engine.store.node.lastApplied then
      { shard with raftLog := shard.raftLog.filter fun entry => through < entry.1 }
    else shard
  | .recoverFromRaftLog => shard.twopcRecoverFromRaftLog.1
  | .restart raft => ((shard.serve library .reopen).serve library (.attach raft)).twopcRecoverFromRaftLog.1

/-- What the tables and the observer keep of a call. -/
structure Same (before after : EngineShard) : Prop where
  tables : after.tables = before.tables
  trace : after.trace = before.trace
  raftLog : after.raftLog = before.raftLog

structure Carried (command : RaftCommand) (before after : EngineShard) : Prop where
  tables : after.tables = before.tables.apply command
  trace : after.trace = before.trace ++ [.command command]
  raftLog : before.engine.distributedRaft = none ∧ after.raftLog = before.raftLog ∨
    ∃ index, (∀ entry ∈ before.raftLog, entry.1 < index) ∧ after.raftLog = before.raftLog ++ [(index, command)]

section

variable (shard : EngineShard)
include shard

theorem applyTwopcSideEffect_spec (command : RaftCommand) :
    (shard.applyTwopcSideEffect command).tables = shard.tables.apply command ∧
      (shard.applyTwopcSideEffect command).trace = shard.trace ++ [.command command] ∧
      (shard.applyTwopcSideEffect command).raftLog = shard.raftLog := by
  unfold applyTwopcSideEffect
  split <;> exact ⟨rfl, rfl, rfl⟩

theorem lt_raftIndex {entry : Nat × RaftCommand} (member : entry ∈ shard.raftLog) : entry.1 < shard.raftIndex := by
  have bounded : ∀ (indices : List Nat) (start : Nat), start ≤ indices.foldl max start ∧
      ∀ index ∈ indices, index ≤ indices.foldl max start := by
    intro indices
    induction indices with
    | nil => exact fun start => ⟨Nat.le_refl start, nofun⟩
    | cons first rest ih =>
      intro start
      obtain ⟨above, all⟩ := ih (max start first)
      rw [List.foldl_cons]
      refine ⟨by omega, fun index inside => ?_⟩
      rcases List.mem_cons.mp inside with rfl | later
      · omega
      · exact all index later
  exact Nat.lt_succ_of_le ((bounded _ _).2 entry.1 (List.mem_map_of_mem member))

theorem applyCommitted_carried (command : RaftCommand) : Carried command shard (shard.applyCommitted command) := by
  unfold applyCommitted
  dsimp only
  generalize shard.engine.store.node.applyCommand shard.raftIndex command = node
  obtain ⟨tables, trace, raftLog⟩ := applyTwopcSideEffect_spec
    (setEngine { shard with raftLog := shard.raftLog ++ [(shard.raftIndex, command)] }
      { shard.engine with store := { shard.engine.store with node } }) command
  exact ⟨tables, trace, .inr ⟨shard.raftIndex, fun entry member => shard.lt_raftIndex member, raftLog⟩⟩

theorem proposeTwopc_eq (command : RaftCommand) :
    Same shard (shard.proposeTwopc library command).1 ∧ (shard.proposeTwopc library command).2 ≠ .ok () ∨
      Carried command shard (shard.proposeTwopc library command).1 ∧
        (shard.proposeTwopc library command).2 = .ok () := by
  unfold proposeTwopc
  split
  · split
    · exact .inl ⟨⟨rfl, rfl, rfl⟩, nofun⟩
    · exact .inl ⟨⟨rfl, rfl, rfl⟩, nofun⟩
    · exact .inr ⟨shard.applyCommitted_carried command, rfl⟩
  · rename_i embedded
    split
    · exact .inl ⟨⟨rfl, rfl, rfl⟩, nofun⟩
    · rename_i store _ _
      obtain ⟨tables, trace, raftLog⟩ :=
        applyTwopcSideEffect_spec (shard.setEngine { shard.engine with store }) command
      exact .inr ⟨⟨tables, trace, .inl ⟨embedded, raftLog⟩⟩, rfl⟩

end

theorem lockWrites_twice (txnId : Nat) (writes : List WriteOp) (locks : Key → Option Nat) :
    lockWrites txnId writes (lockWrites txnId writes locks) = lockWrites txnId writes locks := by
  funext key
  unfold lockWrites
  split <;> rfl

theorem twopcPrepare_eq (shard : EngineShard) (txnId readTs : Nat) (writes : List WriteOp) (reads : List (Key × Nat)) :
    let answer := shard.twopcPrepare library txnId readTs writes reads
    Same shard answer.1 ∧ answer.2 ≠ .ok () ∨ lockedBy txnId writes shard.tables.locks = none ∧
      (answer.1.tables = ⟨shard.tables.prepared, releaseWrites txnId writes
          (lockWrites txnId writes shard.tables.locks)⟩ ∧ answer.1.trace = shard.trace ∧
          answer.1.raftLog = shard.raftLog ∧ answer.2 ≠ .ok () ∨
        Carried (.txnPrepare txnId readTs writes) shard answer.1) := by
  intro answer
  obtain ⟨result, named⟩ : ∃ result, shard.twopcPrepare library txnId readTs writes reads = result := ⟨_, rfl⟩
  have same : answer = result := named
  rw [same]
  unfold twopcPrepare at named
  dsimp only at named
  split at named
  · exact .inl (named ▸ ⟨⟨rfl, rfl, rfl⟩, nofun⟩)
  split at named
  · exact .inl (named ▸ ⟨⟨rfl, rfl, rfl⟩, nofun⟩)
  split at named
  · exact .inl (named ▸ ⟨⟨rfl, rfl, rfl⟩, nofun⟩)
  split at named
  · exact .inl (named ▸ ⟨⟨rfl, rfl, rfl⟩, nofun⟩)
  rename_i free
  right
  refine ⟨free, ?_⟩
  have proposed := proposeTwopc_eq library { shard with
    tables := { shard.tables with locks := lockWrites txnId writes shard.tables.locks } }
    (.txnPrepare txnId readTs writes)
  split at named
  · rename_i after error failed
    rw [failed] at proposed
    rcases proposed with ⟨⟨tables, trace, raftLog⟩, _⟩ | ⟨_, done⟩
    · left
      rw [← named]
      exact ⟨by rw [tables], trace, raftLog, nofun⟩
    · cases done
  · rename_i after done
    rw [done] at proposed
    rcases proposed with ⟨_, failed⟩ | ⟨⟨tables, trace, raftLog⟩, _⟩
    · exact absurd rfl failed
    right
    have carried : Carried (.txnPrepare txnId readTs writes) shard after := by
      refine ⟨tables.trans ?_, trace, raftLog⟩
      unfold TwopcTables.apply
      dsimp only
      rw [lockWrites_twice]
    split at named
    · exact named ▸ carried
    · exact named ▸ carried

theorem twopcCommit_eq (shard : EngineShard) (txnId commitTs : Nat) :
    let answer := shard.twopcCommit library txnId commitTs
    Same shard answer.1 ∧ answer.2 ≠ .ok () ∨ ∃ writes, shard.tables.prepared[txnId]? = some writes ∧
      Carried (.txnCommit txnId commitTs writes) shard answer.1 := by
  intro answer
  unfold answer twopcCommit
  split
  · exact .inl ⟨⟨rfl, rfl, rfl⟩, nofun⟩
  split
  · exact .inl ⟨⟨rfl, rfl, rfl⟩, nofun⟩
  split
  · exact .inl ⟨⟨rfl, rfl, rfl⟩, nofun⟩
  · rename_i writes held
    rcases shard.proposeTwopc_eq library (.txnCommit txnId commitTs writes) with refused | ⟨carried, _⟩
    · exact .inl refused
    · exact .inr ⟨writes, held, carried⟩

theorem twopcAbort_eq (shard : EngineShard) (txnId : Nat) :
    let answer := shard.twopcAbort library txnId
    Same shard answer.1 ∧ answer.2 ≠ .ok () ∨ Carried (.txnAbort txnId) shard answer.1 := by
  intro answer
  unfold answer twopcAbort
  split
  · exact .inl ⟨⟨rfl, rfl, rfl⟩, nofun⟩
  split
  · exact .inl ⟨⟨rfl, rfl, rfl⟩, nofun⟩
  · rcases shard.proposeTwopc_eq library (.txnAbort txnId) with refused | ⟨carried, _⟩
    · exact .inl refused
    · exact .inr carried

end EngineShard

open Foundation List TwopcTables

namespace ShardEvent

def about (id : Nat) : ShardEvent → Bool
  | .command (.txnPrepare txnId _ _) | .command (.txnCommit txnId _ _) | .command (.txnAbort txnId) => txnId = id
  | _ => false

def keys : ShardEvent → List Key
  | .command (.txnCommit _ _ ops) => ops.map Prod.fst
  | .wrote writes => writes.map Prod.fst
  | _ => []

def Standing (trace : List ShardEvent) (txnId : Nat) (writes : List WriteOp) : Prop :=
  ∃ before readTs after, trace = before ++ .command (.txnPrepare txnId readTs writes) :: after ∧
    ∀ event ∈ after, event.about txnId = false

variable {trace : List ShardEvent} {event : ShardEvent}

theorem standing_concat {txnId : Nat} {writes : List WriteOp} :
    Standing (trace ++ [event]) txnId writes ↔
      (∃ readTs, event = .command (.txnPrepare txnId readTs writes)) ∨
        Standing trace txnId writes ∧ event.about txnId = false := by
  constructor
  · rintro ⟨before, readTs, after, whole, quiet⟩
    rcases eq_nil_or_concat after with rfl | ⟨middle, last, rfl⟩
    · have ends := append_inj_right' whole rfl
      exact .inl ⟨readTs, singleton_inj.mp ends⟩
    rw [concat_eq_append, ← cons_append, ← append_assoc] at whole
    have ends := singleton_inj.mp (append_inj_right' whole rfl)
    right
    subst ends
    refine ⟨⟨before, readTs, middle, append_inj_left' whole rfl, ?_⟩, quiet event (by simp)⟩
    exact fun earlier member => quiet earlier (by simp [member])
  · rintro (⟨readTs, rfl⟩ | ⟨⟨before, readTs, after, rfl, quiet⟩, apart⟩)
    · exact ⟨trace, readTs, [], rfl, nofun⟩
    · refine ⟨before, readTs, after ++ [event], by simp, ?_⟩
      exact forall_mem_append.mpr ⟨quiet, forall_mem_singleton.mpr apart⟩

def Excluded (trace : List ShardEvent) : Prop :=
  ∀ before event after, trace = before ++ event :: after → ∀ txnId writes, Standing before txnId writes →
    ∀ op ∈ writes, op.1 ∈ event.keys → ∃ commitTs, event = .command (.txnCommit txnId commitTs writes)

theorem Excluded.concat (excluded : Excluded trace)
    (last : ∀ txnId writes, Standing trace txnId writes → ∀ op ∈ writes, op.1 ∈ event.keys →
      ∃ commitTs, event = .command (.txnCommit txnId commitTs writes)) : Excluded (trace ++ [event]) := by
  intro before other after whole
  rcases eq_nil_or_concat after with rfl | ⟨middle, final, rfl⟩
  · have ends := singleton_inj.mp (append_inj_right' whole rfl)
    subst ends
    rw [← append_inj_left' whole rfl]
    exact last
  · rw [concat_eq_append, ← cons_append, ← append_assoc] at whole
    exact excluded before other middle (append_inj_left' whole rfl)

end ShardEvent

open ShardEvent

theorem TwopcTables.apply_prepared (tables : TwopcTables) (command : RaftCommand) (id : Nat) (writes : List WriteOp) :
    (tables.apply command).prepared[id]? = some writes ↔ (∃ readTs, command = .txnPrepare id readTs writes) ∨
      tables.prepared[id]? = some writes ∧ (ShardEvent.command command).about id = false := by
  cases command with
  | txnPrepare txnId readTs ops =>
    rw [apply_txnPrepare]
    by_cases here : id = txnId
    · simp [here, about]
    · simp [here, about, Ne.symm here]
  | txnCommit txnId commitTs ops =>
    rw [apply_txnCommit]
    by_cases here : id = txnId
    · simp [here, about]
    · simp [here, about, Ne.symm here]
  | txnAbort txnId =>
    rw [apply_txnAbort]
    by_cases here : id = txnId
    · simp [here, about]
    · simp [here, about, Ne.symm here]
  | _ => simp [apply, about]

namespace TakyonicEngine

variable {library : Library} {engine : TakyonicEngine} {conditions : Conditions} {txn : Transaction}

theorem commitTransaction_conflict (library : Library) (conditions : Conditions) {conflict : Key × Nat}
    (found : engine.firstConflict txn = some conflict) (writes : txn.writes.isEmpty = false) :
    ∃ error, (engine.commitTransaction library conditions txn).2 = .error error := by
  unfold commitTransaction
  split
  · exact ⟨_, rfl⟩
  rw [if_neg (Bool.eq_false_iff.mp writes)]
  split
  · exact ⟨_, rfl⟩
  · unfold prepareTxnCommit
    rw [found]
    exact ⟨_, rfl⟩

theorem commit_unconflicted {commitTs : Nat} (done : (engine.commit library conditions txn).2 = .ok commitTs)
    (writes : txn.writes.isEmpty = false) : engine.firstConflict txn = none := by
  cases found : engine.firstConflict txn with
  | none => rfl
  | some conflict =>
    obtain ⟨error, failed⟩ := commitTransaction_conflict library conditions found writes
    unfold commit at done
    split at done
    · cases done
    generalize engine.commitTransaction library conditions txn = result at failed done
    obtain ⟨after, reply⟩ := result
    cases failed
    cases done

end TakyonicEngine

theorem World.step_deeds (library : Library) (world : World) (op : Op) :
    (world.step library op).deeds = world.deeds ∨ ∃ deed, (world.step library op).deeds = world.deeds ++ [deed] ∧
      match op with
      | .put _ key value => deed.writes = [(key, some value)]
      | .delete _ key => deed.writes = [(key, none)]
      | .commit _ txnId => ∃ work, world.work txnId = some work ∧ deed.writes = work.txn.writes.toList ∧
          world.engine.firstConflict work.txn = none
      | _ => False := by
  cases op with
  | put conditions key value | delete conditions key =>
    dsimp only [step, write]
    split
    · exact .inr ⟨_, rfl, rfl⟩
    · exact .inl rfl
  | commit conditions txnId =>
    dsimp only [step]
    cases found : world.work txnId with
    | none => exact .inl rfl
    | some work =>
      dsimp only [Option.elim_some, commit]
      split
      · rename_i engine commitTs done
        split
        · exact .inl rfl
        · rename_i writes
          right
          refine ⟨_, rfl, work, rfl, rfl, ?_⟩
          exact TakyonicEngine.commit_unconflicted (congrArg Prod.snd done) (Bool.eq_false_iff.mpr writes)
      · exact .inl rfl
  | begin isolation =>
    dsimp only [step, begin]
    split <;> exact .inl rfl
  | perform txnId op | abort txnId =>
    dsimp only [step]
    cases world.work txnId <;> exact .inl rfl
  | reopen =>
    dsimp only [step, reopen]
    split <;> exact .inl rfl
  | _ => exact .inl rfl

namespace EngineShard

def atop (world : World) (id : Nat) : EngineShard := ⟨world, id, .empty, false, false, .ok (), [], []⟩

/-- A single write leaves locked keys alone, a transaction that writes a locked key has a key that was committed
    after its snapshot, and no transaction is prepared a second time. -/
def Isolating (shard : EngineShard) : Call → Prop
  | .engine (.put _ key _) | .engine (.delete _ key) => shard.tables.locks key = none
  | .engine (.commit _ txnId) => ∀ work ∈ shard.world.work txnId,
      (∃ key ∈ work.txn.writes.keys, shard.tables.locks key ≠ none) → shard.engine.firstConflict work.txn ≠ none
  | .engine .reopen | .recoverFromRaftLog | .restart _ => False
  | .prepare txnId _ _ _ => shard.tables.prepared[txnId]? = none
  | _ => True

instance (shard : EngineShard) (call : Call) : Decidable (shard.Isolating call) := by
  rcases call with ⟨⟨⟩⟩ <;> unfold Isolating <;> infer_instance

/-- The tables tell which transactions stand prepared, and nobody else has written their keys. -/
structure Guarding (shard : EngineShard) : Prop where
  exclusive : shard.tables.Exclusive
  prepared : ∀ id writes, shard.tables.prepared[id]? = some writes ↔ Standing shard.trace id writes
  excluded : Excluded shard.trace

theorem atop_guarding (world : World) (id : Nat) : (atop world id).Guarding := by
  refine ⟨empty_exclusive, fun txnId writes => ⟨fun held => ?_, ?_⟩, ?_⟩
  · cases (Std.TreeMap.getElem?_emptyc (a := txnId)).symm.trans held
  · rintro ⟨before, readTs, after, whole, _⟩
    cases before <;> cases whole
  · intro before event after whole
    cases before <;> cases whole

variable {shard after : EngineShard} {txnId : Nat} {writes : List WriteOp} {op : Op}

theorem Guarding.same (guarding : shard.Guarding) (same : Same shard after) : after.Guarding := by
  obtain ⟨tables, trace, _⟩ := same
  exact ⟨tables ▸ guarding.exclusive, by rw [tables, trace]; exact guarding.prepared, trace ▸ guarding.excluded⟩

theorem Guarding.carried (guarding : shard.Guarding) {command : RaftCommand} (carried : Carried command shard after)
    (exclusive : (shard.tables.apply command).Exclusive)
    (own : ∀ id writes, shard.tables.prepared[id]? = some writes → ∀ op ∈ writes,
      op.1 ∈ (ShardEvent.command command).keys → ∃ commitTs, command = .txnCommit id commitTs writes) :
    after.Guarding := by
  obtain ⟨tables, trace, _⟩ := carried
  refine ⟨tables ▸ exclusive, fun id writes => ?_, ?_⟩
  · rw [tables, trace, standing_concat, apply_prepared, guarding.prepared]
    simp only [ShardEvent.command.injEq]
  · rw [trace]
    apply guarding.excluded.concat
    intro id writes standing op member written
    obtain ⟨commitTs, same⟩ := own id writes ((guarding.prepared id writes).mpr standing) op member written
    exact ⟨commitTs, congrArg _ same⟩

theorem released_exclusive {tables : TwopcTables} (exclusive : tables.Exclusive)
    (first : tables.prepared[txnId]? = none) (free : lockedBy txnId writes tables.locks = none) :
    Exclusive ⟨tables.prepared, releaseWrites txnId writes (lockWrites txnId writes tables.locks)⟩ := by
  intro id others held op member
  have other : id ≠ txnId := by
    rintro rfl
    rw [show tables.prepared[id]? = some others from held] at first
    cases first
  have lock := exclusive id others held op member
  have kept : lockWrites txnId writes tables.locks op.1 = some id := by
    rw [lockWrites, if_neg, lock]
    intro inside
    obtain ⟨mine, inWrites, sameKey⟩ := mem_map.mp inside
    exact other (lockedBy_none free inWrites (sameKey ▸ lock))
  change releaseWrites txnId writes (lockWrites txnId writes tables.locks) op.1 = some id
  rw [releaseWrites, if_neg, kept]
  rintro ⟨_, mine⟩
  rw [kept] at mine
  exact other (Option.some.inj mine)

section

variable (guarding : shard.Guarding)
include guarding

theorem Guarding.prepare (library : Library) (first : shard.tables.prepared[txnId]? = none) (readTs : Nat)
    (writes : List WriteOp) (reads : List (Key × Nat)) :
    (shard.twopcPrepare library txnId readTs writes reads).1.Guarding := by
  rcases shard.twopcPrepare_eq library txnId readTs writes reads with
    ⟨same, _⟩ | ⟨free, ⟨tables, trace, _, _⟩ | carried⟩
  · exact guarding.same same
  · refine ⟨?_, by rw [tables, trace]; exact guarding.prepared, trace ▸ guarding.excluded⟩
    rw [tables]
    exact released_exclusive guarding.exclusive first free
  · exact guarding.carried carried (guarding.exclusive.prepare free readTs) (fun _ _ _ _ _ => nofun)

theorem Guarding.commit (library : Library) (txnId commitTs : Nat) :
    (shard.twopcCommit library txnId commitTs).1.Guarding := by
  rcases shard.twopcCommit_eq library txnId commitTs with ⟨same, _⟩ | ⟨writes, held, carried⟩
  · exact guarding.same same
  apply guarding.carried carried (guarding.exclusive.commit held commitTs)
  intro id others heldOther op member written
  obtain ⟨mine, inWrites, sameKey⟩ := mem_map.mp written
  have same := guarding.exclusive.same heldOther held member inWrites sameKey.symm
  subst same
  cases held.symm.trans heldOther
  exact ⟨commitTs, rfl⟩

theorem Guarding.abort (library : Library) (txnId : Nat) : (shard.twopcAbort library txnId).1.Guarding := by
  rcases shard.twopcAbort_eq library txnId with ⟨same, _⟩ | carried
  · exact guarding.same same
  · exact guarding.carried carried (guarding.exclusive.abort txnId) (fun _ _ _ _ _ => nofun)

theorem Guarding.wrote (tables : after.tables = shard.tables)
    (trace : after.trace = shard.trace ++ [.wrote writes]) (free : ∀ op ∈ writes, shard.tables.locks op.1 = none) :
    after.Guarding := by
  refine ⟨tables ▸ guarding.exclusive, fun id others => ?_, ?_⟩
  · rw [tables, trace, standing_concat, guarding.prepared]
    simp [about]
  · rw [trace]
    apply guarding.excluded.concat
    intro id others standing op member written
    obtain ⟨mine, inWrites, sameKey⟩ := mem_map.mp written
    have lock := guarding.exclusive id others ((guarding.prepared id others).mpr standing) op member
    rw [← sameKey, free mine inWrites] at lock
    cases lock

end

theorem serve_frame (library : Library) (shard : EngineShard) (running : op ≠ .reopen) :
    (shard.serve library op).tables = shard.tables ∧ (shard.serve library op).raftLog = shard.raftLog := by
  cases op <;> first | exact ⟨rfl, rfl⟩ | exact absurd rfl running

theorem serve_trace (library : Library) (shard : EngineShard) (op : Op) :
    (shard.serve library op).trace = shard.trace ++
      ((shard.world.step library op).deeds.drop shard.world.deeds.length).map fun deed => .wrote deed.writes := by
  cases op <;> rfl

theorem Guarding.serve (guarding : shard.Guarding) (library : Library) (isolating : shard.Isolating (.engine op)) :
    (shard.serve library op).Guarding := by
  have running : op ≠ .reopen := by
    rintro rfl
    exact isolating
  obtain ⟨tables, raftLog⟩ := serve_frame library shard running
  have trace := serve_trace library shard op
  rcases shard.world.step_deeds library op with none | ⟨deed, added, written⟩
  · rw [none, drop_length, map_nil, append_nil] at trace
    exact guarding.same ⟨tables, trace, raftLog⟩
  rw [added, drop_left] at trace
  apply guarding.wrote tables trace
  intro write member
  cases op with
  | put conditions key value | delete conditions key =>
    rw [written] at member
    rw [mem_singleton.mp member]
    exact isolating
  | commit conditions txnId =>
    obtain ⟨work, found, same, unconflicted⟩ := written
    rw [same] at member
    by_contra locked
    refine isolating work found ⟨write.1, ?_, locked⟩ unconflicted
    rw [← Std.TreeMap.map_fst_toList_eq_keys]
    exact mem_map_of_mem member
  | _ => cases written

theorem Guarding.step (guarding : shard.Guarding) (library : Library) {call : Call} (isolating : shard.Isolating call) :
    (shard.step library call).Guarding := by
  cases call with
  | engine op => exact guarding.serve library isolating
  | prepare txnId readTs writes reads => exact guarding.prepare library isolating readTs writes reads
  | commit txnId commitTs => exact guarding.commit library txnId commitTs
  | abort txnId => exact guarding.abort library txnId
  | compact through =>
    dsimp only [EngineShard.step]
    split
    · exact ⟨guarding.exclusive, guarding.prepared, guarding.excluded⟩
    · exact guarding
  | recoverFromRaftLog | restart _ => cases isolating
  | _ => exact guarding.same ⟨rfl, rfl, rfl⟩

/-- Along runs whose local commits respect the locks, only the commit of a prepared transaction writes its keys
    while it is prepared, and it writes what was prepared. -/
theorem run_prepared_isolated (library : Library) (world : World) (id : Nat) (calls : List Call)
    (isolating : Along (step library) Isolating (atop world id) calls) :
    let trace := (run (step library) (atop world id) calls).trace
    ∀ before event after, trace = before ++ event :: after → ∀ txnId writes, Standing before txnId writes →
      ∀ op ∈ writes, op.1 ∈ event.keys → ∃ commitTs, event = .command (.txnCommit txnId commitTs writes) := by
  intro trace
  have guarding : (run (step library) (atop world id) calls).Guarding :=
    isolating.invariant (P := Guarding) (atop_guarding world id)
      (fun shard call guarding isolating => guarding.step library isolating)
  exact guarding.excluded

/-- Distributed transaction 1 is prepared with the key `k`; a local transaction writes a key and commits; then the
    distributed one commits. -/
def localCommitBetween (key : Key) : List Call :=
  [.prepare 1 0 [(⟨[107]⟩, some ⟨[118]⟩)] [], .engine (.begin .snapshot), .engine (.perform 1 (.put key ⟨[119]⟩)),
    .engine (.commit ⟨true, none, .ok ()⟩ 1), .commit 1 5]

theorem run_prepared_isolated_otherKey :
    (run (step .plain) (atop (World.fresh ⟨4096, 4096⟩ []) 0) (localCommitBetween ⟨[106]⟩)).trace =
        [.command (.txnPrepare 1 0 [(⟨[107]⟩, some ⟨[118]⟩)]), .wrote [(⟨[106]⟩, some ⟨[119]⟩)],
          .command (.txnCommit 1 5 [(⟨[107]⟩, some ⟨[118]⟩)])] ∧
      ∃ commitTs, ShardEvent.command (.txnCommit 1 5 [(⟨[107]⟩, some ⟨[118]⟩)]) =
        .command (.txnCommit 1 commitTs [(⟨[107]⟩, some ⟨[118]⟩)]) := by
  have trace : (run (step .plain) (atop (World.fresh ⟨4096, 4096⟩ []) 0) (localCommitBetween ⟨[106]⟩)).trace =
      [.command (.txnPrepare 1 0 [(⟨[107]⟩, some ⟨[118]⟩)]), .wrote [(⟨[106]⟩, some ⟨[119]⟩)],
        .command (.txnCommit 1 5 [(⟨[107]⟩, some ⟨[118]⟩)])] := by
    decide +kernel
  have standing : Standing [.command (.txnPrepare 1 0 [(⟨[107]⟩, some ⟨[118]⟩)]), .wrote [(⟨[106]⟩, some ⟨[119]⟩)]] 1
      [(⟨[107]⟩, some ⟨[118]⟩)] := ⟨[], 0, [.wrote [(⟨[106]⟩, some ⟨[119]⟩)]], rfl, by decide⟩
  exact ⟨trace, run_prepared_isolated .plain (World.fresh ⟨4096, 4096⟩ []) 0 (localCommitBetween ⟨[106]⟩)
    (by decide +kernel) _ _ [] trace 1 _ standing (⟨[107]⟩, some ⟨[118]⟩) (mem_singleton_self _) (by decide)⟩

/-- The local transaction writes the prepared key: its commit is acknowledged, and so is that of the distributed
    one after it. -/
theorem local_commit_beside_prepared :
    (run (step .plain) (atop (World.fresh ⟨4096, 4096⟩ []) 0) (localCommitBetween ⟨[107]⟩)).trace =
      [.command (.txnPrepare 1 0 [(⟨[107]⟩, some ⟨[118]⟩)]), .wrote [(⟨[107]⟩, some ⟨[119]⟩)],
        .command (.txnCommit 1 5 [(⟨[107]⟩, some ⟨[118]⟩)])] ∧
      Standing [.command (.txnPrepare 1 0 [(⟨[107]⟩, some ⟨[118]⟩)])] 1 [(⟨[107]⟩, some ⟨[118]⟩)] :=
  ⟨by decide +kernel, [], 0, [], rfl, nofun⟩

end EngineShard

end Takyonic
