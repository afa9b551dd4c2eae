import Takyonic.Storage.EngineIntact
import Takyonic.Twopc.EngineShard
import Takyonic.Twopc.WholeCommit

namespace Takyonic

open Foundation Twopc TcDecisionLog List RaftCommand EngineShard TakyonicEngine LocalRaftNode CommitCall

def RaftCommand.Makes (command : RaftCommand) (entries : List Entry) : Prop :=
  command.isMeta = true ∧ entries = [] ∨ command.isMeta = false ∧ ∀ index, command.toEntries index = .ok entries

namespace RaftCommand.Makes

variable {command : RaftCommand} {entries : List Entry} {node : LocalRaftNode}

section

variable (makes : command.Makes entries)
include makes

theorem wellFormed : ∀ entry ∈ entries, entry.WellFormed := by
  rcases makes with ⟨-, rfl⟩ | ⟨-, made⟩
  · exact nofun
  · exact toEntries_wellFormed (made 0)

theorem applyCommand (index : Nat) :
    (node.applyCommand index command).memtable = (node.applyHook entries).memtable := by
  unfold LocalRaftNode.applyCommand
  rcases makes with ⟨quiet, rfl⟩ | ⟨loud, made⟩
  · rw [quiet]
    rfl
  · rw [loud, made]
    exact applyEntries_memtable node node entries rfl

theorem propose (node : LocalRaftNode) : ∃ after index, node.propose command = (after, .ok (index, entries)) ∧
    after.memtable = (node.applyHook entries).memtable := by
  unfold LocalRaftNode.propose
  rcases makes with ⟨quiet, rfl⟩ | ⟨loud, made⟩
  · rw [quiet]
    exact ⟨_, _, rfl, rfl⟩
  · dsimp only
    rw [loud, made]
    refine ⟨_, _, rfl, ?_⟩
    rw [← applyEntries_memtable node node entries rfl]
    exact (applyEntries_memtable node { node with nextIndex := node.nextIndex + 1 } entries rfl).symm

end

end RaftCommand.Makes

namespace EngineShard

variable (library : Library) {shard : EngineShard} {entries : List Entry} {before after : TakyonicEngine}
  {txnId commitTs : Nat} {writes : List WriteOp} {engine : TakyonicEngine} {op : WriteOp}

structure Absorbs (before after : TakyonicEngine) (entries : List Entry) : Prop where
  whole : after.store.Whole
  storage : after.storage = before.storage
  closed : after.closed = before.closed
  members : ∀ version, version ∈ after.store.versions ↔ version ∈ entries ∨ version ∈ before.store.versions

theorem absorbs_store (whole : engine.store.Whole) (wellFormed : ∀ entry ∈ entries, entry.WellFormed)
    (determined : Entry.stamp.Determined (entries ++ engine.store.node.memtable.entries)) {store : Store}
    (kept : store.manager = engine.store.manager) (jobs : store.jobs = engine.store.jobs)
    (segments : ∀ segment ∈ store.wal, segment.1 ≤ store.walSegment)
    (applied : store.node.memtable = (engine.store.node.applyHook entries).memtable) :
    Absorbs engine { engine with store } entries := by
  have formed : store.node.WellFormed := by
    have after := WellFormed.applyHook whole.wellFormed wellFormed
    unfold WellFormed at after ⊢
    rwa [applied]
  refine ⟨⟨⟨?_, ?_, ?_, ?_, formed, segments⟩, ?_, ?_⟩, rfl, rfl, fun version => ?_⟩
  · rw [kept, jobs]
    exact whole.catalogued
  · rw [kept, jobs]
    exact whole.planned
  · rw [jobs]
    exact whole.separate
  · rw [kept]
    exact whole.levels
  · rw [kept]
    exact whole.count
  · rw [kept]
    exact whole.housed
  · have members : version ∈ _ ↔ _ := mem_applyHook (determined.ofKey version.key) rfl
    unfold Store.versions
    rw [mem_append, applied, kept, mem_append, members, or_assoc]

theorem Absorbs.flushed (absorbs : Absorbs before after entries) :
    Absorbs before after.maybeFlush.1 entries ∧ after.maybeFlush.1.lastCommit = after.lastCommit := by
  obtain ⟨store, flushed, whole, flushes⟩ := after.maybeFlush_whole absorbs.whole
  rw [flushed]
  refine ⟨⟨whole, absorbs.storage, absorbs.closed, fun version => ?_⟩, rfl⟩
  exact (flushes.members version).trans (absorbs.members version)

def noted (engine : TakyonicEngine) : RaftCommand → Key → Option Nat
  | .txnCommit _ commitTs ops => (engine.noteCommittedKeys (ops.map Prod.fst) commitTs).lastCommit
  | _ => engine.lastCommit

theorem applyTwopcSideEffect_engine (shard : EngineShard) (command : RaftCommand) :
    (shard.applyTwopcSideEffect command).engine = { shard.engine with lastCommit := noted shard.engine command } := by
  cases command <;> rfl

theorem applyCommitted_engine (shard : EngineShard) (command : RaftCommand) : (shard.applyCommitted command).engine =
    (maybeFlush { shard.engine with
      store := { shard.engine.store with node := shard.engine.store.node.applyCommand shard.raftIndex command }
      lastCommit := noted shard.engine command }).1 := by
  cases command <;> rfl

theorem Absorbs.noted (absorbs : Absorbs before after entries) (lastCommit : Key → Option Nat) :
    Absorbs before { after with lastCommit } entries :=
  ⟨absorbs.whole, absorbs.storage, absorbs.closed, absorbs.members⟩

theorem proposeTwopc_absorbs (shard : EngineShard) (whole : shard.engine.store.Whole) {command : RaftCommand}
    (makes : command.Makes entries)
    (determined : Entry.stamp.Determined (entries ++ shard.engine.store.node.memtable.entries))
    (answer : (shard.proposeTwopc library command).2 = .ok ()) :
    Absorbs shard.engine (shard.proposeTwopc library command).1.engine entries ∧
      (shard.proposeTwopc library command).1.engine.lastCommit = noted shard.engine command := by
  obtain ⟨result, named⟩ : ∃ result, shard.proposeTwopc library command = result := ⟨_, rfl⟩
  rw [named] at answer ⊢
  unfold proposeTwopc at named
  split at named
  · split at named
    · cases named
      cases answer
    · cases named
      cases answer
    · cases named
      have applied : Absorbs shard.engine { shard.engine with store := { shard.engine.store with
          node := shard.engine.store.node.applyCommand shard.raftIndex command } } entries :=
        absorbs_store whole makes.wellFormed determined rfl rfl whole.segments (makes.applyCommand shard.raftIndex)
      rw [applyCommitted_engine]
      exact (applied.noted (noted shard.engine command)).flushed
  · obtain ⟨node, index, proposed, memtable⟩ := makes.propose shard.engine.store.node
    unfold Store.propose at named
    rw [proposed] at named
    cases named
    rw [applyTwopcSideEffect_engine]
    have applied : ∀ wal : WalDir, (∀ segment ∈ wal, segment.1 ≤ shard.engine.store.walSegment) →
        Absorbs shard.engine { shard.engine with store := { shard.engine.store with node, wal } } entries :=
      fun wal segments => absorbs_store whole makes.wellFormed determined rfl rfl segments memtable
    refine ⟨(applied _ fun segment member => ?_).noted _, rfl⟩
    obtain ⟨before, old, rfl⟩ := mem_map.mp member
    exact whole.segments before old

theorem makes_txnPrepare (txnId readTs : Nat) (ops : List WriteOp) :
    (txnPrepare txnId readTs ops).Makes [] := .inl ⟨rfl, rfl⟩

theorem makes_txnCommit (txnId commitTs : Nat) (ops : List WriteOp) :
    (txnCommit txnId commitTs ops).Makes (ops.map (opEntry commitTs)) :=
  .inr ⟨rfl, fun _ => rfl⟩

theorem twopcPrepare_ok (whole : shard.engine.store.Whole) {readTs : Nat} {reads : List (Key × Nat)}
    (answer : (shard.twopcPrepare library txnId readTs writes reads).2 = .ok ()) :
    let after := (shard.twopcPrepare library txnId readTs writes reads).1
    occValidate library shard.id shard.engine.lastCommit readTs reads writes = .ok () ∧
      after.tables.prepared[txnId]? = some writes ∧ Absorbs shard.engine after.engine [] ∧
      after.engine.lastCommit = shard.engine.lastCommit := by
  intro after
  have tables : after.tables.prepared[txnId]? = some writes := by
    rcases shard.twopcPrepare_eq library txnId readTs writes reads with refused | ⟨-, failed | carried⟩
    · exact absurd answer refused.2
    · exact absurd answer failed.2.2.2
    · rw [carried.tables, TwopcTables.apply_txnPrepare, if_pos rfl]
  obtain ⟨result, named⟩ : ∃ result, shard.twopcPrepare library txnId readTs writes reads = result := ⟨_, rfl⟩
  have same : after = result.1 := congrArg Prod.fst named
  rw [named] at answer
  rw [same] at tables ⊢
  unfold twopcPrepare at named
  dsimp only at named
  split at named
  · cases named
    cases answer
  split at named
  · cases named
    cases answer
  split at named
  · cases named
    cases answer
  rename_i valid
  split at named
  · cases named
    cases answer
  have absorbed := proposeTwopc_absorbs library
    { shard with tables := { shard.tables with locks := lockWrites txnId writes shard.tables.locks } }
    whole (makes_txnPrepare txnId readTs writes) shard.engine.store.node.memtable.ordered.determined
  split at named
  · cases named
    cases answer
  rename_i prepared proposed
  rw [proposed] at absorbed
  obtain ⟨absorbs, lastCommit⟩ := absorbed rfl
  split at named
  · cases named
    cases answer
  · cases named
    exact ⟨valid, tables, absorbs, lastCommit⟩

theorem twopcCommit_ok (answer : (shard.twopcCommit library txnId commitTs).2 = .ok ()) :
    ∃ writes, shard.engine.closed = false ∧ shard.tables.prepared[txnId]? = some writes ∧
      shard.twopcCommit library txnId commitTs = shard.proposeTwopc library (.txnCommit txnId commitTs writes) ∧
      (shard.twopcCommit library txnId commitTs).1.tables.prepared[txnId]? = none := by
  have gone : (shard.twopcCommit library txnId commitTs).1.tables.prepared[txnId]? = none := by
    rcases shard.twopcCommit_eq library txnId commitTs with refused | ⟨writes, -, carried⟩
    · exact absurd answer refused.2
    · rw [carried.tables, TwopcTables.apply_txnCommit, if_pos rfl]
  obtain ⟨result, named⟩ : ∃ result, shard.twopcCommit library txnId commitTs = result := ⟨_, rfl⟩
  rw [named] at answer gone ⊢
  unfold twopcCommit at named
  split at named
  · cases named
    cases answer
  rename_i opened
  split at named
  · cases named
    cases answer
  split at named
  · cases named
    cases answer
  rename_i writes held
  refine ⟨writes, ?_, held, named.symm, gone⟩
  unfold ensureOpen at opened
  split at opened
  · cases opened
  · rename_i running
    exact Bool.eq_false_of_not_eq_true running

def Behind (engine : TakyonicEngine) (commitTs : Nat) (key : Key) : Prop :=
  ∀ version ∈ engine.store.versions, version.key = key → version.seq < commitTs

theorem determined_commit (distinct : (writes.map Prod.fst).Nodup)
    (behind : ∀ op ∈ writes, Behind engine commitTs op.1) :
    Entry.stamp.Determined (writes.map (opEntry commitTs) ++ engine.store.node.memtable.entries) := by
  have apart : ∀ op ∈ writes, ∀ old ∈ engine.store.node.memtable.entries,
      (opEntry commitTs op).key = old.key → (opEntry commitTs op).seq ≠ old.seq := by
    intro op member old inside sameKey sameSeq
    obtain ⟨seq, key, -⟩ := opEntry_spec commitTs op
    have older := behind op member old (mem_append_left _ inside) (sameKey.symm.trans key)
    omega
  intro first inFirst second inSecond sameKey sameSeq
  rcases mem_append.mp inFirst with new | old
  · obtain ⟨op, member, rfl⟩ := mem_map.mp new
    rcases mem_append.mp inSecond with new' | old'
    · obtain ⟨other, member', rfl⟩ := mem_map.mp new'
      have keys : op.1 = other.1 := by
        rw [← (opEntry_spec commitTs op).2.1, ← (opEntry_spec commitTs other).2.1]
        exact sameKey
      rw [inj_on_of_nodup_map distinct member member' keys]
    · exact absurd sameSeq (apart op member second old' sameKey)
  · rcases mem_append.mp inSecond with new' | old'
    · obtain ⟨other, member', rfl⟩ := mem_map.mp new'
      exact absurd sameSeq.symm (apart other member' first old sameKey.symm)
    · exact engine.store.node.memtable.ordered.determined first old second old' sameKey sameSeq

theorem Absorbs.newest (absorbs : Absorbs before after (writes.map (opEntry commitTs)))
    (distinct : (writes.map Prod.fst).Nodup) (inRange : commitTs ≤ u64Max) (member : op ∈ writes)
    (behind : Behind before commitTs op.1) :
    after.store.getAt op.1 u64Max = some (opEntry commitTs op) := by
  have newest := absorbs.whole.toIntact.getAt op.1 u64Max
  have written : opEntry commitTs op ∈ after.store.versions :=
    (absorbs.members _).mpr (.inl (mem_map_of_mem member))
  obtain ⟨seq, key, -⟩ := opEntry_spec commitTs op
  cases found : after.store.getAt op.1 u64Max with
  | none =>
    rw [found] at newest
    have beyond : u64Max < (opEntry commitTs op).seq := newest _ written key
    omega
  | some version =>
    rw [found] at newest
    obtain ⟨stored, ofKey, -, maximal⟩ := newest
    have ofKey : version.key = op.1 := ofKey
    have above : (opEntry commitTs op).seq ≤ version.seq :=
      maximal _ written key (show (opEntry commitTs op).seq ≤ u64Max by omega)
    rcases (absorbs.members version).mp stored with new | old
    · obtain ⟨other, inWrites, rfl⟩ := mem_map.mp new
      rw [(opEntry_spec commitTs other).2.1] at ofKey
      rw [inj_on_of_nodup_map distinct inWrites member ofKey]
    · have older := behind version old ofKey
      omega

theorem twopcCommit_visible (whole : shard.engine.store.Whole)
    (answer : (shard.twopcCommit library txnId commitTs).2 = .ok ())
    (held : shard.tables.prepared[txnId]? = some writes) (distinct : (writes.map Prod.fst).Nodup)
    (behind : ∀ op ∈ writes, Behind shard.engine commitTs op.1) (inRange : commitTs ≤ u64Max)
    (member : op ∈ writes) (plain : shard.engine.mirrorOf library op.1 = none) :
    (shard.twopcCommit library txnId commitTs).1.engine.get library op.1 = .ok op.2 ∧
      (shard.twopcCommit library txnId commitTs).1.engine.lastCommit op.1 = some commitTs := by
  obtain ⟨found, running, same, proposed, -⟩ := twopcCommit_ok library answer
  rw [held] at same
  cases same
  rw [proposed] at answer ⊢
  obtain ⟨absorbs, lastCommit⟩ := proposeTwopc_absorbs library shard whole (makes_txnCommit txnId commitTs writes)
    (determined_commit distinct behind) answer
  have newest := absorbs.newest distinct inRange member (behind op member)
  constructor
  · have answered : Entry.answer (some (opEntry commitTs op)) = (op.2, commitTs) := by
      obtain ⟨key, value⟩ := op
      cases value <;> rfl
    have read : readAt library (shard.proposeTwopc library (.txnCommit txnId commitTs writes)).1.engine
        op.1 u64Max = some (opEntry commitTs op) := by
      unfold readAt
      unfold mirrorOf at plain ⊢
      rw [absorbs.storage, plain]
      exact newest
    unfold TakyonicEngine.get TakyonicEngine.getAtWithTs TakyonicEngine.ensureOpen
    rw [absorbs.closed, running, read, answered]
    rfl
  · rw [lastCommit]
    exact if_pos (mem_map_of_mem member)

theorem applyCommand_wellFormed {node : LocalRaftNode} (wellFormed : node.WellFormed) (index : Nat)
    (command : RaftCommand) : (node.applyCommand index command).WellFormed := by
  unfold applyCommand
  split
  · exact wellFormed
  · split
    · rename_i entries made
      exact wellFormed.applyEntries (toEntries_wellFormed made)
    · exact wellFormed

theorem proposeTwopc_whole (shard : EngineShard) (whole : shard.engine.store.Whole) (command : RaftCommand) :
    (shard.proposeTwopc library command).1.engine.store.Whole := by
  unfold proposeTwopc
  split
  · split
    · exact whole
    · exact whole
    · have applied : Store.Whole { shard.engine.store with
          node := shard.engine.store.node.applyCommand shard.raftIndex command } :=
        whole.withNode (applyCommand_wellFormed whole.wellFormed shard.raftIndex command)
      obtain ⟨store, flushed, done, -⟩ := maybeFlush_whole { shard.engine with
        store := { shard.engine.store with node := shard.engine.store.node.applyCommand shard.raftIndex command }
        lastCommit := noted shard.engine command } applied
      rw [applyCommitted_engine, flushed]
      exact done
  · have proposed := whole.propose library.xxh3 command
    split
    · rename_i failed
      rw [failed] at proposed
      exact proposed
    · rename_i done
      rw [done] at proposed
      rw [applyTwopcSideEffect_engine]
      exact proposed

section

variable (whole : shard.engine.store.Whole)
include whole

theorem twopcPrepare_whole (txnId readTs : Nat) (writes : List WriteOp) (reads : List (Key × Nat)) :
    (shard.twopcPrepare library txnId readTs writes reads).1.engine.store.Whole := by
  unfold twopcPrepare
  dsimp only
  split
  · exact whole
  split
  · exact whole
  split
  · exact whole
  split
  · exact whole
  have proposed := proposeTwopc_whole library
    { shard with tables := { shard.tables with locks := lockWrites txnId writes shard.tables.locks } } whole
    (.txnPrepare txnId readTs writes)
  split
  · rename_i failed
    rw [failed] at proposed
    exact proposed
  · rename_i done
    rw [done] at proposed
    split
    · exact proposed
    · exact proposed

theorem twopcCommit_whole (txnId commitTs : Nat) :
    (shard.twopcCommit library txnId commitTs).1.engine.store.Whole := by
  unfold twopcCommit
  split
  · exact whole
  split
  · exact whole
  split
  · exact whole
  · exact proposeTwopc_whole library shard whole _

theorem twopcAbort_whole (txnId : Nat) : (shard.twopcAbort library txnId).1.engine.store.Whole := by
  unfold twopcAbort
  split
  · exact whole
  split
  · exact whole
  · exact proposeTwopc_whole library shard whole _

end

theorem serve_whole (shard : EngineShard) (whole : shard.engine.store.Whole) (op : Op) :
    (shard.serve library op).engine.store.Whole := by
  have stepped : (shard.world.step library op).engine.store.Whole := World.step_whole whole op
  cases op <;> exact stepped

theorem twopcRecoverFromRaftLog_engine (shard : EngineShard) :
    shard.twopcRecoverFromRaftLog.1.engine = shard.engine := by
  unfold twopcRecoverFromRaftLog
  split <;> rfl

theorem step_whole (whole : shard.engine.store.Whole) (call : Call) : (shard.step library call).engine.store.Whole := by
  cases call with
  | engine op => exact serve_whole library shard whole op
  | prepare txnId readTs writes reads => exact twopcPrepare_whole library whole txnId readTs writes reads
  | commit txnId commitTs => exact twopcCommit_whole library whole txnId commitTs
  | abort txnId => exact twopcAbort_whole library whole txnId
  | compact through =>
    dsimp only [step]
    split
    · exact whole
    · exact whole
  | recoverFromRaftLog =>
    dsimp only [step]
    rw [twopcRecoverFromRaftLog_engine]
    exact whole
  | restart raft =>
    dsimp only [step]
    rw [twopcRecoverFromRaftLog_engine]
    exact serve_whole library _ (serve_whole library shard whole .reopen) (.attach raft)
  | _ => exact whole

end EngineShard

abbrev Fleet := Site EngineShard

namespace Fleet

variable (library : Library)

inductive Op where
  | shard (shardId : Nat) (call : EngineShard.Call)
  | openLog
  | register (shardId : Nat)
  | injectCrashAfterDecide (on : Bool)
  | begin
  | commit (txnId : Nat) (request : DistTxnRequest) (append : AppendResult) (actions : Nat)

def fresh (config : Nat → Config) (catalog : Nat → List TableSchema) : Fleet :=
  ⟨fun shardId => new shardId (config shardId) (catalog shardId), ⟨[], 1, 1, fun _ => none, false⟩, header⟩

def commit (fleet : Fleet) (txnId : Nat) (request : DistTxnRequest) (append : AppendResult) (actions : Nat) :
    Fleet × (CommitCall ⊕ Except TakyonicError DistTxnOutcome) :=
  (start txnId request fleet.coordinator.shards).perform library (participant library) append actions fleet

def step (fleet : Fleet) : Op → Fleet
  | .shard shardId call => fleet.setShard shardId ((fleet.shards shardId).step library call)
  | .openLog =>
    match TransactionCoordinator.openLog library.xxh3 (some fleet.file) with
    | .ok (coordinator, file) => { fleet with coordinator, file }
    | .error _ => fleet
  | .register shardId => { fleet with coordinator := fleet.coordinator.registerShard shardId }
  | .injectCrashAfterDecide on => { fleet with coordinator := { fleet.coordinator with crashAfterDecide := on } }
  | .begin => { fleet with coordinator := fleet.coordinator.begin.2 }
  | .commit txnId request append actions => (fleet.commit library txnId request append actions).1

/-- The clock is ahead of every version of the keys, and the keys are not those of a B-Tree table. -/
structure Ahead (fleet : Fleet) (request : DistTxnRequest) : Prop where
  snapshot : request.readTs ≤ fleet.coordinator.clock
  inRange : fleet.coordinator.clock ≤ u64Max
  distinct : ∀ branch ∈ request.branches, (branch.writes.map Prod.fst).Nodup
  behind : ∀ branch ∈ request.branches, ∀ op ∈ branch.writes,
    Behind (fleet.shards branch.shardId).engine fleet.coordinator.clock op.1
  plain : ∀ branch ∈ request.branches, ∀ op ∈ branch.writes,
    (fleet.shards branch.shardId).engine.mirrorOf library op.1 = none

def Whole (fleet : Fleet) : Prop := ∀ shardId, (fleet.shards shardId).engine.store.Whole

variable {library} {fleet after : Fleet} {append : AppendResult} {call : CommitCall}

section

variable (whole : fleet.Whole)
include whole

theorem Whole.setShard {shardId : Nat} {shard : EngineShard} (here : shard.engine.store.Whole) :
    Fleet.Whole (fleet.setShard shardId shard) := by
  intro other
  by_cases same : other = shardId
  · rw [same, show (fleet.setShard shardId shard).shards shardId = shard from Function.update_self _ _ _]
    exact here
  · rw [show (fleet.setShard shardId shard).shards other = fleet.shards other from Function.update_of_ne same _ _]
    exact whole other

theorem Whole.moves {next : CommitCall ⊕ Except TakyonicError DistTxnOutcome}
    (moves : call.Moves library (participant library) append fleet after next) : after.Whole := by
  cases moves with
  | voted _ _ | refused _ => exact whole.setShard (twopcPrepare_whole library (whole _) _ _ _ _)
  | rolledBack _ => exact whole.setShard (twopcAbort_whole library (whole _) _)
  | applied _ | stuck _ => exact whole.setShard (twopcCommit_whole library (whole _) _ _)
  | _ => exact whole

theorem Whole.perform (actions : Nat) :
    Fleet.Whole (call.perform library (participant library) append actions fleet).1 := by
  induction actions generalizing fleet call with
  | zero => exact whole
  | succ actions ih =>
    have next := whole.moves (call.advance_moves library (participant library) append fleet)
    unfold perform
    split
    · rename_i moved
      rw [moved] at next
      exact ih next
    · rename_i moved
      rw [moved] at next
      exact next

theorem Whole.step (op : Op) : (fleet.step library op).Whole := by
  cases op with
  | shard shardId call => exact whole.setShard (step_whole library (whole shardId) call)
  | openLog =>
    dsimp only [Fleet.step]
    split
    · exact whole
    · exact whole
  | commit txnId request append actions => exact whole.perform actions
  | _ => exact whole

end

theorem run_whole (config : Nat → Config) (catalog : Nat → List TableSchema) (ops : List Op) :
    (run (step library) (fresh config catalog) ops).Whole := by
  have allowed : ∀ op ∈ ops, True := fun _ _ => True.intro
  apply run_invariant allowed
  · exact fun shardId => World.fresh_whole (config shardId) (catalog shardId)
  · exact fun fleet op whole _ => Whole.step whole op

/-- In every engine, the tables of a level above the first do not overlap, open compactions reserve different
    tables, and a read finds the newest version stored. -/
theorem run_engines_sound (config : Nat → Config) (catalog : Nat → List TableSchema) (ops : List Op) (shardId : Nat) :
    let store := ((run (step library) (fresh config catalog) ops).shards shardId).engine.store
    (∀ level, 0 < level → (store.manager.levels level).Pairwise SstManager.Apart) ∧
      store.jobs.Pairwise (fun first second => ∀ id ∈ first.plan.reserved, id ∉ second.plan.reserved) ∧
      ∀ key readTs, Entry.stamp.IsNewest store.versions key readTs (store.getAt key readTs) := by
  intro store
  have whole : store.Whole := run_whole config catalog ops shardId
  exact ⟨whole.catalogued.apart, whole.separate, whole.toIntact.getAt⟩

theorem visits_distinct {txnId commitTs : Nat} {branches : List ShardBranch}
    (visits : Visits (apply (participant library) txnId commitTs) branches fleet after) :
    (branches.map ShardBranch.shardId).Nodup := by
  induction visits with
  | done fleet => exact nodup_nil
  | next answer later ih =>
    rename_i branch rest fleet after
    refine nodup_cons.mpr ⟨fun again => ?_, ih⟩
    obtain ⟨other, member, same⟩ := mem_map.mp again
    obtain ⟨-, -, -, -, gone⟩ := twopcCommit_ok library answer
    have twice := (later.shard ih member).1
    rw [same, show (fleet.setShard branch.shardId _).shards branch.shardId = _ from Function.update_self _ _ _] at twice
    obtain ⟨writes, -, held, -, -⟩ := twopcCommit_ok library twice
    cases gone.symm.trans held

/-- In every history of engine calls and distributed transactions, a commit that finds the clock ahead of the
    stored versions is visible once it has returned, and the last commits do not go back. -/
theorem run_committed_visible (config : Nat → Config) (catalog : Nat → List TableSchema) (ops : List Op)
    {txnId id commitTs actions : Nat} {request : DistTxnRequest} {append : AppendResult} {after : Fleet}
    (returned : (run (step library) (fresh config catalog) ops).commit library txnId request append actions =
      (after, .inr (.ok (.committed id commitTs))))
    (ahead : (run (step library) (fresh config catalog) ops).Ahead library request) {branch : ShardBranch}
    (member : branch ∈ request.branches) {op : WriteOp} (written : op ∈ branch.writes) :
    (after.shards branch.shardId).engine.get library op.1 = .ok op.2 ∧
      ∀ last, ((run (step library) (fresh config catalog) ops).shards branch.shardId).engine.lastCommit op.1 =
        some last → ∃ next, (after.shards branch.shardId).engine.lastCommit op.1 = some next ∧ last ≤ next := by
  have whole : (run (step library) (fresh config catalog) ops).Whole := run_whole config catalog ops
  generalize run (step library) (fresh config catalog) ops = fleet at returned ahead whole
  obtain ⟨stamp, middle, decided, voted, shards, applied⟩ := perform_committed returned
  have distinct := visits_distinct applied
  obtain ⟨accepted, prepared⟩ := voted.shard distinct member
  obtain ⟨answer, committed⟩ := applied.shard distinct member
  rw [shards, prepared] at answer committed
  obtain ⟨valid, held, absorbs, lastCommit⟩ := twopcPrepare_ok library (whole branch.shardId) accepted
  have behind : ∀ op ∈ branch.writes, Behind (vote (participant library)
      (start txnId request fleet.coordinator.shards) (fleet.shards branch.shardId) branch).1.engine commitTs op.1 := by
    intro op inside version stored ofKey
    rw [stamp]
    rcases (absorbs.members version).mp stored with new | old
    · cases new
    · exact ahead.behind branch member op inside version old ofKey
  have plain := ahead.plain branch member op written
  unfold mirrorOf at plain
  rw [← absorbs.storage] at plain
  obtain ⟨visible, last⟩ := twopcCommit_visible library absorbs.whole answer held
    (ahead.distinct branch member) behind (stamp ▸ ahead.inRange) written plain
  rw [committed]
  refine ⟨visible, fun old noted => ⟨commitTs, last, ?_⟩⟩
  calc old ≤ request.readTs := occValidate_writes valid written noted
    _ ≤ commitTs := stamp ▸ ahead.snapshot

def putRequest (readTs : Nat) (byte : UInt8) : DistTxnRequest := ⟨readTs, [⟨0, [(⟨[107]⟩, some ⟨[byte]⟩)], []⟩]⟩

def localPut (byte : UInt8) : Op := .shard 0 (.engine (.put ⟨true, none, .ok ()⟩ ⟨[107]⟩ ⟨[byte]⟩))

def small : Fleet := fresh (fun _ => ⟨4096, 4096⟩) (fun _ => [])

theorem run_committed_visible_afterPut :
    let fleet := run (step .plain) small [localPut 117, .register 0, .begin]
    (fleet.commit .plain 1 (putRequest 1 118) .synced 7).2 = .inr (.ok (.committed 1 2)) ∧
      ((fleet.commit .plain 1 (putRequest 1 118) .synced 7).1.shards 0).engine.get .plain ⟨[107]⟩ =
        .ok (some ⟨[118]⟩) := by
  intro fleet
  have outcome : (fleet.commit .plain 1 (putRequest 1 118) .synced 7).2 = .inr (.ok (.committed 1 2)) := by rfl
  have ahead : fleet.Ahead .plain (putRequest 1 118) := by
    refine ⟨by decide +kernel, by decide +kernel, by decide +kernel, ?_, by decide +kernel⟩
    unfold Behind
    decide +kernel
  have visible := run_committed_visible (fun _ => ⟨4096, 4096⟩) (fun _ => []) [localPut 117, .register 0, .begin]
    (Prod.ext rfl outcome) ahead (mem_singleton_self _) (mem_singleton_self _)
  exact ⟨outcome, visible.1⟩

/-- The first transaction writes the key at timestamp 4, a local put lowers the last commit of the key to its index
    3, and the clock of a reopened coordinator starts over: the second transaction commits at 4 as well, and a read
    still answers the value of the first. -/
theorem committed_write_invisible :
    let fleet := run (step .plain) small [.register 0, .begin, .begin, .begin,
      .commit 3 (putRequest 3 97) .synced 7, localPut 98, .openLog, .register 0, .begin, .begin, .begin]
    (fleet.commit .plain 6 (putRequest 3 99) .synced 7).2 = .inr (.ok (.committed 6 4)) ∧
      ((fleet.commit .plain 6 (putRequest 3 99) .synced 7).1.shards 0).engine.get .plain ⟨[107]⟩ = .ok (some ⟨[97]⟩) :=
  ⟨by rfl, by decide +kernel⟩

end Fleet

end Takyonic
