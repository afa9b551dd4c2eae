import Takyonic.Storage.Recovery
import Takyonic.Storage.StoreSound

namespace Takyonic

open Foundation List TakyonicEngine LocalRaftNode World SstManager RaftCommand List.Pairwise

namespace LocalRaftNode

def WellFormed (node : LocalRaftNode) : Prop := ∀ entry ∈ node.memtable.entries, entry.WellFormed

variable {node : LocalRaftNode} {entries : List Entry}

theorem WellFormed.applyEntry (wellFormed : node.WellFormed) {entry : Entry} (new : entry.WellFormed) :
    (node.applyEntry entry).WellFormed := by
  intro other member
  rcases mem_of_mem_insertVersion member with rfl | old
  · exact new
  · exact wellFormed other old

section

variable (wellFormed : node.WellFormed) (new : ∀ entry ∈ entries, entry.WellFormed)
include wellFormed new

theorem WellFormed.applyEntries : (entries.foldl LocalRaftNode.applyEntry node).WellFormed := by
  induction entries generalizing node with
  | nil => exact wellFormed
  | cons first rest ih =>
    exact ih (wellFormed.applyEntry (new first mem_cons_self))
      (fun entry member => new entry (mem_cons_of_mem _ member))

theorem WellFormed.applyHook : (node.applyHook entries).WellFormed := by
  induction entries generalizing node with
  | nil => exact wellFormed
  | cons first rest ih =>
    have here : ((node.applyEntry first).advance first.seq).WellFormed :=
      wellFormed.applyEntry (new first mem_cons_self)
    exact ih here (fun entry member => new entry (mem_cons_of_mem _ member))

end

theorem toEntries_wellFormed {command : RaftCommand} {index : Nat} (made : command.toEntries index = .ok entries) :
    ∀ entry ∈ entries, entry.WellFormed := by
  cases command with
  | put key value =>
    cases made
    exact forall_mem_singleton.mpr (opEntry_spec index (key, some value)).2.2
  | delete key =>
    cases made
    exact forall_mem_singleton.mpr (opEntry_spec index (key, none)).2.2
  | txnBatch ops =>
    cases made
    exact forall_mem_map.mpr (fun op _ => (opEntry_spec index op).2.2)
  | txnCommit txnId commitTs ops =>
    cases made
    exact forall_mem_map.mpr (fun op _ => (opEntry_spec commitTs op).2.2)
  | _ => cases made

theorem WellFormed.propose (wellFormed : node.WellFormed) (command : RaftCommand) :
    (node.propose command).1.WellFormed := by
  unfold LocalRaftNode.propose
  dsimp only
  split
  · exact wellFormed
  · split
    · rename_i entries made
      have numbered : WellFormed { node with nextIndex := node.nextIndex + 1 } := wellFormed
      exact numbered.applyHook (toEntries_wellFormed made)
    · exact wellFormed

end LocalRaftNode

namespace Store

structure Whole (store : Store) : Prop extends store.Intact where
  count : store.manager.levelCount = defaultLevelCount
  housed : ∀ file ∈ store.manager.active, file.path.level < defaultLevelCount

variable {store : Store}

section

variable (whole : store.Whole)
include whole

theorem Whole.withNode {node : LocalRaftNode} (wellFormed : node.WellFormed) : Whole { store with node } :=
  ⟨whole.toIntact.withNode wellFormed, whole.count, whole.housed⟩

theorem Whole.flushes {after : Store} (intact : after.Intact) (flushes : store.Flushes after) : after.Whole := by
  refine ⟨intact, flushes.levelCount.trans whole.count, fun file member => ?_⟩
  rcases flushes.placed file member with old | bottom
  · exact whole.housed file old
  · rw [bottom]
    decide

theorem Whole.flushNode : ∃ after, store.flushNode = (after, .ok ()) ∧ after.Whole ∧ store.Flushes after := by
  obtain ⟨after, flushed, intact, flushes⟩ := whole.toIntact.flushNode
  exact ⟨after, flushed, whole.flushes intact flushes, flushes⟩

theorem Whole.maybeFlush : ∃ after, store.maybeFlush = (after, .ok ()) ∧ after.Whole ∧ store.Flushes after := by
  obtain ⟨after, flushed, intact, flushes⟩ := whole.toIntact.maybeFlush
  exact ⟨after, flushed, whole.flushes intact flushes, flushes⟩

theorem Whole.propose (xxh3 : Bytes → UInt64) (command : RaftCommand) : (store.propose xxh3 command).1.Whole := by
  have wellFormed : (store.node.propose command).1.WellFormed :=
    WellFormed.propose whole.wellFormed command
  unfold Store.propose
  split
  · rename_i node index entries proposed
    rw [proposed] at wellFormed
    refine { whole.withNode wellFormed with segments := fun segment member => ?_ }
    obtain ⟨before, old, rfl⟩ := mem_map.mp member
    exact whole.segments before old
  · rename_i node error proposed
    rw [proposed] at wellFormed
    exact whole.withNode wellFormed

theorem Whole.setWatermark (watermark : Nat) :
    Whole { store with manager := store.manager.setMvccWatermark watermark } := by
  exact { whole with
    catalogued := { whole.catalogued with }
    planned := fun job member => { whole.planned job member with } }

theorem Whole.background (move : Background) : (store.background move).Whole := by
  suffices placed : (store.background move).manager.levelCount = defaultLevelCount ∧
      ∀ file ∈ (store.background move).manager.active, file.path.level < defaultLevelCount from
    ⟨whole.toIntact.background move, placed.1, placed.2⟩
  cases move with
  | submit level queueFull =>
    unfold Store.background Store.submit
    dsimp only
    split
    · rename_i plan manager picked
      obtain ⟨-, rfl⟩ := pick_some picked
      split
      · exact ⟨whole.count, whole.housed⟩
      · exact ⟨whole.count, whole.housed⟩
    · exact ⟨whole.count, whole.housed⟩
  | build index =>
    unfold Store.background Store.buildJob
    dsimp only
    split
    · rename_i plan found
      have ordered := whole.toIntact.reorder (jobs_perm found).1
      obtain ⟨manager, files, built, levels, grown, -, -⟩ := ordered.buildHead rfl
      have built : store.manager.buildOutputs plan = (manager, .ok (files.map SstFile.info)) := built
      rw [built]
      refine ⟨grown.levelCount.trans whole.count, fun file member => ?_⟩
      rcases mem_append.mp (grown.active.subset member) with new | old
      · rw [levels file new, ← whole.count]
        exact (ordered.planned _ mem_cons_self).inside
      · exact whole.housed file old
    · exact ⟨whole.count, whole.housed⟩
  | finish index =>
    unfold Store.background Store.finishJob
    dsimp only
    split
    · rename_i plan outputs found
      obtain ⟨finishes, -⟩ := (whole.toIntact.reorder (jobs_perm found).1).finishHead rfl
      exact ⟨finishes.levelCount.trans whole.count, fun file member => whole.housed file (finishes.active member)⟩
    · exact ⟨whole.count, whole.housed⟩

theorem Whole.recovered {maxSstBytes : Nat} {manager : SstManager}
    (done : (create defaultLevelCount 1 maxSstBytes store.manager.dir).recoverExistingSsts = .ok manager) :
    manager.Catalogued [] [] ∧ manager.levelCount = defaultLevelCount ∧ manager.mvccWatermark = 0 ∧
      manager.active.Perm store.manager.active := by
  have catalogued := whole.catalogued
  have stored : ∀ file ∈ store.manager.dir.files, file.path.level < defaultLevelCount :=
    fun file member => whole.housed file (catalogued.stored.subset member)
  have distinct : (store.manager.dir.files.map SstFile.id).Nodup :=
    (catalogued.stored.map SstFile.id).nodup_iff.mpr catalogued.distinct
  obtain ⟨fresh, recovers⟩ := recoverExistingSsts_catalogued catalogued.clean distinct stored done
  have loaded : manager.active.Perm (store.manager.dir.files ++ []) := recovers.active
  rw [append_nil] at loaded
  exact ⟨fresh, recovers.levelCount, recovers.watermark, loaded.trans catalogued.stored⟩

end

theorem Whole.fresh (config : Config) : (Store.fresh config).Whole := by
  refine ⟨⟨⟨⟨List.Perm.refl _, nodup_nil, rfl⟩, ?_, nodup_nil, nofun, nofun, fun _ _ => nil⟩,
    nofun, nil, Nat.succ_pos _, nofun, ?_⟩, rfl, nofun⟩
  · simp [Store.fresh, SstManager.create, SstManager.allFiles]
  · simp [Store.fresh]

end Store

namespace TakyonicEngine

variable {engine : TakyonicEngine} (library : Library)

theorem maybeFlush_whole (engine : TakyonicEngine) (whole : engine.store.Whole) :
    ∃ store, engine.maybeFlush = ({ engine with store }, .ok ()) ∧ store.Whole ∧ engine.store.Flushes store := by
  obtain ⟨store, flushed, done, flushes⟩ := whole.maybeFlush
  refine ⟨store, ?_, done, flushes⟩
  rw [maybeFlush, flushed]

theorem endTransaction_whole (engine : TakyonicEngine) (whole : engine.store.Whole) (txnId : Nat) :
    (engine.endTransaction txnId).store.Whole :=
  whole.setWatermark _

variable (whole : engine.store.Whole)
include whole

theorem applyReplicated_whole (command : RaftCommand) : (engine.applyReplicated command).1.store.Whole := by
  unfold applyReplicated
  dsimp only
  split
  · exact whole
  rename_i entries made
  have applied : ((entries.foldl applyEntry engine.store.node).advance
      (engine.store.node.lastApplied + 1)).WellFormed :=
    LocalRaftNode.WellFormed.applyEntries whole.wellFormed (LocalRaftNode.toEntries_wellFormed made)
  obtain ⟨store, flushed, done, -⟩ := maybeFlush_whole
    (noteCommittedKeys { engine with store := { engine.store with
      node := (entries.foldl applyEntry engine.store.node).advance
        (engine.store.node.lastApplied + 1) } } (entries.map Entry.key) (engine.store.node.lastApplied + 1))
    (whole.withNode applied)
  rw [flushed]
  exact done

variable (conditions : Conditions)

theorem proposeReplicated_whole (raft : RaftHandle) (command : RaftCommand) :
    (engine.proposeReplicated conditions raft command).1.store.Whole := by
  unfold proposeReplicated
  split
  · exact whole
  · exact whole
  · exact applyReplicated_whole whole command

theorem proposeLocal_whole (command : RaftCommand) (keys : List Key) :
    (engine.proposeLocal library command keys).1.store.Whole := by
  have proposed := whole.propose library.xxh3 command
  unfold proposeLocal
  split
  · rename_i answer
    rw [answer] at proposed
    exact proposed
  rename_i store commitTs answer
  rw [answer] at proposed
  obtain ⟨after, flushed, done, -⟩ :=
    maybeFlush_whole (noteCommittedKeys { engine with store } keys commitTs) proposed
  rw [flushed]
  exact done

theorem propose_whole (command : RaftCommand) (key : Key) :
    (engine.propose library conditions command key).1.store.Whole := by
  unfold propose
  split
  · exact whole
  split
  · rename_i raft _
    have proposed := proposeReplicated_whole whole conditions raft command
    split
    · rename_i answer
      rw [answer] at proposed
      exact proposed
    rename_i after commitTs answer
    rw [answer] at proposed
    split
    · exact proposed
    · obtain ⟨store, flushed, done, -⟩ := maybeFlush_whole (after.noteCommittedKeys [key] commitTs) proposed
      rw [flushed]
      exact done
  · split
    · exact whole
    · exact proposeLocal_whole library whole command [key]

theorem commitLocal_whole (fault : Option DiskFault) (txn : Transaction) (ops : List (Key × Option Value)) :
    (engine.commitLocal library fault txn ops).1.store.Whole := by
  have proposed := whole.propose library.xxh3 (.txnBatch ops)
  unfold commitLocal
  split
  · exact whole.withNode whole.wellFormed
  split
  · rename_i answer
    rw [answer] at proposed
    exact proposed
  rename_i store commitTs answer
  rw [answer] at proposed
  dsimp only
  split
  · exact proposed.withNode (nofun : ∀ entry ∈ ([] : List Entry), entry.WellFormed)
  · obtain ⟨after, flushed, done, -⟩ := maybeFlush_whole (noteCommittedKeys
      (mirrorBtreeWrites library { engine with store } ops commitTs) (ops.map Prod.fst) commitTs) proposed
    rw [flushed]
    exact endTransaction_whole _ done txn.txnId

theorem commitTransaction_whole (txn : Transaction) :
    (engine.commitTransaction library conditions txn).1.store.Whole := by
  unfold commitTransaction
  split
  · exact whole
  split
  · exact endTransaction_whole _ whole txn.txnId
  split
  · exact endTransaction_whole _ whole txn.txnId
  split
  · exact endTransaction_whole _ whole txn.txnId
  rename_i ops _
  have doomed : (if txn.isolation = .serializable then
      { engine with ssi := engine.ssi.doomConcurrentReaders txn.txnId txn.writes.keys } else engine).store.Whole := by
    split <;> exact whole
  dsimp only
  generalize (if txn.isolation = .serializable then
      { engine with ssi := engine.ssi.doomConcurrentReaders txn.txnId txn.writes.keys } else engine) = current at doomed
  have logged : (current.logTxnWal library conditions.fault txn).1.store.Whole := by
    unfold logTxnWal
    split <;> exact doomed
  split
  · rename_i answer
    rw [answer] at logged
    exact logged
  rename_i after answer
  rw [answer] at logged
  split
  · exact commitLocal_whole library logged conditions.fault txn ops
  rename_i raft _
  have proposed := proposeReplicated_whole logged conditions raft (.txnBatch ops)
  split
  · rename_i answer
    rw [answer] at proposed
    exact endTransaction_whole _ proposed txn.txnId
  · rename_i answer
    rw [answer] at proposed
    exact endTransaction_whole _ proposed txn.txnId

theorem commit_whole (txn : Transaction) :
    (engine.commit library conditions txn).1.store.Whole := by
  have committed := commitTransaction_whole library whole conditions txn
  unfold commit
  split
  · exact whole
  split
  · rename_i answer
    rw [answer] at committed
    exact endTransaction_whole _ committed txn.txnId
  · exact committed

theorem forceFlush_whole : engine.forceFlush.1.store.Whole := by
  obtain ⟨store, flushed, done, -⟩ := whole.flushNode
  unfold forceFlush
  split
  · exact whole
  · rw [flushed]
    exact done

theorem close_whole : engine.close.1.store.Whole := by
  obtain ⟨store, flushed, done, -⟩ := whole.flushNode
  unfold close
  split
  · exact whole
  · dsimp only
    rw [flushed]
    exact { done with segments := fun segment member => done.segments segment (mem_of_mem_filter member) }

theorem openInner_whole {config : Config} {opened : TakyonicEngine}
    (done : openInner library config engine.disk = .ok opened) : opened.store.Whole := by
  obtain ⟨manager, rebuilt, done⟩ := bind_eq_ok done
  obtain ⟨recovered, replayed, done⟩ := bind_eq_ok done
  obtain ⟨⟨batches, txnWal⟩, -, done⟩ := bind_eq_ok done
  obtain ⟨ariesWal, -, done⟩ := bind_eq_ok done
  obtain ⟨fresh, count, -, active⟩ := whole.recovered rebuilt
  have usable := recoverWal_usable replayed
  dsimp only at done
  generalize named : (⟨config, _, manager, _, recovered.walSegment, _, []⟩ : Store) = store at done
  have mountable : store.Whole := by
    rw [← named]
    refine ⟨⟨fresh, nofun, nil, ?_, ?_, fun segment member => ?_⟩, count,
      fun file member => whole.housed file (active.subset member)⟩
    · rw [count]
      exact Nat.succ_pos _
    · exact Memtable.foldl_wellFormed usable.wellFormed TxnWal.redoEntries_wellFormed
    · obtain ⟨before, old, rfl⟩ := mem_map.mp member
      exact usable.segments before old
  obtain ⟨storage, mounted⟩ := mount_eq store ariesWal engine.disk.catalog
  rw [mounted] at done
  obtain ⟨after, flushed, kept, -⟩ := maybeFlush_whole {
    store, closed := false, txnTracker := ⟨[], 0⟩, ssi := ⟨[]⟩, lastCommit := fun _ => none
    schemas := engine.disk.catalog, storage, ariesWal, distributedRaft := none } mountable
  rw [flushed] at done
  cases done
  exact kept

end TakyonicEngine

namespace World

variable {library : Library} {world : World}

theorem write_whole {op : TxnOp} {write : Key × Option Value} {answer : TakyonicEngine × Except TakyonicError Unit}
    (whole : answer.1.store.Whole) : (world.write op write answer).engine.store.Whole := by
  obtain ⟨engine, result⟩ := answer
  cases result with
  | ok _ => exact whole
  | error _ => exact whole

theorem step_whole (whole : world.engine.store.Whole) (op : Op) : (world.step library op).engine.store.Whole := by
  cases op with
  | put conditions key _ | delete conditions key =>
    exact write_whole (propose_whole library whole conditions _ key)
  | begin isolation =>
    dsimp only [step, begin, beginWithIsolation]
    unfold ensureOpen
    split
    · rename_i begun
      split at begun
      · cases begun
      · cases begun
        exact whole.setWatermark _
    · exact whole
  | perform txnId op =>
    dsimp only [step]
    cases world.work txnId with
    | none => exact whole
    | some work => exact whole
  | commit conditions txnId =>
    dsimp only [step]
    cases world.work txnId with
    | none => exact whole
    | some work =>
      have committed := commit_whole library whole conditions work.txn
      dsimp only [Option.elim, commit]
      split
      · rename_i answer
        rw [answer] at committed
        exact committed
      · rename_i answer
        rw [answer] at committed
        exact committed
  | abort txnId =>
    dsimp only [step]
    cases world.work txnId with
    | none => exact whole
    | some work => exact endTransaction_whole _ whole work.txn.txnId
  | flush => exact forceFlush_whole whole
  | background move => exact whole.background move
  | attach raft => exact whole
  | close => exact close_whole whole
  | reopen =>
    dsimp only [step, reopen]
    split
    · rename_i engine opened
      exact openInner_whole library whole opened
    · exact whole

theorem fresh_whole (config : Config) (catalog : List TableSchema) :
    (fresh config catalog).engine.store.Whole := by
  obtain ⟨storage, mounted⟩ := mount_eq (Store.fresh config) TxnWal.header catalog
  have whole := Store.Whole.fresh config
  unfold fresh TakyonicEngine.fresh
  rw [mounted]
  exact whole

end World

end Takyonic
