import Takyonic.Storage.StoreSound
import Takyonic.Storage.TransactionFrame

namespace Takyonic

open Foundation List TakyonicEngine World RaftCommand Store Std.TreeMap

theorem Store.Sound.setWatermark {store : Store} {history : List Entry} {mark : Nat}
    (sound : store.Sound history mark) (watermark : Nat) :
    Sound { store with manager := store.manager.setMvccWatermark watermark } history mark := by
  exact { sound with
    catalogued := { sound.catalogued with }
    prepared := fun job member => { sound.prepared job member with } }

variable {conditions : Conditions} {epoch : Nat × Nat}

namespace TakyonicEngine

variable {library : Library} {engine : TakyonicEngine} {history : List Entry} {mark : Nat} {store : Store}
  {epochs : EpochManager} {idle : Nat}

structure Steady (engine : TakyonicEngine) (mark : Nat) : Prop where
  opened : engine.closed = false
  alone : engine.distributedRaft = none
  applied : engine.store.node.nextIndex = engine.store.node.lastApplied + 1
  watermark : engine.store.manager.mvccWatermark ≤ engine.store.node.lastApplied + 1
  marked : mark ≤ engine.store.node.lastApplied + 1
  epochs : ∀ epoch ∈ engine.txnTracker.active, engine.store.manager.mvccWatermark ≤ epoch.2 + 1 ∧
    mark ≤ epoch.2 + 1 ∧ epoch.2 ≤ engine.store.node.lastApplied
  ids : ∀ epoch ∈ engine.txnTracker.active, epoch.1 ≤ engine.txnTracker.nextId

section

variable (steady : engine.Steady mark)
include steady

theorem Steady.ensureOpen : engine.ensureOpen = .ok () := by
  rw [TakyonicEngine.ensureOpen, steady.opened]
  rfl

theorem Steady.keeps (keeps : engine.store.Keeps store) : Steady { engine with store } mark := by
  refine ⟨steady.opened, steady.alone, ?_, ?_, ?_, fun epoch active => ?_, steady.ids⟩
  · exact keeps.nextIndex.trans (keeps.lastApplied ▸ steady.applied)
  · rw [keeps.watermark, keeps.lastApplied]
    exact steady.watermark
  · exact keeps.lastApplied.symm ▸ steady.marked
  · rw [keeps.watermark, keeps.lastApplied]
    exact steady.epochs epoch active

theorem Steady.next (wrote : engine.store.Wrote store) :
    store.node.lastApplied = engine.store.node.lastApplied + 1 := by
  rw [wrote.lastApplied, steady.applied]
  omega

theorem Steady.wrote (wrote : engine.store.Wrote store) : Steady { engine with store } mark := by
  have next := steady.next wrote
  refine ⟨steady.opened, steady.alone, ?_, ?_, ?_, fun epoch active => ?_, steady.ids⟩
  · rw [wrote.nextIndex, next, steady.applied]
  · rw [wrote.watermark, next]
    exact Nat.le_succ_of_le steady.watermark
  · rw [next]
    exact Nat.le_succ_of_le steady.marked
  · rw [wrote.watermark, next]
    obtain ⟨watermark, marked, past⟩ := steady.epochs epoch active
    exact ⟨watermark, marked, Nat.le_succ_of_le past⟩

end

theorem watermark_le (active : epoch ∈ epochs.active) : epochs.watermark.getD idle ≤ epoch.2 := by
  obtain ⟨least, found⟩ := Option.isSome_iff_exists.mp
    (isSome_min?_of_mem (mem_map_of_mem active : epoch.2 ∈ epochs.active.map Prod.snd))
  rw [EpochManager.watermark, found]
  exact (List.min?_eq_some_iff.mp found).2 _ (mem_map_of_mem active)

theorem watermark_idle {bound : Nat} (le : idle ≤ bound) (each : ∀ epoch ∈ epochs.active, epoch.2 ≤ bound) :
    epochs.watermark.getD idle ≤ bound := by
  cases found : epochs.watermark with
  | none => exact le
  | some least =>
    obtain ⟨epoch, active, rfl⟩ := mem_map.mp (List.min?_mem found)
    exact each epoch active

theorem Steady.publishWatermark (steady : engine.Steady mark) : engine.publishWatermark.Steady mark := by
  refine { steady with watermark := ?_, epochs := fun epoch active => ?_ }
  · show engine.txnTracker.watermark.getD _ ≤ engine.store.node.lastApplied + 1
    rw [steady.opened]
    exact watermark_idle le_rfl (fun epoch active => Nat.le_succ_of_le (steady.epochs epoch active).2.2)
  · obtain ⟨-, marked, past⟩ := steady.epochs epoch active
    exact ⟨Nat.le_succ_of_le (watermark_le active), marked, past⟩

theorem Steady.endTransaction (steady : engine.Steady mark) (txnId : Nat) :
    (engine.endTransaction txnId).Steady mark := by
  have finished : Steady { engine with
      ssi := engine.ssi.unregister txnId, txnTracker := engine.txnTracker.finish txnId } mark := by
    refine { steady with epochs := fun epoch active => ?_, ids := fun epoch active => ?_ }
    · exact steady.epochs epoch (mem_of_mem_filter active)
    · exact steady.ids epoch (mem_of_mem_filter active)
  exact finished.publishWatermark

theorem Steady.background (steady : engine.Steady mark) (sound : engine.store.Sound history mark) (move : Background) :
    Steady { engine with store := engine.store.background move } (engine.store.markAfter mark move) := by
  have kept := steady.keeps (sound.background move).2
  have bound : ∀ limit, mark ≤ limit → engine.store.manager.mvccWatermark ≤ limit →
      engine.store.markAfter mark move ≤ limit := by
    intro limit marked watermark
    unfold markAfter
    split
    · split
      · exact Nat.max_le.mpr ⟨marked, watermark⟩
      · exact marked
    · exact marked
  have lastApplied : (engine.store.background move).node.lastApplied = engine.store.node.lastApplied :=
    (sound.background move).2.lastApplied
  refine { kept with marked := ?_, epochs := fun epoch active => ?_ }
  · rw [lastApplied]
    exact bound _ steady.marked steady.watermark
  · obtain ⟨watermark, marked, past⟩ := steady.epochs epoch active
    obtain ⟨watermark', -, past'⟩ := kept.epochs epoch active
    exact ⟨watermark', bound _ marked watermark, past'⟩

section Writing

variable (library) {command : RaftCommand} {txn : Transaction}

section

variable (sound : engine.store.Sound history mark)
include sound

theorem forceFlush_sound (steady : engine.Steady mark) :
    ∃ store, engine.forceFlush = ({ engine with store }, .ok ()) ∧ store.Sound history mark ∧
      engine.store.Keeps store := by
  obtain ⟨store, flushed, after, keeps⟩ := sound.flushNode
  refine ⟨store, ?_, after, keeps⟩
  rw [forceFlush, steady.ensureOpen, flushed]

theorem proposeLocal_sound (plain : command.Plain) (keys : List Key) :
    ∃ store, engine.proposeLocal library command keys =
        ({ engine.noteCommittedKeys keys engine.store.node.nextIndex with store }, .ok ()) ∧
      store.Sound (history ++ command.entriesAt engine.store.node.nextIndex) mark ∧ engine.store.Wrote store := by
  obtain ⟨middle, proposed, written, wrote⟩ := sound.propose library.xxh3 plain
  obtain ⟨store, flushed, after, keeps⟩ := written.maybeFlush
  refine ⟨store, ?_, after, wrote.keeps keeps⟩
  rw [proposeLocal, proposed]
  unfold maybeFlush
  dsimp only [noteCommittedKeys]
  rw [flushed]

theorem propose_sound (steady : engine.Steady mark) (plain : command.Plain) (conditions : Conditions) (key : Key) :
    (∃ error, engine.propose library conditions command key = (engine, .error error)) ∨
    ∃ store, engine.propose library conditions command key =
        ({ engine.noteCommittedKeys [key] engine.store.node.nextIndex with store }, .ok ()) ∧
      store.Sound (history ++ command.entriesAt engine.store.node.nextIndex) mark ∧ engine.store.Wrote store := by
  unfold propose
  split
  · exact .inl ⟨_, rfl⟩
  · rw [steady.alone, steady.ensureOpen]
    exact .inr (proposeLocal_sound library sound plain [key])

end

theorem writes_plain (writes : txn.writes.isEmpty = false) : (txnBatch txn.writes.toList).Plain := by
  constructor
  · rw [map_fst_toList_eq_keys]
    exact distinct_keys.imp (fun different same => different (compare_eq_iff_eq.mpr same))
  · intro empty
    have absent := isEmpty_toList (t := txn.writes)
    rw [empty, writes] at absent
    cases absent

def committed (library : Library) (engine : TakyonicEngine) (txn : Transaction) (store : Store) (ssi : SsiRegistry) :
    TakyonicEngine :=
  let index := engine.store.node.nextIndex
  let ops := txn.writes.toList
  { engine with
    store, ssi
    ariesWal := engine.ariesWal ++ TxnWal.committedTxn library.xxh3 (txn.txnId, ops.map (WalRecord.ofWrite library))
    storage := (engine.mirrorBtreeWrites library ops index).storage
    lastCommit := (engine.noteCommittedKeys (ops.map Prod.fst) index).lastCommit }

theorem commit_sound (sound : engine.store.Sound history mark) (steady : engine.Steady mark)
    (unfinished : txn.finished = false) (writes : txn.writes.isEmpty = false) (healthy : conditions.fault = none) :
    (∃ error, engine.commit library conditions txn =
      ((engine.endTransaction txn.txnId).endTransaction txn.txnId, .error error)) ∨
    engine.firstConflict txn = none ∧ ∃ store ssi, engine.commit library conditions txn =
        ((committed library engine txn store ssi).endTransaction txn.txnId, .ok engine.store.node.nextIndex) ∧
      store.Sound (history ++ txn.writes.toList.map (opEntry engine.store.node.nextIndex)) mark ∧
      engine.store.Wrote store := by
  unfold commit commitTransaction
  rw [unfinished, steady.ensureOpen, writes]
  by_cases doomed : txn.isolation = .serializable ∧ engine.ssi.isDoomed txn.txnId = true
  · rw [if_pos doomed]
    exact .inl ⟨_, rfl⟩
  rw [if_neg doomed]
  unfold prepareTxnCommit
  cases conflict : engine.firstConflict txn with
  | some found => exact .inl ⟨_, rfl⟩
  | none =>
    by_cases admitted : conditions.admitted = true
    · right
      refine ⟨rfl, ?_⟩
      have registry : ∃ ssi, (if txn.isolation = .serializable then
          { engine with ssi := engine.ssi.doomConcurrentReaders txn.txnId txn.writes.keys } else engine) =
            { engine with ssi } := by
        split
        · exact ⟨_, rfl⟩
        · exact ⟨engine.ssi, rfl⟩
      obtain ⟨ssi, registry⟩ := registry
      obtain ⟨middle, proposed, written, wrote⟩ := sound.propose library.xxh3 (writes_plain writes)
      obtain ⟨store, flushed, after, keeps⟩ := written.maybeFlush
      refine ⟨store, ssi, ?_, after, wrote.keeps keeps⟩
      rw [if_pos admitted]
      rw [registry, healthy]
      simp only [logTxnWal, steady.alone, commitLocal, reduceCtorEq, if_false, proposed, mirrorBtreeWrites,
        noteCommittedKeys, maybeFlush, flushed, committed]
    · left
      rw [if_neg admitted]
      exact ⟨_, rfl⟩

end Writing

/-- What readers and validation see of an engine stays. -/
structure Same (before after : TakyonicEngine) : Prop where
  lastCommit : after.lastCommit = before.lastCommit
  storage : after.storage = before.storage
  schemas : after.schemas = before.schemas
  lastApplied : after.store.node.lastApplied = before.store.node.lastApplied

theorem Same.keeps (keeps : engine.store.Keeps store) : engine.Same { engine with store } :=
  ⟨rfl, rfl, rfl, keeps.lastApplied⟩

theorem Same.endTransaction (engine : TakyonicEngine) (txnId : Nat) : engine.Same (engine.endTransaction txnId) :=
  ⟨rfl, rfl, rfl, rfl⟩

structure Noted (before after : TakyonicEngine) (keys : List Key) : Prop where
  lastCommit : after.lastCommit = (before.noteCommittedKeys keys (before.store.node.lastApplied + 1)).lastCommit
  schemas : after.schemas = before.schemas
  lastApplied : after.store.node.lastApplied = before.store.node.lastApplied + 1

end TakyonicEngine

def TxnOp.ofWrite : Key × Option Value → TxnOp
  | (key, some value) => .put key value
  | (key, none) => .delete key

def Op.Healthy : Op → Prop
  | .commit conditions _ => conditions.fault = none
  | .attach _ | .close | .reopen => False
  | _ => True

def Op.single : Op → Option (Key × Option Value)
  | .put _ key value => some (key, some value)
  | .delete _ key => some (key, none)
  | _ => none

instance (op : Op) : Decidable op.Healthy := by
  rcases op with ⟨⟩ <;> unfold Op.Healthy <;> infer_instance

namespace World

variable {library : Library} {world : World} {work : Work}

structure Sound (world : World) : Prop where
  store : world.engine.store.Sound world.history world.mark
  steady : world.engine.Steady world.mark
  tracked : ∀ work ∈ world.live, (work.txn.txnId, work.txn.readTs) ∈ world.engine.txnTracker.active
  unfinished : ∀ work ∈ world.live, work.txn.finished = false
  distinct : (world.live.map (·.txn.txnId)).Nodup

/-- What one step can do. -/
inductive Move (library : Library) (world : World) : Op → World → Prop
  | quiet {op : Op} {engine : TakyonicEngine} {mark : Nat} (same : world.engine.Same engine) :
      Move library world op { world with engine, mark }
  | wrote {op : Op} {engine : TakyonicEngine} {write : Key × Option Value} (single : op.single = some write)
      (noted : world.engine.Noted engine [write.1]) (storage : engine.storage = world.engine.storage) :
      Move library world op { world with engine, deeds := world.deeds ++
        [⟨world.engine.store.node.lastApplied + 1, [(.ofWrite write, .ok .done)], [write]⟩] }
  | began {engine : TakyonicEngine} {txnId : Nat} {isolation : IsolationLevel} (same : world.engine.Same engine)
      (new : ∀ work ∈ world.live, work.txn.txnId ≠ txnId) :
      Move library world (.begin isolation) { world with engine, live := world.live ++
        [Work.mk ⟨txnId, world.engine.store.node.lastApplied, isolation, ∅, ∅, false⟩ []] }
  | performed {work : Work} {op : TxnOp} (member : work ∈ world.live) :
      Move library world (.perform work.txn.txnId op) (world.perform library work op)
  | ended {op : Op} {engine : TakyonicEngine} {work : Work} {outcome : Outcome} (member : work ∈ world.live)
      (same : world.engine.Same engine)
      (harmless : ∀ commitTs, outcome = .committed commitTs → work.txn.writes.isEmpty = true) :
      Move library world op ({ world with engine }.finish work outcome)
  | committed {conditions : Conditions} {engine : TakyonicEngine} {work : Work} (member : work ∈ world.live)
      (writes : work.txn.writes.isEmpty = false) (free : world.engine.firstConflict work.txn = none)
      (noted : world.engine.Noted engine (work.txn.writes.toList.map Prod.fst))
      (storage : engine.storage = (world.engine.mirrorBtreeWrites library work.txn.writes.toList
        (world.engine.store.node.lastApplied + 1)).storage) :
      Move library world (.commit conditions work.txn.txnId) ({ world with engine, deeds := world.deeds ++
        [Deed.mk (world.engine.store.node.lastApplied + 1) work.script work.txn.writes.toList] }.finish work
          (.committed (world.engine.store.node.lastApplied + 1)))

theorem work_eq_some {txnId : Nat} (found : world.work txnId = some work) :
    work ∈ world.live ∧ work.txn.txnId = txnId :=
  ⟨mem_of_find?_eq_some found, by simpa using List.find?_some found⟩

theorem history_append (world : World) (deed : Deed) :
    ({ world with deeds := world.deeds ++ [deed] } : World).history = world.history ++ deed.entries := by
  simp [history]

theorem perform_eq {op : TxnOp} {reply : Reply} {session : Session}
    (result : (Transaction.perform (world.engine.reader library work.txn.readTs) op).exec
      ⟨world.engine.ssi, work.txn⟩ = (reply, session)) :
    world.perform library work op = { world with
      engine := { world.engine with ssi := session.ssi }
      live := world.live.map fun other =>
        if other.txn.txnId = work.txn.txnId then ⟨session.txn, work.script ++ [(op, reply)]⟩ else other } := by
  rw [TxnM.exec] at result
  rw [perform, result]

variable {engine : TakyonicEngine}

theorem Sound.finish {deeds : List Deed} (sound : world.Sound) (steady : engine.Steady world.mark)
    (store : engine.store.Sound (history { world with deeds }) world.mark)
    (active : ∀ epoch ∈ world.engine.txnTracker.active, epoch.1 ≠ work.txn.txnId → epoch ∈ engine.txnTracker.active)
    (outcome : Outcome) : (finish { world with engine, deeds } work outcome).Sound := by
  refine ⟨store, steady, fun other member => ?_, fun other member => ?_, ?_⟩
  · obtain ⟨inLive, different⟩ := mem_filter.mp member
    exact active _ (sound.tracked other inLive) (of_decide_eq_true different)
  · exact sound.unfinished other (mem_of_mem_filter member)
  · exact sound.distinct.sublist (filter_sublist.map _)

theorem endTransaction_active {engine : TakyonicEngine} (active : epoch ∈ engine.txnTracker.active)
    (different : epoch.1 ≠ txnId) : epoch ∈ (engine.endTransaction txnId).txnTracker.active :=
  mem_filter.mpr ⟨active, decide_eq_true different⟩

section Steps

variable (library) (sound : world.Sound) {op : Op}
include sound

theorem Sound.quiet {mark : Nat} (store : engine.store.Sound world.history mark) (steady : engine.Steady mark)
    (same : engine.txnTracker = world.engine.txnTracker) : Sound { world with engine, mark } := by
  refine ⟨store, steady, ?_, sound.unfinished, sound.distinct⟩
  rw [same]
  exact sound.tracked

theorem Sound.write {write : Key × Option Value} (single : op.single = some write) (conditions : Conditions)
    {command : RaftCommand} (plain : command.Plain)
    (entries : ∀ index, command.entriesAt index = [opEntry index write]) :
    Move library world op
        (world.write (.ofWrite write) write (world.engine.propose library conditions command write.1)) ∧
      (world.write (.ofWrite write) write (world.engine.propose library conditions command write.1)).Sound := by
  rcases propose_sound library sound.store sound.steady plain conditions write.1 with
    ⟨error, refused⟩ | ⟨store, proposed, after, wrote⟩
  · rw [refused]
    exact ⟨.quiet ⟨rfl, rfl, rfl, rfl⟩, sound⟩
  · rw [proposed]
    have next := sound.steady.next wrote
    have index : world.engine.store.node.nextIndex = store.node.lastApplied := sound.steady.applied.trans next.symm
    rw [entries, index] at after
    have moved : world.write (.ofWrite write) write
        ({ world.engine.noteCommittedKeys [write.1] world.engine.store.node.nextIndex with store }, .ok ()) =
        { world with
          engine := { world.engine.noteCommittedKeys [write.1] (world.engine.store.node.lastApplied + 1) with store }
          deeds := world.deeds ++
            [⟨world.engine.store.node.lastApplied + 1, [(.ofWrite write, .ok .done)], [write]⟩] } := by
      rw [← sound.steady.applied, index]
      rfl
    rw [moved]
    refine ⟨.wrote single ⟨rfl, rfl, next⟩ rfl, ?_, ?_, sound.tracked, sound.unfinished, sound.distinct⟩
    · show store.Sound (history { world with deeds := _ }) world.mark
      rw [history_append, ← next]
      exact after
    · exact { sound.steady.wrote wrote with }

theorem Sound.begin (isolation : IsolationLevel) :
    Move library world (.begin isolation) (world.begin isolation) ∧ (world.begin isolation).Sound := by
  have begun : world.engine.beginWithIsolation isolation = .ok (⟨world.engine.txnTracker.nextId + 1,
      world.engine.store.node.lastApplied, isolation, ∅, ∅, false⟩, { publishWatermark { world.engine with
        txnTracker := (world.engine.txnTracker.begin world.engine.store.node.lastApplied).2 } with
          ssi := if isolation = .serializable then world.engine.ssi.register (world.engine.txnTracker.nextId + 1)
            else world.engine.ssi }) := by
    rw [beginWithIsolation, sound.steady.ensureOpen]
    rfl
  have below : ∀ work ∈ world.live, work.txn.txnId ≤ world.engine.txnTracker.nextId :=
    fun work member => sound.steady.ids _ (sound.tracked work member)
  have joined : Steady { world.engine with
      txnTracker := (world.engine.txnTracker.begin world.engine.store.node.lastApplied).2 } world.mark := by
    have steady := sound.steady
    refine { steady with epochs := fun epoch active => ?_, ids := fun epoch active => ?_ }
    · rcases mem_cons.mp active with rfl | old
      · exact ⟨steady.watermark, steady.marked, le_rfl⟩
      · exact steady.epochs epoch old
    · rcases mem_cons.mp active with rfl | old
      · exact le_rfl
      · exact Nat.le_succ_of_le (steady.ids epoch old)
  rw [World.begin, begun]
  refine ⟨.began ⟨rfl, rfl, rfl, rfl⟩ (fun work member same => ?_), sound.store.setWatermark _,
    { joined.publishWatermark with }, fun work member => ?_, fun work member => ?_, ?_⟩
  · have := below work member
    omega
  · rcases mem_append.mp member with old | new
    · exact mem_cons_of_mem _ (sound.tracked work old)
    · rw [mem_singleton.mp new]
      exact mem_cons_self
  · rcases mem_append.mp member with old | new
    · exact sound.unfinished work old
    · rw [mem_singleton.mp new]
  · rw [map_append]
    apply nodup_append.mpr
    refine ⟨sound.distinct, nodup_singleton _, fun txnId old other new same => ?_⟩
    obtain ⟨work, member, rfl⟩ := mem_map.mp old
    have new : other = world.engine.txnTracker.nextId + 1 := mem_singleton.mp new
    have := below work member
    omega

theorem Sound.perform (member : work ∈ world.live) (op : TxnOp) : (world.perform library work op).Sound := by
  obtain ⟨⟨reply, session⟩, result⟩ : ∃ result, (Transaction.perform (world.engine.reader library work.txn.readTs)
      op).exec ⟨world.engine.ssi, work.txn⟩ = result := ⟨_, rfl⟩
  have extended := Transaction.perform_extends result
  rw [perform_eq result]
  refine ⟨sound.store, { sound.steady with }, fun other inLive => ?_, fun other inLive => ?_, ?_⟩
  · obtain ⟨before, old, rfl⟩ := mem_map.mp inLive
    split
    · rw [extended.txnId, extended.readTs]
      exact sound.tracked work member
    · exact sound.tracked before old
  · obtain ⟨before, old, rfl⟩ := mem_map.mp inLive
    split
    · exact extended.finished.trans (sound.unfinished work member)
    · exact sound.unfinished before old
  · rw [map_map]
    have ids : (fun other : Work => other.txn.txnId) ∘ (fun other : Work =>
        if other.txn.txnId = work.txn.txnId then ⟨session.txn, work.script ++ [(op, reply)]⟩ else other) =
        fun other : Work => other.txn.txnId := by
      funext other
      dsimp only [Function.comp]
      split
      · rename_i same
        exact extended.txnId.trans same.symm
      · rfl
    rw [ids]
    exact sound.distinct

theorem Sound.commit (member : work ∈ world.live) (healthy : conditions.fault = none) :
    Move library world (.commit conditions work.txn.txnId) (world.commit library conditions work) ∧
      (world.commit library conditions work).Sound := by
  have unfinished := sound.unfinished work member
  cases writes : work.txn.writes.isEmpty with
  | true =>
    have done : world.engine.commit library conditions work.txn =
        (world.engine.endTransaction work.txn.txnId, .ok work.txn.readTs) := by
      simp [TakyonicEngine.commit, TakyonicEngine.commitTransaction, unfinished, sound.steady.ensureOpen, writes]
    rw [World.commit, done]
    simp only [writes, if_true]
    refine ⟨.ended member (.endTransaction _ _) (fun _ _ => writes), ?_⟩
    exact sound.finish (sound.steady.endTransaction _) (sound.store.setWatermark _)
      (fun epoch active different => endTransaction_active active different) _
  | false =>
    rcases commit_sound library sound.store sound.steady unfinished writes healthy with
      ⟨error, failed⟩ | ⟨free, store, ssi, done, after, wrote⟩
    · rw [World.commit, failed]
      refine ⟨.ended member ⟨rfl, rfl, rfl, rfl⟩ nofun, ?_⟩
      apply sound.finish ((sound.steady.endTransaction _).endTransaction _)
      · exact (sound.store.setWatermark _).setWatermark _
      · exact fun epoch active different =>
          endTransaction_active (endTransaction_active active different) different
    · have next := sound.steady.next wrote
      rw [World.commit, done]
      simp only [writes, Bool.false_eq_true, if_false, sound.steady.applied]
      rw [sound.steady.applied] at after
      refine ⟨.committed member writes free ⟨?_, rfl, next⟩ ?_, ?_⟩
      · show (world.engine.noteCommittedKeys _ world.engine.store.node.nextIndex).lastCommit = _
        rw [sound.steady.applied]
      · show (world.engine.mirrorBtreeWrites library _ world.engine.store.node.nextIndex).storage = _
        rw [sound.steady.applied]
      · have committed : (world.engine.committed library work.txn store ssi).Steady world.mark :=
          { sound.steady.wrote wrote with }
        apply sound.finish (committed.endTransaction _)
        · rw [history_append]
          exact Sound.setWatermark after _
        · exact fun epoch active different => endTransaction_active active different

theorem Sound.step (healthy : op.Healthy) :
    Move library world op (world.step library op) ∧ (world.step library op).Sound := by
  cases op with
  | put conditions key value =>
    have single : (Op.put conditions key value).single = some (key, some value) := rfl
    have plain : (put key value).Plain := True.intro
    exact sound.write library single conditions plain (fun _ => rfl)
  | delete conditions key =>
    have single : (Op.delete conditions key).single = some (key, none) := rfl
    have plain : (delete key).Plain := True.intro
    exact sound.write library single conditions plain (fun _ => rfl)
  | begin isolation => exact sound.begin library isolation
  | perform txnId op =>
    unfold step
    dsimp only
    cases found : world.work txnId with
    | none => exact ⟨.quiet ⟨rfl, rfl, rfl, rfl⟩, sound⟩
    | some work =>
      obtain ⟨member, rfl⟩ := work_eq_some found
      exact ⟨.performed member, sound.perform library member op⟩
  | commit conditions txnId =>
    unfold step
    dsimp only
    cases found : world.work txnId with
    | none => exact ⟨.quiet ⟨rfl, rfl, rfl, rfl⟩, sound⟩
    | some work =>
      obtain ⟨member, rfl⟩ := work_eq_some found
      exact sound.commit library member healthy
  | abort txnId =>
    unfold step
    dsimp only
    cases found : world.work txnId with
    | none => exact ⟨.quiet ⟨rfl, rfl, rfl, rfl⟩, sound⟩
    | some work =>
      obtain ⟨member, -⟩ := work_eq_some found
      refine ⟨.ended member (.endTransaction _ _) nofun, ?_⟩
      exact sound.finish (sound.steady.endTransaction _) (sound.store.setWatermark _)
        (fun epoch active different => endTransaction_active active different) .aborted
  | flush =>
    obtain ⟨store, flushed, after, keeps⟩ := forceFlush_sound sound.store sound.steady
    unfold step
    rw [flushed]
    exact ⟨.quiet (.keeps keeps), sound.quiet after (sound.steady.keeps keeps) rfl⟩
  | background move =>
    obtain ⟨after, keeps⟩ := sound.store.background move
    exact ⟨.quiet (.keeps keeps), sound.quiet after (sound.steady.background sound.store move) rfl⟩
  | attach raft => exact absurd healthy id
  | close => exact absurd healthy id
  | reopen => exact absurd healthy id

end Steps

end World

theorem Store.fresh_sound (config : Config) : (fresh config).Sound [] 0 := by
  refine ⟨⟨⟨.refl _, nodup_nil, rfl⟩, .refl _, nodup_nil, nofun, nofun, fun level _ => .nil⟩, nofun, .nil,
    Nat.succ_pos 3, Stamp.Thins.refl 0 [], nofun, nofun, nofun, fun segment member => ?_⟩
  rw [mem_singleton.mp member]
  exact le_rfl

theorem World.fresh_sound (config : Config) (catalog : List TableSchema) : (fresh config catalog).Sound := by
  obtain ⟨storage, mounted⟩ := mount_eq (Store.fresh config) TxnWal.header catalog
  unfold fresh TakyonicEngine.fresh
  rw [mounted]
  exact ⟨Store.fresh_sound config, ⟨rfl, rfl, rfl, Nat.zero_le _, Nat.zero_le _, nofun, nofun⟩, nofun, nofun, nodup_nil⟩

end Takyonic
