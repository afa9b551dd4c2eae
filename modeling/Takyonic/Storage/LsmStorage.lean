import Takyonic.Storage.EngineIntact

namespace Takyonic

open Foundation List Function Entry Store Memtable

structure LsmStorage where
  memtable : Memtable
  immutable : Option Memtable
  manager : SstManager
  jobs : List CompactionJob
  nextTs : Nat
  memtableSizeBytes : Nat

inductive LsmCall where
  | put (key : Key) (value : Value)
  | delete (key : Key)
  | flush
  | background (move : Background)
  | reopen (config : Config)
  deriving DecidableEq, Repr

/-- The values after the call, by key. -/
def LsmCall.apply (values : Key → Option Value) : LsmCall → Key → Option Value
  | .put key value => update values key (some value)
  | .delete key => update values key none
  | _ => values

namespace LsmStorage

def openWithConfig (config : Config) (dir : SstDir) : Except TakyonicError LsmStorage := do
  let manager ← (SstManager.create 4 1 config.maxSstBytes dir).recoverExistingSsts
  .ok ⟨empty, none, manager, [], 1, config.memtableSizeBytes⟩

section

variable (lsm : LsmStorage)

def allocTs : Nat × LsmStorage :=
  (lsm.nextTs, { lsm with nextTs := (lsm.nextTs + 1) % 2 ^ 64 })

def getAt (lsm : LsmStorage) (key : Key) (readTs : Nat) : Option Entry :=
  lsm.manager.getAt key readTs (stamp.newer (lsm.memtable.getAt key readTs) (lsm.immutable.bind (·.getAt key readTs)))

def get (key : Key) : Option Value :=
  (lsm.getAt key u64Max).bind fun entry => if entry.tombstone then none else entry.value

def flushMemtableToL0 (frozen : Memtable) : LsmStorage × Except TakyonicError SstId :=
  if frozen.entries = [] then (lsm, .ok 0)
  else
    let (manager, result) := lsm.manager.addSlices [frozen.entries]
    ({ lsm with manager }, result.map fun _ => lsm.manager.nextId)

def flushImmutable : LsmStorage × Except TakyonicError Unit :=
  match lsm.immutable with
  | none => (lsm, .ok ())
  | some frozen =>
    match lsm.flushMemtableToL0 frozen with
    | (lsm, .ok _) => ({ lsm with immutable := none }, .ok ())
    | (lsm, .error error) => (lsm, .error error)

/-- The plans that `kick_compaction` submits afterwards are moves of the pools. -/
def flush : LsmStorage × Except TakyonicError (Option SstId) :=
  match lsm.flushImmutable with
  | (lsm, .error error) => (lsm, .error error)
  | (lsm, .ok ()) =>
    let frozen := lsm.memtable
    if frozen.entries = [] then (lsm, .ok none)
    else match { lsm with memtable := empty, immutable := some frozen }.flushMemtableToL0 frozen with
      | (lsm, .ok id) => ({ lsm with immutable := none }, .ok (some id))
      | (lsm, .error error) => (lsm, .error error)

def maybeFlush : LsmStorage × Except TakyonicError Unit :=
  if lsm.memtableSizeBytes ≤ lsm.memtable.approxSizeBytes then
    let (lsm, result) := lsm.flush
    (lsm, result.map fun _ => ())
  else (lsm, .ok ())

def write (entry : Nat → Entry) : LsmStorage × Except TakyonicError Nat :=
  let (ts, lsm) := lsm.allocTs
  let (lsm, result) := { lsm with memtable := lsm.memtable.apply (entry ts) }.maybeFlush
  (lsm, result.map fun _ => ts)

def put (lsm : LsmStorage) (key : Key) (value : Value) : LsmStorage × Except TakyonicError Nat :=
  lsm.write (Entry.put key value)

def delete (lsm : LsmStorage) (key : Key) : LsmStorage × Except TakyonicError Nat :=
  lsm.write (Entry.delete key)

def store : Store :=
  ⟨⟨0, 0⟩, ⟨lsm.memtable, lsm.nextTs, 0⟩, lsm.manager, [], 0, none, lsm.jobs⟩

def background (lsm : LsmStorage) (move : Background) : LsmStorage :=
  { lsm with manager := (lsm.store.background move).manager, jobs := (lsm.store.background move).jobs }

/-- `close` returns when the pools have done their work; until then there is nothing to open. -/
def reopen (config : Config) : Except TakyonicError LsmStorage :=
  if lsm.flush.1.jobs = [] then openWithConfig config lsm.flush.1.manager.dir else .ok lsm.flush.1

def step : LsmCall → Except TakyonicError LsmStorage
  | .put key value => (lsm.put key value).2.map fun _ => (lsm.put key value).1
  | .delete key => (lsm.delete key).2.map fun _ => (lsm.delete key).1
  | .flush => lsm.flush.2.map fun _ => lsm.flush.1
  | .background move => .ok (lsm.background move)
  | .reopen config => lsm.reopen config

def advance (state : Except TakyonicError LsmStorage) (call : LsmCall) : Except TakyonicError LsmStorage := do
  (← state).step call

def Fresh : LsmCall → Prop
  | .put key _ | .delete key => ∀ version ∈ lsm.memtable.entries ++ lsm.manager.contents,
    version.key = key → version.seq < lsm.nextTs
  | _ => True

end

instance (lsm : LsmStorage) (call : LsmCall) : Decidable (lsm.Fresh call) := by
  rcases call with ⟨⟩ <;> unfold Fresh <;> infer_instance

def FreshAt (state : Except TakyonicError LsmStorage) (call : LsmCall) : Prop := ∀ lsm ∈ state.toOption, lsm.Fresh call

instance : Decidable (FreshAt state call) :=
  inferInstanceAs (Decidable (∀ _ ∈ state.toOption, _))

/-- The latest writes are the newest versions, and no version is ever dropped. -/
structure Shown (lsm : LsmStorage) (values : Key → Option Value) : Prop where
  whole : lsm.store.Whole
  immutable : lsm.immutable = none
  watermark : lsm.manager.mvccWatermark = 0
  nextTs : lsm.nextTs < 2 ^ 64
  latest : ∀ key, ∃ history answer, lsm.store.Shows key history 0 ∧
    stamp.IsNewest history key u64Max answer ∧
    (answer.bind fun entry => if entry.tombstone then none else entry.value) = values key

variable {lsm : LsmStorage} {values : Key → Option Value}

theorem Shown.get (shown : lsm.Shown values) (key : Key) : lsm.get key = values key := by
  obtain ⟨history, answer, shows, newest, value⟩ := shown.latest key
  have found : stamp.IsNewest history key u64Max (lsm.store.getAt key u64Max) := by
    apply shows.visible.isNewest (Nat.zero_le _)
    exact (shown.whole.getAt key u64Max).congr fun version ofKey => by simp [ofKey]
  have same : lsm.getAt key u64Max = lsm.store.getAt key u64Max := by
    have alone : stamp.newer (lsm.memtable.getAt key u64Max) none = lsm.memtable.getAt key u64Max := by
      cases lsm.memtable.getAt key u64Max <;> rfl
    rw [LsmStorage.getAt, shown.immutable, Option.bind_none, alone]
    rfl
  rw [LsmStorage.get, same, found.unique shows.determined newest, value]

theorem Shown.moved {after : LsmStorage} (shown : lsm.Shown values) (whole : after.store.Whole)
    (immutable : after.immutable = none) (nextTs : after.nextTs = lsm.nextTs)
    (watermark : after.manager.mvccWatermark = lsm.manager.mvccWatermark)
    (shows : ∀ key history, lsm.store.Shows key history 0 → after.store.Shows key history 0) :
    after.Shown values := by
  refine ⟨whole, immutable, watermark.trans shown.watermark, nextTs ▸ shown.nextTs, fun key => ?_⟩
  obtain ⟨history, answer, old, newest⟩ := shown.latest key
  exact ⟨history, answer, shows key history old, newest⟩

theorem Shown.flush (shown : lsm.Shown values) :
    ∃ after id, lsm.flush = (after, .ok id) ∧ after.Shown values ∧ after.memtable.entries = [] := by
  have intact := shown.whole.toIntact
  unfold LsmStorage.flush flushImmutable
  rw [shown.immutable]
  dsimp only
  by_cases empty : lsm.memtable.entries = []
  · rw [if_pos empty]
    exact ⟨_, _, rfl, shown, empty⟩
  have accepted : ∀ slice ∈ [lsm.memtable.entries], Sst.Accepts slice := by
    rw [forall_mem_singleton]
    exact ⟨lsm.memtable.ordered, intact.wellFormed, empty⟩
  obtain ⟨manager, added, moved, flushes⟩ := intact.addSlices accepted (by simp [store])
  have added : lsm.manager.addSlices [lsm.memtable.entries] = (manager, .ok ()) := added
  unfold flushMemtableToL0
  simp only [empty, added]
  refine ⟨_, _, rfl, shown.moved ?_ rfl rfl flushes.watermark ?_, rfl⟩
  · exact shown.whole.flushes moved flushes
  · exact fun key history old => old.flushes intact flushes

theorem store_background (lsm : LsmStorage) (move : Background) :
    (lsm.background move).store = lsm.store.background move := by
  obtain ⟨manager, jobs, same⟩ : ∃ manager jobs, lsm.store.background move = { lsm.store with manager, jobs } := by
    cases move
    all_goals
      simp only [Store.background, Store.submit, Store.buildJob, Store.finishJob]
      repeat' split
      all_goals exact ⟨_, _, rfl⟩
  unfold LsmStorage.background
  rw [same]
  rfl

section

variable (shown : lsm.Shown values)
include shown

theorem Shown.background (move : Background) : (lsm.background move).Shown values := by
  have whole := shown.whole.background move
  have keeps := shown.whole.toIntact.background_keeps move
  rw [← store_background] at whole keeps
  apply shown.moved whole shown.immutable rfl keeps.watermark
  intro key history old
  have mark : lsm.store.markAfter 0 move = 0 := by
    have idle : lsm.store.manager.mvccWatermark = 0 := shown.watermark
    unfold markAfter
    split
    · split
      · rw [idle, Nat.max_self]
      · rfl
    · rfl
  have next := old.background shown.whole.toIntact move
  rwa [mark, ← store_background] at next

theorem Shown.maybeFlush : ∃ after, lsm.maybeFlush = (after, .ok ()) ∧ after.Shown values := by
  unfold LsmStorage.maybeFlush
  split
  · obtain ⟨after, id, flushed, done, -⟩ := shown.flush
    rw [flushed]
    exact ⟨after, rfl, done⟩
  · exact ⟨lsm, rfl, shown⟩

theorem Shown.applied {entry : Entry} (wellFormed : entry.WellFormed) (stamped : entry.seq = lsm.nextTs)
    (fresh : ∀ version ∈ lsm.memtable.entries ++ lsm.manager.contents, version.key = entry.key →
      version.seq < lsm.nextTs) : Shown { lsm.allocTs.2 with memtable := lsm.memtable.apply entry }
      (update values entry.key (if entry.tombstone then none else entry.value)) := by
  have applied : ∀ version, version ∈ (lsm.memtable.apply entry).entries ↔
      version = entry ∨ version ∈ lsm.memtable.entries := by
    intro version
    apply mem_insertVersion lsm.memtable.ordered
    intro taken member same
    obtain ⟨sameKey, sameSeq⟩ := internalKey_inj.mp same
    have below := fresh taken (mem_append_left _ member) sameKey
    omega
  refine ⟨shown.whole.withNode fun version member => ?_, shown.immutable, shown.watermark,
    Nat.mod_lt _ (by decide), fun key => ?_⟩
  · rcases (applied version).mp member with rfl | old
    · exact wellFormed
    · exact shown.whole.wellFormed version old
  obtain ⟨history, answer, shows, newest, value⟩ := shown.latest key
  by_cases same : key = entry.key
  · subst same
    have older : ∀ version ∈ history, version.key = entry.key ∧ version.seq < lsm.nextTs := by
      intro version member
      rcases shows.visible.covered version member with kept | ⟨_, _, _, _, below⟩
      · obtain ⟨stored, ofKey⟩ := Stamp.mem_ofKey.mp kept
        exact ⟨ofKey, fresh version stored ofKey⟩
      · exact absurd below (Nat.not_lt_zero _)
    refine ⟨history ++ [entry], some entry, ⟨shows.built, ?_, ?_⟩, ⟨by simp, rfl, ?_, ?_⟩, ?_⟩
    · apply (shows.visible.union (Stamp.Thins.refl 0 [entry])).congr (fun _ => Iff.rfl)
      intro version
      have written := applied version
      simp only [Stamp.mem_ofKey, versions, store, mem_append, mem_singleton, written]
      constructor
      · rintro (⟨stored, ofKey⟩ | rfl)
        · exact ⟨stored.imp_left .inr, ofKey⟩
        · exact ⟨.inl (.inl rfl), rfl⟩
      · rintro ⟨(rfl | held) | stored, ofKey⟩
        · exact .inr rfl
        · exact .inl ⟨.inl held, ofKey⟩
        · exact .inl ⟨.inr stored, ofKey⟩
    · apply determined_append shows.determined (by simp [Stamp.Determined])
      intro version member other last
      rw [mem_singleton.mp last, stamped]
      exact ne_of_lt (older version member).2
    · have small := shown.nextTs
      show entry.seq ≤ 2 ^ 64 - 1
      omega
    · intro version member _ _
      rcases mem_append.mp member with old | last
      · have below := (older version old).2
        show version.seq ≤ entry.seq
        omega
      · rw [mem_singleton.mp last]
    · simp
  · refine ⟨history, answer, ⟨shows.built, ?_, shows.determined⟩, newest, ?_⟩
    · apply shows.visible.congr (fun _ => Iff.rfl)
      intro version
      have written := applied version
      simp only [Stamp.mem_ofKey, versions, store, mem_append, written]
      constructor
      · exact fun ⟨stored, ofKey⟩ => ⟨stored.imp_left .inr, ofKey⟩
      · rintro ⟨(rfl | held) | stored, ofKey⟩
        · exact absurd ofKey.symm same
        · exact ⟨.inl held, ofKey⟩
        · exact ⟨.inr stored, ofKey⟩
    · rw [value, update_of_ne same]

theorem Shown.write (entry : Nat → Entry) (wellFormed : (entry lsm.nextTs).WellFormed)
    (stamped : (entry lsm.nextTs).seq = lsm.nextTs)
    (fresh : ∀ version ∈ lsm.memtable.entries ++ lsm.manager.contents, version.key = (entry lsm.nextTs).key →
      version.seq < lsm.nextTs) :
    ∃ after, lsm.write entry = (after, .ok lsm.nextTs) ∧
      after.Shown (update values (entry lsm.nextTs).key
        (if (entry lsm.nextTs).tombstone then none else (entry lsm.nextTs).value)) := by
  obtain ⟨after, flushed, done⟩ := (shown.applied wellFormed stamped fresh).maybeFlush
  have result : lsm.write entry = ((LsmStorage.maybeFlush { lsm.allocTs.2 with
      memtable := lsm.memtable.apply (entry lsm.nextTs) }).1, (LsmStorage.maybeFlush { lsm.allocTs.2 with
      memtable := lsm.memtable.apply (entry lsm.nextTs) }).2.map fun _ => lsm.nextTs) := rfl
  rw [result, flushed]
  exact ⟨after, rfl, done⟩

theorem Shown.reopen (config : Config) : ∃ after, lsm.reopen config = .ok after ∧ after.Shown values := by
  obtain ⟨flushed, id, result, shown, empty⟩ := shown.flush
  unfold LsmStorage.reopen
  rw [result]
  by_cases idle : flushed.jobs = []
  · rw [if_pos idle]
    have catalogued := shown.whole.catalogued
    rw [show flushed.store.jobs = [] from idle] at catalogued
    obtain ⟨manager, recovered⟩ := catalogued.reopens config.maxSstBytes
    rw [shown.whole.count] at recovered
    obtain ⟨done, count, watermark, active⟩ := shown.whole.recovered recovered
    have opened : openWithConfig config flushed.manager.dir =
        .ok ⟨Memtable.empty, none, manager, [], 1, config.memtableSizeBytes⟩ := by
      have recovered : (SstManager.create 4 1 config.maxSstBytes flushed.manager.dir).recoverExistingSsts =
          .ok manager := recovered
      rw [openWithConfig, recovered]
      rfl
    refine ⟨_, opened, ⟨⟨done, nofun, List.Pairwise.nil, ?_, nofun, nofun⟩, count,
      fun file member => shown.whole.housed file (active.subset member)⟩, rfl, watermark,
      Nat.one_lt_two_pow (by decide), fun key => ?_⟩
    · show 0 < manager.levelCount
      rw [count]
      exact Nat.succ_pos _
    obtain ⟨history, answer, shows, newest⟩ := shown.latest key
    refine ⟨history, answer, ⟨nofun, ?_, shows.determined⟩, newest⟩
    apply shows.visible.congr (fun _ => Iff.rfl)
    intro version
    have old : flushed.store.versions = [] ++ flushed.manager.contents := congrArg (· ++ _) empty
    rw [Stamp.mem_ofKey, Stamp.mem_ofKey, old]
    apply and_congr_left'
    show _ ↔ version ∈ manager.contents
    rw [SstManager.Catalogued.mem_installed done]
    refine (SstManager.Catalogued.mem_installed catalogued).trans (exists_congr fun file => ?_)
    exact and_congr_left' active.mem_iff.symm
  · rw [if_neg idle]
    exact ⟨flushed, rfl, shown⟩

theorem Shown.step (call : LsmCall) (fresh : lsm.Fresh call) :
    ∃ after, lsm.step call = .ok after ∧ after.Shown (call.apply values) := by
  cases call with
  | put key value =>
    have wellFormed := (RaftCommand.opEntry_spec lsm.nextTs (key, some value)).2.2
    obtain ⟨after, written, done⟩ := shown.write (Entry.put key value) wellFormed rfl fresh
    exact ⟨after, by rw [LsmStorage.step, LsmStorage.put, written]; rfl, done⟩
  | delete key =>
    have wellFormed := (RaftCommand.opEntry_spec lsm.nextTs (key, none)).2.2
    obtain ⟨after, written, done⟩ := shown.write (Entry.delete key) wellFormed rfl fresh
    exact ⟨after, by rw [LsmStorage.step, LsmStorage.delete, written]; rfl, done⟩
  | flush =>
    obtain ⟨after, id, flushed, done, -⟩ := shown.flush
    simp only [LsmStorage.step, flushed]
    exact ⟨after, rfl, done⟩
  | background move => exact ⟨_, rfl, shown.background move⟩
  | reopen config => exact shown.reopen config

theorem Shown.run (calls : List LsmCall) (fresh : Along advance FreshAt (.ok lsm) calls) :
    ∃ after, run advance (.ok lsm) calls = .ok after ∧ after.Shown (calls.foldl LsmCall.apply values) := by
  induction calls generalizing lsm values with
  | nil => exact ⟨lsm, rfl, shown⟩
  | cons call rest ih =>
    obtain ⟨here, later⟩ := fresh
    obtain ⟨next, stepped, done⟩ := shown.step call (here lsm rfl)
    rw [show advance (.ok lsm) call = lsm.step call from rfl, stepped] at later
    rw [run_cons, show advance (.ok lsm) call = lsm.step call from rfl, stepped]
    exact ih done later

end

theorem fresh_shown (config : Config) :
    Shown ⟨empty, none, SstManager.create 4 1 config.maxSstBytes ⟨[], []⟩, [], 1, config.memtableSizeBytes⟩
      fun _ => none := by
  have whole := Whole.fresh config
  refine ⟨⟨⟨whole.catalogued, nofun, List.Pairwise.nil, whole.levels, nofun, nofun⟩, rfl, nofun⟩, rfl, rfl,
    Nat.one_lt_two_pow (by decide), fun key => ⟨[], none, ⟨nofun, ?_, nofun⟩, nofun, rfl⟩⟩
  exact Stamp.Thins.refl 0 _

/-- Puts, deletes, flushes, compactions and reopens, as long as every write is the newest version of its key. -/
theorem get_latest (config : Config) (calls : List LsmCall)
    (fresh : Along advance FreshAt (openWithConfig config ⟨[], []⟩) calls) :
    ∃ lsm, run advance (openWithConfig config ⟨[], []⟩) calls = .ok lsm ∧
      ∀ key, lsm.get key = calls.foldl LsmCall.apply (fun _ => none) key := by
  obtain ⟨lsm, ran, shown⟩ := (fresh_shown config).run calls fresh
  exact ⟨lsm, ran, shown.get⟩

def byteKey (byte : UInt8) : Key := ⟨[byte]⟩

def roomyConfig : Config := ⟨1000, 1000⟩

theorem get_latest_reopened :
    ∃ lsm, run advance (openWithConfig roomyConfig ⟨[], []⟩)
      [.put (byteKey 1) ⟨[1]⟩, .reopen roomyConfig, .put (byteKey 2) ⟨[2]⟩, .flush] = .ok lsm ∧
      lsm.get (byteKey 1) = some ⟨[1]⟩ ∧ lsm.get (byteKey 2) = some ⟨[2]⟩ := by
  obtain ⟨lsm, ran, shown⟩ := get_latest roomyConfig
    [.put (byteKey 1) ⟨[1]⟩, .reopen roomyConfig, .put (byteKey 2) ⟨[2]⟩, .flush] (by decide +kernel)
  exact ⟨lsm, ran, shown _, shown _⟩

/-- The second generation counts its timestamps from one again. -/
theorem get_overwritten_stale :
    (run advance (openWithConfig roomyConfig ⟨[], []⟩)
      [.put (byteKey 2) ⟨[0]⟩, .put (byteKey 1) ⟨[1]⟩, .reopen roomyConfig, .put (byteKey 1) ⟨[2]⟩]).toOption.map
        (·.get (byteKey 1)) = some (some ⟨[1]⟩) := by
  decide +kernel

end LsmStorage

end Takyonic
