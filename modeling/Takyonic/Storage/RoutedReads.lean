import Takyonic.Storage.WorldSound

/-! The tables that have no mirror, and what a read of their keys answers. -/

namespace Takyonic

open Foundation StorageManager TakyonicEngine Library

def OutsideBTree (library : Library) (catalog : List TableSchema) (key : Key) : Prop :=
  ∀ table ∈ Schema.tableFromUserKey library key, ∀ schema ∈ catalog, schema.name = table → schema.storageEngine ≠ .bTree

instance : Decidable (OutsideBTree library catalog key) :=
  inferInstanceAs (Decidable (∀ table ∈ Schema.tableFromUserKey library key, _))

namespace StorageManager

variable {catalog : List TableSchema} {table : String} {storage : StorageManager}

theorem registered_engineKind (before : storage.engineKind table ≠ .bTree)
    (none : ∀ schema ∈ catalog, schema.name = table → schema.storageEngine ≠ .bTree) :
    (catalog.foldl registerTable storage).engineKind table ≠ .bTree := by
  induction catalog generalizing storage with
  | nil => exact before
  | cons schema catalog ih =>
    apply ih
    · unfold engineKind registerTable
      dsimp only
      by_cases same : schema.name = table
      · rw [← same, Function.update_self]
        exact none schema List.mem_cons_self same
      · rw [Function.update_of_ne (Ne.symm same)]
        exact before
    · exact fun other member => none other (List.mem_cons_of_mem _ member)

theorem mirror_none (routes : storage.engines = (catalog.foldl registerTable routerOnly).engines)
    (none : ∀ schema ∈ catalog, schema.name = table → schema.storageEngine ≠ .bTree) :
    storage.mirror table = Option.none := by
  have start : routerOnly.engineKind table ≠ .bTree := by simp [engineKind, routerOnly]
  have kind := registered_engineKind start none
  rw [mirror, if_neg]
  rwa [engineKind, routes]

end StorageManager

namespace TakyonicEngine

theorem mirrorBtreeWrites_engines (library : Library) (engine : TakyonicEngine) :
    (engine.mirrorBtreeWrites library writes commitTs).storage.engines = engine.storage.engines := by
  unfold mirrorBtreeWrites
  generalize engine.storage = storage
  induction writes generalizing storage with
  | nil => rfl
  | cons write writes ih =>
    rw [List.foldl_cons, ih]
    split
    · split
      · rfl
      · rfl
    · rfl

theorem fresh_storage (config : Config) (catalog : List TableSchema) :
    (fresh config catalog).storage = catalog.foldl registerTable .routerOnly := by
  have none : ∀ start, (Store.fresh config).collectVersionsPrefix start = [] := fun _ => rfl
  have hydrated : ∀ (tables : List TableSchema) (engine : TakyonicEngine), engine.store = Store.fresh config →
      tables.foldl (fun engine schema => engine.hydrateBtreeFromLsm schema.name) engine = engine := by
    intro tables engine new
    induction tables with
    | nil => rfl
    | cons schema tables ih =>
      have nothing : engine.hydrateBtreeFromLsm schema.name = engine := by
        unfold hydrateBtreeFromLsm
        split
        · rfl
        · rw [new, none, none, ← new]
          rfl
      rw [List.foldl_cons, nothing, ih]
  unfold fresh mount
  rw [hydrated]
  rfl

theorem fresh_engines (config : Config) (catalog : List TableSchema) : (fresh config catalog).storage.engines =
    (catalog.foldl registerTable routerOnly).engines := by
  rw [fresh_storage]

end TakyonicEngine

namespace World

variable {library : Library} {world after : World}

theorem Move.engines {op : Op} (move : Move library world op after) :
    after.engine.storage.engines = world.engine.storage.engines := by
  cases move with
  | quiet same | began same _ | ended _ same _ => exact congrArg _ same.storage
  | wrote single noted storage => exact congrArg _ storage
  | performed member => rfl
  | committed member writes free noted storage =>
    exact (congrArg _ storage).trans (mirrorBtreeWrites_engines library _)

theorem run_sound (library : Library) (config : Config) (catalog : List TableSchema) {ops : List Op}
    (healthy : ∀ op ∈ ops, op.Healthy) : (run (step library) (fresh config catalog) ops).Sound ∧
      (run (step library) (fresh config catalog) ops).engine.storage.engines =
        (catalog.foldl registerTable routerOnly).engines := by
  refine run_invariant (P := fun world : World => world.Sound ∧ world.engine.storage.engines =
    (catalog.foldl registerTable routerOnly).engines) healthy ?_ ?_
  · exact ⟨fresh_sound config catalog, fresh_engines config catalog⟩
  · intro world op ⟨sound, engines⟩ allowed
    obtain ⟨move, after⟩ := sound.step library allowed
    exact ⟨after, move.engines.trans engines⟩

/-- A read at or above the largest watermark used, minus one, answers with the newest write of its key in the
    history, wherever flushes and compactions have put it. -/
theorem getAtWithTs_history (library : Library) (config : Config) (catalog : List TableSchema) (ops : List Op)
    (healthy : ∀ op ∈ ops, op.Healthy) (key : Key) (outside : OutsideBTree library catalog key) (ts : Nat)
    (recent : (run (step library) (fresh config catalog) ops).mark ≤ ts + 1) :
    ∃ found, Entry.stamp.IsNewest (run (step library) (fresh config catalog) ops).history key ts found ∧
      (run (step library) (fresh config catalog) ops).engine.getAtWithTs library key ts = .ok (Entry.answer found) := by
  obtain ⟨sound, engines⟩ := run_sound library config catalog healthy
  generalize run (step library) (fresh config catalog) ops = world at *
  have unmirrored : world.engine.mirrorOf library key = none := by
    unfold mirrorOf
    rw [Option.bind_eq_none_iff]
    intro table found
    exact mirror_none engines (outside table found)
  refine ⟨_, sound.store.getAt recent, ?_⟩
  unfold getAtWithTs readAt
  rw [sound.steady.ensureOpen, unmirrored]
  rfl

theorem getAtWithTs_history_flushed : ∃ found, Entry.stamp.IsNewest (run (step plain) (fresh ⟨4096, 4096⟩ [])
      [.put ⟨true, none, .ok ()⟩ ⟨[107]⟩ ⟨[1]⟩, .flush, .delete ⟨true, none, .ok ()⟩ ⟨[107]⟩]).history ⟨[107]⟩ 1 found ∧
    (run (step plain) (fresh ⟨4096, 4096⟩ []) [.put ⟨true, none, .ok ()⟩ ⟨[107]⟩ ⟨[1]⟩, .flush,
      .delete ⟨true, none, .ok ()⟩ ⟨[107]⟩]).engine.getAtWithTs plain ⟨[107]⟩ 1 = .ok (Entry.answer found) :=
  getAtWithTs_history plain ⟨4096, 4096⟩ [] _ (by decide) ⟨[107]⟩ (by decide +kernel) 1 (by decide +kernel)

end World

end Takyonic
