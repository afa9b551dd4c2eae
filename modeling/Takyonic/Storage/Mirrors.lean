import Takyonic.Storage.RoutedReads

namespace Takyonic

section

open Foundation List RaftCommand Entry

/-! The purpose of the transactions: a map from keys to values that committed transactions change one after
another, each of them alone. -/

abbrev Db := Std.TreeMap Key Value

namespace Db

def apply (db : Db) (writes : List (Key × Option Value)) : Db :=
  writes.foldl (fun db (key, op) => match op with
    | some value => db.insert key value
    | none => db.erase key) db

def reader (db : Db) (tables : String → Except TakyonicError TableSchema) : Reader where
  get key := .ok (db[key]?, 0)
  scanPrefixKeys start := .ok (db.keys.filter (·.startsWith start))
  tableSchema := tables

end Db

namespace Serial

variable (tables : String → Except TakyonicError TableSchema)

def start : Session := ⟨⟨[]⟩, ⟨0, 0, .snapshot, ∅, ∅, false⟩⟩

/-- The operations of a transaction on a store that nobody else changes, as long as the replies are the
    recorded ones. -/
def replay (reader : Reader) : Session → List (TxnOp × Reply) → Option Session
  | session, [] => some session
  | session, (op, reply) :: rest =>
    let (answer, session) := (Transaction.perform reader op).run.run session
    if answer = reply then replay reader session rest else none

def alone (db : Db) (script : List (TxnOp × Reply)) : Option Db :=
  (replay (db.reader tables) start script).map fun session => db.apply session.txn.writes.toList

def run (db : Db) (scripts : List (List (TxnOp × Reply))) : Option Db := scripts.foldlM (alone tables) db

end Serial

/-- The map after exactly the writes with a sequence number of at most `ts`. -/
def Deed.stateAt (deeds : List Deed) (ts : Nat) : Db :=
  (deeds.filter (·.commitTs ≤ ts)).foldl (fun db deed => db.apply deed.writes) ∅

open Deed

theorem Deed.stateAt_append (deeds : List Deed) (deed : Deed) (ts : Nat) : stateAt (deeds ++ [deed]) ts =
    if deed.commitTs ≤ ts then (stateAt deeds ts).apply deed.writes else stateAt deeds ts := by
  by_cases seen : deed.commitTs ≤ ts
  · simp [stateAt, seen]
  · simp [stateAt, seen]

variable {deeds : List Deed} {deed : Deed}

theorem Deed.stateAt_past {last ts : Nat} (past : ∀ deed ∈ deeds, deed.commitTs ≤ last) (le : last ≤ ts) :
    stateAt deeds ts = stateAt deeds last := by
  unfold stateAt
  congr 1
  apply filter_congr
  intro deed member
  have early := past deed member
  simp [early, early.trans le]

theorem Db.apply_getElem? {writes : List (Key × Option Value)} (distinct : (writes.map Prod.fst).Nodup) (db : Db)
    (key : Key) : (db.apply writes)[key]? = ((writes.find? (·.1 = key)).map Prod.snd).getD db[key]? := by
  induction writes generalizing db with
  | nil => rfl
  | cons write writes ih =>
    obtain ⟨written, op⟩ := write
    obtain ⟨later, rest⟩ := nodup_cons.mp distinct
    rw [apply, foldl_cons]
    rw [← apply, ih rest]
    by_cases same : written = key
    · subst same
      have absent : writes.find? (·.1 = written) = none := by
        apply find?_eq_none.mpr
        intro other member found
        exact later (mem_map.mpr ⟨other, member, of_decide_eq_true found⟩)
      rw [absent]
      cases op with
      | some value => simp
      | none => simp
    · have different : ¬ compare written key = .eq := fun equal => same (compare_eq_iff_eq.mp equal)
      cases op with
      | some value => simp [same, Std.TreeMap.getElem?_insert, different]
      | none => simp [same, Std.TreeMap.getElem?_erase, different]

/-- A record of writes: one after another in the order of their numbers, each key at most once in each. -/
structure Deed.Chronicle (deeds : List Deed) : Prop where
  ascending : deeds.Pairwise (fun first second => first.commitTs < second.commitTs)
  distinct : ∀ deed ∈ deeds, (deed.writes.map Prod.fst).Nodup

theorem Deed.Chronicle.init (chronicle : Chronicle (deeds ++ [deed])) :
    Chronicle deeds ∧ ∀ earlier ∈ deeds, earlier.commitTs < deed.commitTs := by
  obtain ⟨ascending, -, across⟩ := pairwise_append.mp chronicle.ascending
  exact ⟨⟨ascending, fun other member => chronicle.distinct other (mem_append_left _ member)⟩,
    fun earlier member => across earlier member deed (mem_singleton_self deed)⟩

theorem Deed.mem_entries {entry : Entry} (member : entry ∈ deed.entries) :
    entry.seq = deed.commitTs ∧ ∃ op, (entry.key, op) ∈ deed.writes := by
  obtain ⟨⟨key, op⟩, inside, rfl⟩ := mem_map.mp member
  obtain ⟨seq, same, -⟩ := opEntry_spec deed.commitTs (key, op)
  exact ⟨seq, op, by rwa [same]⟩

theorem Deed.entries_le (later : ∀ earlier ∈ deeds, earlier.commitTs < deed.commitTs) (entry : Entry)
    (member : entry ∈ deeds.flatMap entries ++ deed.entries) : entry.seq ≤ deed.commitTs := by
  rcases mem_append.mp member with old | new
  · obtain ⟨earlier, before, inside⟩ := mem_flatMap.mp old
    rw [(mem_entries inside).1]
    exact le_of_lt (later earlier before)
  · exact le_of_eq (mem_entries new).1

theorem answer_opEntry (commitTs : Nat) (op : Key × Option Value) :
    (answer (some (opEntry commitTs op))).1 = op.2 := by
  obtain ⟨key, value⟩ := op
  cases value with
  | none => rfl
  | some value => rfl

theorem Deed.stateAt_newest (chronicle : Chronicle deeds) {key : Key} {ts : Nat}
    (determined : stamp.Determined (deeds.flatMap entries)) {found : Option Entry}
    (newest : stamp.IsNewest (deeds.flatMap entries) key ts found) :
    (stateAt deeds ts)[key]? = (answer found).1 := by
  induction deeds using reverseRecOn generalizing found with
  | nil =>
    cases found with
    | none => simp [stateAt, answer]
    | some found => exact absurd newest.1 (by simp)
  | append_singleton deeds deed ih =>
    obtain ⟨before, later⟩ := chronicle.init
    rw [flatMap_append, flatMap_singleton] at newest determined
    have earlier : deeds.flatMap entries ⊆ deeds.flatMap entries ++ deed.entries := subset_append_left _ _
    rw [stateAt_append]
    split
    · rename_i seen
      rw [Db.apply_getElem? (chronicle.distinct deed (mem_append_right _ (mem_singleton_self deed)))]
      cases written : deed.writes.find? (·.1 = key) with
      | none =>
        apply ih before (determined.subset earlier)
        apply newest.left
        intro entry member ofKey
        obtain ⟨-, op, inside⟩ := mem_entries member
        exact absurd (decide_eq_true ofKey) (find?_eq_none.mp written _ inside)
      | some write =>
        have ofKey : write.1 = key := by simpa using find?_some written
        obtain ⟨seq, same, -⟩ := opEntry_spec deed.commitTs write
        have last : stamp.IsNewest (deeds.flatMap entries ++ deed.entries) key ts
            (some (opEntry deed.commitTs write)) := by
          refine ⟨?_, same.trans ofKey, seq.trans_le seen, fun other member _ _ => ?_⟩
          · exact mem_append_right _ (mem_map_of_mem (mem_of_find?_eq_some written))
          · show other.seq ≤ (opEntry deed.commitTs write).seq
            rw [seq]
            exact entries_le later other member
        rw [newest.unique determined last, answer_opEntry]
        rfl
    · rename_i seen
      apply ih before (determined.subset earlier)
      apply newest.left
      intro entry member ofKey
      rw [show stamp.seq entry = deed.commitTs from (mem_entries member).1]
      exact lt_of_not_ge seen

theorem Deed.stateAt_unwritten (chronicle : Chronicle deeds) {key : Key} {first last : Nat} (le : first ≤ last)
    (unwritten : ∀ deed ∈ deeds, first < deed.commitTs → ∀ write ∈ deed.writes, write.1 ≠ key) :
    (stateAt deeds first)[key]? = (stateAt deeds last)[key]? := by
  induction deeds using reverseRecOn with
  | nil => rfl
  | append_singleton deeds deed ih =>
    have inside : deed ∈ deeds ++ [deed] := mem_append_right _ (mem_singleton_self deed)
    have before := ih chronicle.init.1 (fun other member => unwritten other (mem_append_left _ member))
    have applied := fun db : Db => db.apply_getElem? (chronicle.distinct deed inside) key
    rw [stateAt_append, stateAt_append]
    by_cases early : deed.commitTs ≤ first
    · rw [if_pos early, if_pos (early.trans le), applied, applied, before]
    have other : deed.writes.find? (·.1 = key) = none := by
      apply find?_eq_none.mpr
      intro write member same
      exact unwritten deed inside (lt_of_not_ge early) write member (of_decide_eq_true same)
    rw [if_neg early]
    split
    · rw [applied, other, before]
      rfl
    · exact before

end

open Foundation StorageManager TakyonicEngine Library

open List Schema RaftCommand Option Entry

variable {table : String}

namespace Schema

variable {library : Library}

theorem takeWhile_sep (head tail : Bytes) : (head ++ sep :: tail).takeWhile (· ≠ sep) = head.takeWhile (· ≠ sep) := by
  induction head with
  | nil => simp
  | cons byte head ih => rw [cons_append, takeWhile_cons, takeWhile_cons, ih]

theorem dataTablePrefix_text (table : String) : dataTablePrefix table = utf8 ("Data_" ++ table ++ "_") := by
  have head : ("Data_" : String).toByteArray.data.toList = dataPrefix := by decide
  have tail : ("_" : String).toByteArray.data.toList = [sep] := by decide
  simp [dataTablePrefix, utf8, String.toByteArray_append, head, tail]

theorem tableFromUserKey_under {key : Key} (under : key.startsWith (dataTablePrefix table) = true) :
    tableFromUserKey library key = prefixTable library (dataTablePrefix table) := by
  obtain ⟨rest, bytes⟩ := isPrefixOf_iff_prefix.mp under
  have text : String.fromUTF8? ⟨(dataTablePrefix table).toArray⟩ = some ("Data_" ++ table ++ "_") := by
    rw [dataTablePrefix_text, fromUTF8?_utf8]
  have strip : ∀ tail : Bytes, stripPrefix dataPrefix (dataPrefix ++ tail) = some tail := by
    intro tail
    simp [stripPrefix]
  unfold tableFromUserKey prefixTable
  rw [text, ← bytes]
  unfold dataTablePrefix
  simp only [append_assoc, strip, orElse_some, map_some]
  rw [if_pos (by simp)]
  simp only [cons_append, takeWhile_sep]

end Schema

namespace StorageManager

variable {library : Library} {history : List Entry} {storage : StorageManager}

def Mirrors (library : Library) (history : List Entry) (storage : StorageManager) : Prop :=
  ∀ table tree, storage.mirror table = some tree → ∀ entry, entry ∈ tree.entries ↔
    entry ∈ history ∧ tableFromUserKey library entry.key = some table

theorem mirror_eq_some {tree : BTreeStorage} (found : storage.mirror table = some tree) :
    storage.engineKind table = .bTree ∧ storage.btrees table = some tree := by
  unfold mirror at found
  split at found
  · exact ⟨by assumption, found⟩
  · cases found

variable {entry : Entry}

theorem Mirrors.skip (mirrors : storage.Mirrors library history)
    (none : ∀ table, tableFromUserKey library entry.key = some table → storage.mirror table = none) :
    storage.Mirrors library (history ++ [entry]) := by
  intro table tree found other
  rw [mirrors table tree found other]
  constructor
  · exact fun inside => ⟨mem_append_left _ inside.1, inside.2⟩
  · rintro ⟨member, routed⟩
    rcases mem_append.mp member with old | new
    · exact ⟨old, routed⟩
    · rw [mem_singleton.mp new] at routed
      exact absurd (none table routed) (by simp [found])

theorem Mirrors.apply (mirrors : storage.Mirrors library history) (determined : stamp.Determined (history ++ [entry]))
    (routed : tableFromUserKey library entry.key = some table) :
    (storage.apply table entry).Mirrors library (history ++ [entry]) := by
  intro asked tree found other
  by_cases same : asked = table
  · subst same
    obtain ⟨kind, stored⟩ := mirror_eq_some found
    have kind : storage.engineKind asked = .bTree := kind
    have stored : (storage.btrees asked).map (·.apply entry) = some tree := by
      simpa [apply] using stored
    obtain ⟨before, had, rfl⟩ := map_eq_some_iff.mp stored
    have content := mirrors asked before (by rw [mirror, if_pos kind, had])
    have fresh : ∀ taken ∈ before.entries, taken.internalKey = entry.internalKey → taken = entry := by
      intro taken member equal
      obtain ⟨sameKey, sameSeq⟩ := internalKey_inj.mp equal
      exact determined taken (mem_append_left _ ((content taken).mp member).1) entry (by simp) sameKey sameSeq
    show other ∈ insertVersion true entry before.entries ↔ _
    rw [mem_insertVersion before.ordered fresh, content, mem_append, mem_singleton]
    constructor
    · rintro (rfl | inside)
      · exact ⟨.inr rfl, routed⟩
      · exact ⟨.inl inside.1, inside.2⟩
    · rintro ⟨old | new, there⟩
      · exact .inr ⟨old, there⟩
      · exact .inl new
  · have before : storage.mirror asked = some tree := by
      rw [← found]
      unfold mirror StorageManager.apply
      dsimp only
      rw [Function.update_of_ne same]
      rfl
    rw [mirrors asked tree before other, mem_append, mem_singleton]
    constructor
    · exact fun inside => ⟨.inl inside.1, inside.2⟩
    · rintro ⟨old | new, there⟩
      · exact ⟨old, there⟩
      · rw [new, routed] at there
        exact absurd (some.inj there).symm same

theorem registered_mirrors (library : Library) (catalog : List TableSchema) :
    (catalog.foldl registerTable routerOnly).Mirrors library [] := by
  have empty : ∀ storage : StorageManager, (∀ table tree, storage.btrees table = some tree → tree = .empty) →
      ∀ table tree, (catalog.foldl registerTable storage).btrees table = some tree → tree = .empty := by
    induction catalog with
    | nil => exact fun storage before => before
    | cons schema catalog ih =>
      intro storage before
      apply ih
      intro table tree found
      unfold registerTable at found
      dsimp only at found
      split at found
      · by_cases same : table = schema.name
        · subst same
          rw [Function.update_self] at found
          cases had : storage.btrees schema.name with
          | none =>
            rw [had] at found
            exact (some.inj found).symm
          | some old =>
            rw [had] at found
            exact some.inj found ▸ before _ old had
        · rw [Function.update_of_ne same] at found
          exact before table tree found
      · exact before table tree found
  intro table tree found entry
  rw [empty routerOnly nofun table tree (mirror_eq_some found).2]
  simp [BTreeStorage.empty]

end StorageManager

variable {engine : TakyonicEngine} {writes : List (Key × Option Value)}

theorem TakyonicEngine.mirrorBtreeWrites_mirrors {library : Library} {history : List Entry}
    (mirrors : engine.storage.Mirrors library history) {commitTs : Nat}
    (determined : stamp.Determined (history ++ writes.map (opEntry commitTs))) :
    (engine.mirrorBtreeWrites library writes commitTs).storage.Mirrors library
      (history ++ writes.map (opEntry commitTs)) := by
  unfold mirrorBtreeWrites
  generalize engine.storage = storage at mirrors
  induction writes generalizing storage history with
  | nil => simpa using mirrors
  | cons write writes ih =>
    obtain ⟨-, ofKey, -⟩ := opEntry_spec commitTs write
    rw [map_cons, append_cons] at determined ⊢
    have first := determined.subset (subset_append_left (history ++ [opEntry commitTs write]) _)
    rw [foldl_cons]
    apply ih determined
    cases routed : tableFromUserKey library write.1 with
    | none => exact mirrors.skip (fun table found => by rw [ofKey, routed] at found; cases found)
    | some table =>
      dsimp only
      split
      · exact mirrors.apply first (ofKey.symm ▸ routed)
      · rename_i kind
        apply mirrors.skip
        intro other found
        rw [ofKey, routed] at found
        rw [← some.inj found, mirror, if_neg kind]

def Op.Routed (library : Library) (catalog : List TableSchema) (op : Op) : Prop :=
  op.Healthy ∧ ∀ write ∈ op.single, OutsideBTree library catalog write.1

instance (library : Library) (catalog : List TableSchema) (op : Op) : Decidable (op.Routed library catalog) :=
  inferInstanceAs (Decidable (_ ∧ _))

namespace World

variable {library : Library} {catalog : List TableSchema} {world : World}

structure Faithful (library : Library) (catalog : List TableSchema) (world : World) : Prop where
  sound : world.Sound
  engines : world.engine.storage.engines = (catalog.foldl registerTable .routerOnly).engines
  mirrors : world.engine.storage.Mirrors library world.history
  chronicle : Deed.Chronicle world.deeds
  past : ∀ deed ∈ world.deeds, deed.commitTs ≤ world.engine.store.node.lastApplied
  noted : ∀ deed ∈ world.deeds, ∀ write ∈ deed.writes, ∃ ts, world.engine.lastCommit write.1 = some ts ∧
    deed.commitTs ≤ ts

section Reading

variable {ts : Nat} (faithful : world.Faithful library catalog) (recent : world.mark ≤ ts + 1)
include faithful recent

theorem Faithful.readAt (key : Key) :
    stamp.IsNewest world.history key ts (world.engine.readAt library key ts) := by
  unfold TakyonicEngine.readAt
  cases mirrored : world.engine.mirrorOf library key with
  | none => exact faithful.sound.store.getAt recent
  | some tree =>
    obtain ⟨table, routed, found⟩ := bind_eq_some_iff.mp mirrored
    apply (tree.ordered.firstFrom_isNewest key ts).congr
    intro version ofKey
    rw [faithful.mirrors table tree found version, show version.key = key from ofKey]
    exact and_iff_left routed

theorem Faithful.stateAt (key : Key) :
    (Deed.stateAt world.deeds ts)[key]? = (answer (world.engine.readAt library key ts)).1 :=
  Deed.stateAt_newest faithful.chronicle faithful.sound.store.determined (faithful.readAt recent key)

theorem Faithful.get (key : Key) : ∃ seenTs,
    (world.engine.reader library ts).get key = .ok ((Deed.stateAt world.deeds ts)[key]?, seenTs) := by
  refine ⟨(answer (world.engine.readAt library key ts)).2, ?_⟩
  show world.engine.getAtWithTs library key ts = _
  rw [faithful.stateAt recent, getAtWithTs, faithful.sound.steady.ensureOpen]
  rfl

theorem Faithful.scan (table : String) : ∃ keys,
    (world.engine.reader library ts).scanPrefixKeys (dataTablePrefix table) = .ok keys ∧ keys.Nodup ∧
      (∀ key ∈ keys, key.startsWith (dataTablePrefix table) = true) ∧
      ∀ key, key.startsWith (dataTablePrefix table) = true →
        (Deed.stateAt world.deeds ts)[key]? ≠ none → key ∈ keys := by
  have complete : ∀ {versions keys}, Scanned versions (dataTablePrefix table) ts keys →
      (∀ key, key.startsWith (dataTablePrefix table) = true →
        stamp.IsNewest versions key ts (world.engine.readAt library key ts)) → keys.Nodup ∧
      (∀ key ∈ keys, key.startsWith (dataTablePrefix table) = true) ∧
      ∀ key, key.startsWith (dataTablePrefix table) = true →
        (Deed.stateAt world.deeds ts)[key]? ≠ none → key ∈ keys := by
    intro versions keys scanned newest
    refine ⟨scanned.ascending.imp ne_of_lt, fun key member => (scanned.under key member).1, fun key under live => ?_⟩
    rw [faithful.stateAt recent] at live
    have here := newest key under
    cases found : world.engine.readAt library key ts with
    | none => exact absurd (by rw [found]; rfl) live
    | some version =>
      rw [found] at here live
      obtain rfl : version.key = key := here.2.1
      apply scanned.live version here _ under
      cases tombstone : version.tombstone with
      | false => rfl
      | true => exact absurd (by simp [answer, tombstone]) live
  have mirrorOf : ∀ key, key.startsWith (dataTablePrefix table) = true → world.engine.mirrorOf library key =
      (prefixTable library (dataTablePrefix table)).bind world.engine.storage.mirror := by
    intro key under
    rw [mirrorOf, tableFromUserKey_under under]
  have reading : (world.engine.reader library ts).scanPrefixKeys (dataTablePrefix table) =
      world.engine.scanPrefixKeys library (dataTablePrefix table) ts := rfl
  rw [reading, scanPrefixKeys, faithful.sound.steady.ensureOpen]
  cases mirrored : (prefixTable library (dataTablePrefix table)).bind world.engine.storage.mirror with
  | some tree =>
    refine ⟨_, rfl, complete (tree.scanAt_scanned _ ts) fun key under => ?_⟩
    rw [TakyonicEngine.readAt, mirrorOf key under, mirrored]
    exact tree.ordered.firstFrom_isNewest key ts
  | none =>
    have store := faithful.sound.store
    have scanned := Store.scanPrefixKeys_scanned store.catalogued (store.determined.subset store.visible.subset)
      (dataTablePrefix table) ts
    refine ⟨_, rfl, complete scanned fun key under => ?_⟩
    rw [TakyonicEngine.readAt, mirrorOf key under, mirrored]
    exact store.catalogued.getAt_isNewest (world.engine.store.node.memtable.ordered.firstFrom_isNewest key ts)

end Reading

theorem Faithful.record (faithful : world.Faithful library catalog) (distinct : (writes.map Prod.fst).Nodup)
    (noted : world.engine.Noted engine (writes.map Prod.fst)) (script : List (TxnOp × Reply)) :
    Deed.Chronicle (world.deeds ++ [⟨world.engine.store.node.lastApplied + 1, script, writes⟩]) ∧
      (∀ deed ∈ world.deeds ++ [⟨world.engine.store.node.lastApplied + 1, script, writes⟩],
        deed.commitTs ≤ engine.store.node.lastApplied) ∧
      ∀ deed ∈ world.deeds ++ [⟨world.engine.store.node.lastApplied + 1, script, writes⟩], ∀ write ∈ deed.writes,
        ∃ ts, engine.lastCommit write.1 = some ts ∧ deed.commitTs ≤ ts := by
  refine ⟨⟨?_, fun deed member => ?_⟩, fun deed member => ?_, fun deed member write inside => ?_⟩
  · apply pairwise_append.mpr
    refine ⟨faithful.chronicle.ascending, pairwise_singleton _ _, fun deed member other new => ?_⟩
    rw [mem_singleton.mp new]
    exact Nat.lt_succ_of_le (faithful.past deed member)
  · rcases mem_append.mp member with old | new
    · exact faithful.chronicle.distinct deed old
    · rw [mem_singleton.mp new]
      exact distinct
  · rw [noted.lastApplied]
    rcases mem_append.mp member with old | new
    · exact Nat.le_succ_of_le (faithful.past deed old)
    · rw [mem_singleton.mp new]
  · rw [noted.lastCommit]
    have bound : deed.commitTs ≤ world.engine.store.node.lastApplied + 1 := by
      rcases mem_append.mp member with old | new
      · exact Nat.le_succ_of_le (faithful.past deed old)
      · rw [mem_singleton.mp new]
    by_cases rewritten : write.1 ∈ writes.map Prod.fst
    · exact ⟨_, if_pos rewritten, bound⟩
    · rcases mem_append.mp member with old | new
      · obtain ⟨ts, known, le⟩ := faithful.noted deed old write inside
        exact ⟨ts, (if_neg rewritten).trans known, le⟩
      · rw [mem_singleton.mp new] at inside
        exact absurd (mem_map_of_mem inside) rewritten

theorem Faithful.step (faithful : world.Faithful library catalog) {op : Op} (routed : op.Routed library catalog) :
    (world.step library op).Faithful library catalog := by
  obtain ⟨move, sound⟩ := faithful.sound.step library routed.1
  have engines := move.engines.trans faithful.engines
  generalize world.step library op = after at move sound engines
  cases move with
  | quiet same | began same _ | ended _ same _ =>
    exact ⟨sound, engines, same.storage ▸ faithful.mirrors, faithful.chronicle, same.lastApplied ▸ faithful.past,
      same.lastCommit ▸ faithful.noted⟩
  | @wrote _ engine write single noted storage =>
    have distinct : ([write].map Prod.fst).Nodup := nodup_singleton write.1
    obtain ⟨chronicle, past, recorded⟩ := faithful.record distinct noted [(.ofWrite write, .ok .done)]
    refine ⟨sound, engines, ?_, chronicle, past, recorded⟩
    show engine.storage.Mirrors library (World.history { world with deeds := _ })
    rw [storage, history_append]
    apply faithful.mirrors.skip
    intro table found
    rw [(opEntry_spec _ write).2.1] at found
    exact mirror_none faithful.engines (routed.2 write single table found)
  | performed member => exact ⟨sound, engines, faithful.mirrors, faithful.chronicle, faithful.past, faithful.noted⟩
  | @committed _ engine work member writes free noted storage =>
    obtain ⟨chronicle, past, recorded⟩ := faithful.record (writes_plain writes).1 noted work.script
    refine ⟨sound, engines, ?_, chronicle, past, recorded⟩
    have grown : (finish { world with engine, deeds := world.deeds ++ [Deed.mk
        (world.engine.store.node.lastApplied + 1) work.script work.txn.writes.toList] } work
          (.committed (world.engine.store.node.lastApplied + 1))).history = world.history ++
            work.txn.writes.toList.map (opEntry (world.engine.store.node.lastApplied + 1)) :=
      history_append world _
    have determined := sound.store.determined
    rw [grown] at determined ⊢
    show engine.storage.Mirrors library _
    rw [storage]
    exact mirrorBtreeWrites_mirrors faithful.mirrors determined

theorem fresh_faithful (library : Library) (config : Config) (catalog : List TableSchema) :
    (fresh config catalog).Faithful library catalog := by
  refine ⟨fresh_sound config catalog, fresh_engines config catalog, ?_, ⟨List.Pairwise.nil, ?_⟩, ?_, ?_⟩
  · show (TakyonicEngine.fresh config catalog).storage.Mirrors library []
    rw [fresh_storage]
    exact registered_mirrors library catalog
  all_goals
    intro deed member
    cases member

end World

end Takyonic
