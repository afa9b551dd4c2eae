import Takyonic.Storage.Mirrors

namespace Takyonic

open Foundation List Serial Deed Transaction Std.TreeMap Option Library

theorem Serial.replay_append (reader : Reader) (session : Session) (script rest : List (TxnOp × Reply)) :
    replay reader session (script ++ rest) = (replay reader session script).bind (replay reader · rest) := by
  induction script generalizing session with
  | nil => rfl
  | cons entry script ih =>
    rw [cons_append, replay, replay]
    rcases (perform reader entry.1).run.run session with ⟨answer, after⟩
    dsimp only
    split
    · exact ih after
    · rfl

section

variable (tables : String → Except TakyonicError TableSchema) (db : Db)
include tables db

theorem Serial.run_append (scripts others : List (List (TxnOp × Reply))) :
    run tables db (scripts ++ others) = (run tables db scripts).bind (run tables · others) := by
  simp [run, foldlM_append]

theorem Serial.run_cons (script : List (TxnOp × Reply)) (others : List (List (TxnOp × Reply))) :
    run tables db (script :: others) = (alone tables db script).bind (run tables · others) := by
  simp [run]

theorem Db.scanned (start : Bytes) : ∃ keys,
    (db.reader tables).scanPrefixKeys start = .ok keys ∧ keys.Nodup ∧ (∀ key ∈ keys, key.startsWith start = true) ∧
      ∀ key, key.startsWith start = true → (db.reader tables).value key ≠ none → key ∈ keys := by
  refine ⟨_, rfl, ?_, fun key member => (mem_filter.mp member).2, fun key under live => ?_⟩
  · apply List.Nodup.filter
    exact distinct_keys.imp (fun different same => different (compare_eq_iff_eq.mpr same))
  · apply mem_filter.mpr
    refine ⟨mem_keys.mpr ?_, under⟩
    exact mem_iff_isSome_getElem?.mpr (isSome_iff_ne_none.mpr live)

end

def TxnOp.scanned : TxnOp → Option String
  | .scanTableRecords table => some table
  | _ => none

structure Work.Agrees (work : Work) (snapshot db : Db) : Prop where
  reads : ∀ key ∈ work.txn.reads, snapshot[key]? = db[key]?
  scans : ∀ table reply, (.scanTableRecords table, reply) ∈ work.script →
    ∀ key : Key, key.startsWith (Schema.dataTablePrefix table) = true → db[key]? ≠ none → snapshot[key]? = db[key]?

def Work.Replays (tables : String → Except TakyonicError TableSchema) (snapshot : Db) (work : Work) : Prop :=
  ∀ db, work.Agrees snapshot db → ∃ session, replay (db.reader tables) start work.script = some session ∧
    (Session.mk start.ssi work.txn).Alike session

def Work.Quotes (snapshot : Db) (work : Work) : Prop :=
  work.txn.writes.isEmpty = true → ∀ key reply, (.get key, reply) ∈ work.script → reply = .ok (.value snapshot[key]?)

/-- Single writes and transactions of gets, puts and deletes on keys outside the B-Tree tables, while flushes and
    compactions go on. -/
def Op.Point (library : Library) (catalog : List TableSchema) : Op → Prop
  | .put _ key _ | .delete _ key => OutsideBTree library catalog key
  | .perform _ (.get key) | .perform _ (.put key _) | .perform _ (.delete key) => OutsideBTree library catalog key
  | .commit conditions _ => conditions.fault = none
  | .begin _ | .abort _ | .flush | .background _ => True
  | .perform _ (.putRecord _ _) | .perform _ (.scanTableRecords _) | .attach _ | .close | .reopen => False

instance (library : Library) (catalog : List TableSchema) (op : Op) : Decidable (op.Point library catalog) := by
  rcases op with _ | _ | _ | ⟨_, ⟨⟩⟩ <;> unfold Op.Point <;> infer_instance

theorem Op.Point.routed {library : Library} {catalog : List TableSchema} {op : Op} (point : op.Point library catalog) :
    op.Routed library catalog := by
  cases op with
  | put conditions key value | delete conditions key =>
    refine ⟨True.intro, fun write single => ?_⟩
    cases single
    exact point
  | commit conditions txnId => exact ⟨point, fun write single => by cases single⟩
  | attach raft | close | reopen => exact absurd point id
  | _ => exact ⟨True.intro, fun write single => by cases single⟩

namespace World

variable {library : Library} {catalog : List TableSchema} {world : World}
  {tables : String → Except TakyonicError TableSchema} {work other : Work} {engine before after : TakyonicEngine}
  {ts last readTs : Nat}

def snapshot (world : World) (work : Work) : Db := stateAt world.deeds work.txn.readTs

section

variable (faithful : world.Faithful library catalog)
include faithful

section

variable (member : work ∈ world.live) {op : TxnOp} {reply : Reply} {session : Session}
include member

theorem Faithful.recent : world.mark ≤ work.txn.readTs + 1 ∧ work.txn.readTs ≤ world.engine.store.node.lastApplied :=
  (faithful.sound.steady.epochs _ (faithful.sound.tracked work member)).2

theorem Faithful.alike (db : Db) :
    (world.engine.reader library work.txn.readTs).Alike (db.reader world.engine.tableSchema)
      (fun key => (world.snapshot work)[key]? = db[key]?) := by
  have get := faithful.get (faithful.recent member).1
  refine ⟨fun key => ?_, fun key => ⟨_, rfl⟩, fun key same => ?_, rfl⟩
  · obtain ⟨seenTs, found⟩ := get key
    exact ⟨_, found⟩
  · obtain ⟨seenTs, found⟩ := get key
    rw [found]
    exact congrArg Except.ok same

theorem Faithful.scanAlike {db : Db} {table : String}
    (scans : ∀ key : Key, key.startsWith (Schema.dataTablePrefix table) = true → db[key]? ≠ none →
      (world.snapshot work)[key]? = db[key]?) :
    ScanAlike (world.engine.reader library work.txn.readTs) (db.reader world.engine.tableSchema)
      (fun key => (world.snapshot work)[key]? = db[key]?) (Schema.dataTablePrefix table) := by
  have recent := (faithful.recent member).1
  obtain ⟨keys, found, distinct, under, complete⟩ := faithful.scan recent table
  refine ⟨⟨keys, found, distinct, under, fun key inside live => complete key inside ?_⟩, db.scanned _ _, scans⟩
  obtain ⟨seenTs, read⟩ := faithful.get recent key
  rw [Reader.value, read] at live
  exact live

theorem Faithful.replays (replays : work.Replays world.engine.tableSchema (world.snapshot work))
    (result : (Transaction.perform (world.engine.reader library work.txn.readTs) op).exec
      ⟨world.engine.ssi, work.txn⟩ = (reply, session)) :
    Work.Replays world.engine.tableSchema (world.snapshot work) ⟨session.txn, work.script ++ [(op, reply)]⟩ := by
  intro db agrees
  have extended := Transaction.perform_extends result
  have before : work.Agrees (world.snapshot work) db :=
    ⟨fun key read => agrees.reads key (extended.reads key read),
      fun table reply inside => agrees.scans table reply (mem_append_left _ inside)⟩
  obtain ⟨earlier, replayed, similar⟩ := replays db before
  have follows := Transaction.perform_follows (faithful.alike member db) op (fun table same =>
    faithful.scanAlike member (agrees.scans table reply (by simp [same])))
  have same := follows ⟨world.engine.ssi, work.txn⟩ earlier ⟨similar.writes, similar.finished⟩
    (by rw [result]; exact agrees.reads)
  rw [result] at same
  refine ⟨_, ?_, same.2.writes, same.2.finished⟩
  rw [replay_append, replayed]
  show (if ((Transaction.perform (db.reader world.engine.tableSchema) op).exec earlier).1 = reply then _ else none) = _
  rw [if_pos same.1.symm]
  rfl

theorem Faithful.quotes (quotes : work.Quotes (world.snapshot work))
    (result : (Transaction.perform (world.engine.reader library work.txn.readTs) op).exec
      ⟨world.engine.ssi, work.txn⟩ = (reply, session)) :
    Work.Quotes (world.snapshot work) ⟨session.txn, work.script ++ [(op, reply)]⟩ := by
  intro unwritten key answer inside
  have extended := Transaction.perform_extends result
  have before : work.txn.writes.isEmpty = true := by
    by_contra written
    obtain ⟨key, buffered⟩ := isEmpty_eq_false_iff_exists_mem.mp (Bool.eq_false_iff.mpr written)
    exact absurd (extended.writes key buffered) (not_mem_of_isEmpty unwritten)
  rcases mem_append.mp inside with old | new
  · exact quotes before key answer old
  · cases mem_singleton.mp new
    have unfinished : (Session.mk world.engine.ssi work.txn).txn.finished = false :=
      faithful.sound.unfinished work member
    obtain ⟨seen, -, -, ran⟩ := Transaction.get_exec (faithful.alike member ∅).total key unfinished
    rw [Transaction.perform, TxnM.exec_bind, ran] at result
    obtain ⟨seenTs, read⟩ := faithful.get (faithful.recent member).1 key
    have unbuffered : (Session.mk world.engine.ssi work.txn).txn.writes[key]? = none :=
      getElem?_of_isEmpty before
    rw [← (Prod.mk.inj result).1, Reader.overlaid, unbuffered, Reader.value, read]
    rfl

end

end

def Calm (world : World) (work : Work) : Prop :=
  ∀ entry ∈ work.script, ∀ table ∈ entry.1.scanned, ∀ deed ∈ world.deeds, work.txn.readTs < deed.commitTs →
    ∀ write ∈ deed.writes, write.1.startsWith (Schema.dataTablePrefix table) = true → write.1 ∈ work.txn.reads

instance : Decidable (world.Calm work) :=
  inferInstanceAs (Decidable (∀ entry ∈ work.script, ∀ table ∈ entry.1.scanned, ∀ deed ∈ world.deeds, _ → _))

def Undisturbed (world : World) : Op → Prop
  | .commit _ txnId => ∀ work ∈ world.live, work.txn.txnId = txnId → work.txn.writes.isEmpty = false → world.Calm work
  | _ => True

instance : Decidable (world.Undisturbed op) := by
  rcases op with ⟨⟩ <;> unfold Undisturbed <;> infer_instance

theorem firstConflict_none {txn : Transaction} (free : engine.firstConflict txn = none)
    {key : Key} (read : key ∈ txn.reads) (known : engine.lastCommit key = some ts) : ts ≤ txn.readTs := by
  have all := List.findSome?_eq_none_iff.mp free key (mem_append_left _ (mem_keys.mpr read))
  rw [known, bind_some] at all
  split at all
  · cases all
  · exact le_of_not_gt (by assumption)

theorem Faithful.agrees (faithful : world.Faithful library catalog) (member : work ∈ world.live)
    (free : world.engine.firstConflict work.txn = none) (calm : world.Calm work) :
    work.Agrees (world.snapshot work) (Deed.stateAt world.deeds world.engine.store.node.lastApplied) := by
  have le := (faithful.recent member).2
  have unread : ∀ key ∈ work.txn.reads, ∀ deed ∈ world.deeds, work.txn.readTs < deed.commitTs →
      ∀ write ∈ deed.writes, write.1 ≠ key := by
    intro key read deed inside later write written same
    obtain ⟨ts, known, bound⟩ := faithful.noted deed inside write written
    have := firstConflict_none free read (same ▸ known)
    omega
  refine ⟨fun key read => ?_, fun table reply scanned key under _ => ?_⟩
  · exact stateAt_unwritten faithful.chronicle le (unread key read)
  · apply stateAt_unwritten faithful.chronicle le
    intro deed inside later write written same
    have read := calm _ scanned table (mem_some.mpr rfl) deed inside later write written (same ▸ under)
    exact unread write.1 read deed inside later write written rfl

/-- Every transaction under way could still be the next of a serial run, and the acknowledged writes are one. -/
structure Serialized (library : Library) (catalog : List TableSchema)
    (tables : String → Except TakyonicError TableSchema) (world : World) : Prop where
  faithful : world.Faithful library catalog
  schemas : world.engine.tableSchema = tables
  replays : ∀ work ∈ world.live, work.Replays tables (world.snapshot work)
  quotes : ∀ work ∈ world.live ++ world.ended.map Prod.fst,
    work.txn.readTs ≤ world.engine.store.node.lastApplied ∧ work.Quotes (world.snapshot work)
  serial : run tables ∅ (world.deeds.map script) = some (stateAt world.deeds world.engine.store.node.lastApplied)
  acknowledged : ∀ work commitTs, (work, .committed commitTs) ∈ world.ended → work.txn.writes.isEmpty = false →
    ⟨commitTs, work.script, work.txn.writes.toList⟩ ∈ world.deeds

theorem tableSchema_congr (same : after.schemas = before.schemas) :
    after.tableSchema = before.tableSchema := by
  funext table
  rw [TakyonicEngine.tableSchema, TakyonicEngine.tableSchema, same]

theorem alone_single (tables : String → Except TakyonicError TableSchema) (db : Db) (write : Key × Option Value) :
    alone tables db [(.ofWrite write, .ok .done)] = some (db.apply [write]) := by
  obtain ⟨key, op⟩ := write
  have buffered : replay (db.reader tables) start [(.ofWrite (key, op), .ok .done)] =
      some (start.buffer key op |>.observe key 0) := by
    cases op with
    | none => rfl
    | some value => rfl
  rw [alone, buffered]
  rfl

theorem Serialized.grow (serialized : world.Serialized library catalog tables) {script : List (TxnOp × Reply)}
    {writes : List (Key × Option Value)} (alone : Serial.alone tables
      (stateAt world.deeds world.engine.store.node.lastApplied) script =
        some ((stateAt world.deeds world.engine.store.node.lastApplied).apply writes)) :
    Serial.run tables ∅ ((world.deeds ++
        [Deed.mk (world.engine.store.node.lastApplied + 1) script writes]).map Deed.script) =
      some (stateAt (world.deeds ++ [⟨world.engine.store.node.lastApplied + 1, script, writes⟩])
        (world.engine.store.node.lastApplied + 1)) := by
  rw [stateAt_append, if_pos le_rfl, stateAt_past serialized.faithful.past (Nat.le_succ _), map_append]
  rw [Serial.run_append, serialized.serial, bind_some, map_singleton, Serial.run_cons, alone]
  rfl

theorem stateAt_before {deeds : List Deed} (le : readTs ≤ last) (script : List (TxnOp × Reply))
    (writes : List (Key × Option Value)) :
    stateAt (deeds ++ [⟨last + 1, script, writes⟩]) readTs = stateAt deeds readTs := by
  rw [stateAt_append, if_neg (not_le_of_gt (Nat.lt_succ_of_le le))]

theorem mem_finish {outcome : Outcome} (member : work ∈ world.live)
    (inside : other ∈ (world.finish work outcome).live ++ (world.finish work outcome).ended.map Prod.fst) :
    other ∈ world.live ++ world.ended.map Prod.fst := by
  rcases mem_append.mp inside with live | ended
  · exact mem_append_left _ (mem_of_mem_filter live)
  · rw [finish, map_append] at ended
    rcases mem_append.mp ended with old | new
    · exact mem_append_right _ old
    · rw [mem_singleton.mp new]
      exact mem_append_left _ member

theorem Serialized.step (serialized : world.Serialized library catalog tables) {op : Op}
    (routed : op.Routed library catalog) (calm : world.Undisturbed op) :
    (world.step library op).Serialized library catalog tables := by
  obtain ⟨move, -⟩ := serialized.faithful.sound.step library routed.1
  have faithful := serialized.faithful.step routed
  have recent : ∀ work ∈ world.live, work.txn.readTs ≤ world.engine.store.node.lastApplied :=
    fun work member => (serialized.faithful.recent member).2
  generalize world.step library op = after at move faithful
  cases move with
  | quiet same =>
    exact ⟨faithful, (tableSchema_congr same.schemas).trans serialized.schemas, serialized.replays,
      same.lastApplied ▸ serialized.quotes, same.lastApplied ▸ serialized.serial, serialized.acknowledged⟩
  | @wrote _ engine write single noted storage =>
    refine ⟨faithful, (tableSchema_congr noted.schemas).trans serialized.schemas, fun work member => ?_,
      fun work member => ?_, ?_, fun work commitTs inside writes => ?_⟩
    · rw [snapshot, stateAt_before (recent work member)]
      exact serialized.replays work member
    · obtain ⟨le, quotes⟩ := serialized.quotes work member
      rw [snapshot, stateAt_before le]
      exact ⟨(Nat.le_succ_of_le le).trans_eq noted.lastApplied.symm, quotes⟩
    · rw [noted.lastApplied]
      exact serialized.grow (alone_single tables _ write)
    · exact mem_append_left _ (serialized.acknowledged work commitTs inside writes)
  | @began engine txnId isolation same new =>
    refine ⟨faithful, (tableSchema_congr same.schemas).trans serialized.schemas, fun work member => ?_,
      fun work member => ?_, same.lastApplied ▸ serialized.serial, serialized.acknowledged⟩
    · rcases mem_append.mp member with old | new
      · exact serialized.replays work old
      · rw [mem_singleton.mp new]
        exact fun db _ => ⟨start, rfl, rfl, rfl⟩
    · rw [same.lastApplied]
      rcases mem_append.mp member with live | ended
      · rcases mem_append.mp live with old | new
        · exact serialized.quotes work (mem_append_left _ old)
        · rw [mem_singleton.mp new]
          exact ⟨le_rfl, fun _ key reply inside => absurd inside not_mem_nil⟩
      · exact serialized.quotes work (mem_append_right _ ended)
  | @performed work op member =>
    obtain ⟨⟨reply, session⟩, result⟩ : ∃ result, (Transaction.perform (world.engine.reader library work.txn.readTs)
        op).exec ⟨world.engine.ssi, work.txn⟩ = result := ⟨_, rfl⟩
    have readTs : session.txn.readTs = work.txn.readTs := (perform_extends result).readTs
    obtain ⟨le, quotes⟩ := serialized.quotes work (mem_append_left _ member)
    rw [perform_eq result] at faithful ⊢
    refine ⟨faithful, serialized.schemas, fun other inside => ?_, fun other inside => ?_, serialized.serial,
      serialized.acknowledged⟩
    · obtain ⟨before, old, rfl⟩ := mem_map.mp inside
      split
      · rw [snapshot, readTs]
        have replays := serialized.replays work member
        rw [← serialized.schemas] at replays ⊢
        exact serialized.faithful.replays member replays result
      · exact serialized.replays before old
    · rcases mem_append.mp inside with live | ended
      · obtain ⟨before, old, rfl⟩ := mem_map.mp live
        split
        · rw [snapshot, readTs]
          exact ⟨le, serialized.faithful.quotes member quotes result⟩
        · exact serialized.quotes before (mem_append_left _ old)
      · exact serialized.quotes other (mem_append_right _ ended)
  | @ended _ engine work outcome member same harmless =>
    refine ⟨faithful, (tableSchema_congr same.schemas).trans serialized.schemas, fun other inside => ?_,
      fun other inside => ?_, same.lastApplied ▸ serialized.serial, fun other commitTs inside written => ?_⟩
    · exact serialized.replays other (mem_of_mem_filter inside)
    · have old : other ∈ world.live ++ world.ended.map Prod.fst := mem_finish member inside
      obtain ⟨le, quotes⟩ := serialized.quotes other old
      exact ⟨le.trans_eq same.lastApplied.symm, quotes⟩
    · rcases mem_append.mp inside with old | new
      · exact serialized.acknowledged other commitTs old written
      · obtain ⟨rfl, rfl⟩ := Prod.mk.inj (mem_singleton.mp new)
        rw [harmless commitTs rfl] at written
        cases written
  | @committed _ engine work member writes free noted storage =>
    refine ⟨faithful, (tableSchema_congr noted.schemas).trans serialized.schemas, fun other inside => ?_,
      fun other inside => ?_, ?_, fun other commitTs inside written => ?_⟩
    · have old : other ∈ world.live := mem_of_mem_filter inside
      show other.Replays tables (Deed.stateAt (world.deeds ++ [_]) other.txn.readTs)
      rw [stateAt_before (recent other old)]
      exact serialized.replays other old
    · have old : other ∈ world.live ++ world.ended.map Prod.fst := mem_finish member inside
      obtain ⟨le, quotes⟩ := serialized.quotes other old
      show _ ∧ other.Quotes (Deed.stateAt (world.deeds ++ [_]) other.txn.readTs)
      rw [stateAt_before le]
      exact ⟨(Nat.le_succ_of_le le).trans_eq noted.lastApplied.symm, quotes⟩
    · show _ = some (Deed.stateAt _ engine.store.node.lastApplied)
      rw [noted.lastApplied]
      apply serialized.grow
      obtain ⟨session, replayed, alike⟩ := serialized.replays work member _
        (serialized.faithful.agrees member free (calm work member rfl writes))
      rw [alone, replayed, map_some, ← alike.writes]
    · rcases mem_append.mp inside with old | new
      · exact mem_append_left _ (serialized.acknowledged other commitTs old written)
      · obtain ⟨rfl, same⟩ := Prod.mk.inj (mem_singleton.mp new)
        rw [Outcome.committed.inj same]
        exact mem_append_right _ (mem_singleton_self _)

theorem fresh_serialized (library : Library) (config : Config) (catalog : List TableSchema) :
    (fresh config catalog).Serialized library catalog (TakyonicEngine.fresh config catalog).tableSchema := by
  refine ⟨fresh_faithful library config catalog, rfl, fun work member => ?_, fun work member => ?_, rfl,
    fun work commitTs member => ?_⟩
  all_goals exact absurd member not_mem_nil

variable {after : World}

theorem Move.unscanned {op : Op} (move : Move library world op after) (point : op.Point library catalog)
    (unscanned : ∀ work ∈ world.live, ∀ entry ∈ work.script, entry.1.scanned = none) :
    ∀ work ∈ after.live, ∀ entry ∈ work.script, entry.1.scanned = none := by
  cases move with
  | quiet same | wrote single noted storage => exact unscanned
  | began same new =>
    exact forall_mem_append.mpr ⟨unscanned, forall_mem_singleton.mpr (fun entry inside => absurd inside not_mem_nil)⟩
  | @performed work op member =>
    intro other inside
    obtain ⟨before, old, rfl⟩ := mem_map.mp inside
    split
    · refine forall_mem_append.mpr ⟨unscanned work member, forall_mem_singleton.mpr ?_⟩
      cases op with
      | putRecord table record | scanTableRecords table => exact absurd point id
      | _ => rfl
    · exact unscanned before old
  | _ => exact fun work inside => unscanned work (mem_of_mem_filter inside)

theorem undisturbed_of_unscanned (unscanned : ∀ work ∈ world.live, ∀ entry ∈ work.script, entry.1.scanned = none)
    (op : Op) : world.Undisturbed op := by
  cases op with
  | commit conditions txnId =>
    intro work member _ _ entry inside table scan
    rw [unscanned work member entry inside] at scan
    cases scan
  | _ => exact True.intro

/-- A put, a transaction that moves the value to another key, and one that reads the key before that. -/
def transfer : List Op :=
  let fine : Conditions := ⟨true, none, .ok ()⟩
  [.put fine ⟨[97]⟩ ⟨[1]⟩, .begin .snapshot, .begin .snapshot, .perform 1 (.get ⟨[97]⟩), .perform 1 (.put ⟨[98]⟩ ⟨[1]⟩),
    .perform 1 (.delete ⟨[97]⟩), .commit fine 1, .flush, .perform 2 (.get ⟨[97]⟩), .commit fine 2,
    .delete fine ⟨[98]⟩]

/-- The acknowledged writes of a run of point operations, taken in the order of their numbers and each alone, get
    the replies they got; a transaction without writes reads the state after the writes up to its snapshot. -/
theorem run_point_serializable (library : Library) (config : Config) (catalog : List TableSchema) (ops : List Op)
    (point : ∀ op ∈ ops, op.Point library catalog) (world : World)
    (reached : run (step library) (fresh config catalog) ops = world) :
    world.deeds.Pairwise (fun first second => first.commitTs < second.commitTs) ∧
    (Serial.run world.engine.tableSchema ∅ (world.deeds.map Deed.script)).isSome ∧
    (∀ work commitTs, (work, .committed commitTs) ∈ world.ended → work.txn.writes.isEmpty = false →
      ⟨commitTs, work.script, work.txn.writes.toList⟩ ∈ world.deeds) ∧
    ∀ work ∈ world.live ++ world.ended.map Prod.fst, work.txn.writes.isEmpty = true →
      ∀ key reply, (.get key, reply) ∈ work.script →
        reply = .ok (.value (Deed.stateAt world.deeds work.txn.readTs)[key]?) := by
  have kept := run_invariant (P := fun world : World => world.Serialized library catalog
    (TakyonicEngine.fresh config catalog).tableSchema ∧
      ∀ work ∈ world.live, ∀ entry ∈ work.script, entry.1.scanned = none) point
    ⟨fresh_serialized library config catalog, fun work member => absurd member not_mem_nil⟩
    (fun state op ⟨serialized, unscanned⟩ allowed => by
      obtain ⟨move, -⟩ := serialized.faithful.sound.step library allowed.routed.1
      exact ⟨serialized.step allowed.routed (undisturbed_of_unscanned unscanned op), move.unscanned allowed unscanned⟩)
  rw [reached] at kept
  obtain ⟨serialized, -⟩ := kept
  refine ⟨serialized.faithful.chronicle.ascending, ?_, serialized.acknowledged, fun work member unwritten => ?_⟩
  · rw [serialized.schemas, serialized.serial]
    rfl
  · exact (serialized.quotes work member).2 unwritten

/-- A transfer between two keys with a reader of its own snapshot, then the books of the run. -/
theorem run_point_serializable_transfer :
    (run (step plain) (fresh ⟨4096, 4096⟩ []) transfer).deeds.length = 3 ∧
    (Serial.run (run (step plain) (fresh ⟨4096, 4096⟩ []) transfer).engine.tableSchema ∅
      ((run (step plain) (fresh ⟨4096, 4096⟩ []) transfer).deeds.map Deed.script)).isSome :=
  ⟨by decide +kernel, (run_point_serializable plain ⟨4096, 4096⟩ [] transfer (by decide +kernel) _ rfl).2.1⟩

end World

end Takyonic
