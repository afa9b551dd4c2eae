import Takyonic.Storage.Serializability

namespace Takyonic

open Foundation Option List Serial Library Work

def Op.Transactional : Op → Prop
  | .begin isolation => isolation = .serializable
  | .commit conditions _ => conditions.fault = none
  | .perform _ _ | .abort _ | .flush | .background _ => True
  | .put _ _ _ | .delete _ _ | .attach _ | .close | .reopen => False

instance (op : Op) : Decidable op.Transactional := by
  rcases op with ⟨⟩ <;> unfold Op.Transactional <;> infer_instance

theorem Op.Transactional.routed {op : Op} (transactional : op.Transactional) (library : Library)
    (catalog : List TableSchema) : op.Routed library catalog := by
  cases op with
  | put conditions key value | delete conditions key | attach raft | close | reopen => exact absurd transactional id
  | commit conditions txnId => exact ⟨transactional, fun write single => by cases single⟩
  | _ => exact ⟨True.intro, fun write single => by cases single⟩

def Outcome.isCommitted : Outcome → Bool
  | .committed _ => true
  | _ => false

namespace World

variable {library : Library} {catalog : List TableSchema} {world after : World}
  {tables : String → Except TakyonicError TableSchema} {order : List (Nat × List (TxnOp × Reply))}

def committed (world : World) : List Work := (world.ended.filter (·.2.isCommitted)).map Prod.fst

/-- There is an order in which the committed transactions, each alone, get the replies they got. -/
def Serializable (world : World) : Prop :=
  ∃ order, order.Perm (world.committed.map script) ∧ (run world.engine.tableSchema ∅ order).isSome

structure Schedule (tables : String → Except TakyonicError TableSchema) (world : World)
    (order : List (Nat × List (TxnOp × Reply))) : Prop where
  perm : (order.map Prod.snd).Perm (world.committed.map script)
  sorted : order.Pairwise (fun first second => first.1 ≤ second.1)
  past : ∀ item ∈ order, item.1 ≤ world.engine.store.node.lastApplied
  states : ∀ ts, run tables ∅ ((order.filter (·.1 ≤ ts)).map Prod.snd) = some (Deed.stateAt world.deeds ts)

theorem split_sorted (sorted : order.Pairwise (fun first second => first.1 ≤ second.1)) (ts : Nat) :
    order.filter (·.1 ≤ ts) ++ order.filter (ts < ·.1) = order := by
  induction order with
  | nil => rfl
  | cons item order ih =>
    obtain ⟨least, rest⟩ := pairwise_cons.mp sorted
    by_cases early : item.1 ≤ ts
    · rw [filter_cons_of_pos (by simpa using early), filter_cons_of_neg (by simpa using early), cons_append, ih rest]
    have late : ∀ other ∈ item :: order, ts < other.1 := by
      intro other member
      rcases List.mem_cons.mp member with rfl | member
      · exact lt_of_not_ge early
      · exact (lt_of_not_ge early).trans_le (least other member)
    rw [filter_eq_nil_iff.mpr (fun other member => by simpa using late other member),
      filter_eq_self.mpr (fun other member => by simpa using late other member), nil_append]

theorem Schedule.insert (schedule : world.Schedule tables order) {work : Work}
    (alone : alone tables (world.snapshot work) work.script = some (world.snapshot work)) (ts : Nat) :
    run tables ∅ (((order.filter (·.1 ≤ work.txn.readTs) ++ (work.txn.readTs, work.script) ::
      order.filter (work.txn.readTs < ·.1)).filter (·.1 ≤ ts)).map Prod.snd) = some (Deed.stateAt world.deeds ts) := by
  have whole := schedule.states ts
  rw [← split_sorted schedule.sorted work.txn.readTs, filter_append, map_append] at whole
  rw [filter_append, map_append]
  by_cases early : work.txn.readTs ≤ ts
  · have kept : (order.filter (·.1 ≤ work.txn.readTs)).filter (·.1 ≤ ts) = order.filter (·.1 ≤ work.txn.readTs) := by
      apply filter_eq_self.mpr
      intro item member
      have := (mem_filter.mp member).2
      simp only [decide_eq_true_eq] at this ⊢
      omega
    rw [kept, Serial.run_append, schedule.states, bind_some] at whole ⊢
    rw [filter_cons_of_pos (by simpa using early), map_cons, Serial.run_cons]
    rw [snapshot] at alone
    rw [alone, bind_some, whole]
  · rw [filter_cons_of_neg (by simpa using early)]
    exact whole

theorem committed_finish (world : World) (work : Work) (outcome : Outcome) : (world.finish work outcome).committed =
    if outcome.isCommitted then world.committed ++ [work] else world.committed := by
  cases outcome with
  | committed _ | failed _ | aborted => simp [committed, finish, Outcome.isCommitted]

theorem Serialized.alone (serialized : world.Serialized library catalog tables) {work : Work}
    (member : work ∈ world.live)
    (unwritten : work.txn.writes.isEmpty = true) :
    alone tables (world.snapshot work) work.script = some (world.snapshot work) := by
  obtain ⟨session, replayed, alike⟩ := serialized.replays work member _ ⟨fun _ _ => rfl, fun _ _ _ _ _ _ => rfl⟩
  have nothing : session.txn.writes.toList = [] := by
    rw [← List.isEmpty_iff, Std.TreeMap.isEmpty_toList, ← alike.writes]
    exact unwritten
  rw [Serial.alone, replayed, map_some, nothing]
  rfl

theorem Schedule.step (serialized : world.Serialized library catalog tables)
    (schedule : world.Schedule tables order) {op : Op} (transactional : op.Transactional)
    (serialized' : (world.step library op).Serialized library catalog tables) :
    ∃ order, (world.step library op).Schedule tables order := by
  obtain ⟨move, -⟩ := serialized.faithful.sound.step library (transactional.routed library catalog).1
  generalize world.step library op = after at move serialized'
  cases move with
  | quiet same | began same new =>
    exact ⟨order, schedule.perm, schedule.sorted, same.lastApplied ▸ schedule.past, schedule.states⟩
  | performed member => exact ⟨order, schedule.perm, schedule.sorted, schedule.past, schedule.states⟩
  | wrote single noted storage =>
    cases op with
    | put conditions key value | delete conditions key => exact absurd transactional id
    | _ => cases single
  | @ended _ engine work outcome member same harmless =>
    cases outcome with
    | failed error | aborted =>
      refine ⟨order, ?_, schedule.sorted, same.lastApplied ▸ schedule.past, schedule.states⟩
      rw [committed_finish]
      exact schedule.perm
    | committed commitTs =>
      have alone := serialized.alone member (harmless commitTs rfl)
      have recent := (serialized.faithful.recent member).2
      refine ⟨_, ?_, ?_, fun item inside => ?_, schedule.insert alone⟩
      · have grown : (finish { world with engine } work (.committed commitTs)).committed = world.committed ++ [work] :=
          committed_finish _ work _
        have appended : (world.committed ++ [work]).map script = world.committed.map script ++ [work.script] :=
          map_append
        rw [grown, appended]
        calc (order.filter (·.1 ≤ work.txn.readTs) ++ (work.txn.readTs, work.script) ::
                order.filter (work.txn.readTs < ·.1)).map Prod.snd
          List.Perm _ (work.script :: (order.filter (·.1 ≤ work.txn.readTs) ++
                order.filter (work.txn.readTs < ·.1)).map Prod.snd) := perm_middle.map _
          List.Perm _ (work.script :: world.committed.map script) := by
            rw [split_sorted schedule.sorted]
            exact schedule.perm.cons _
          List.Perm _ (world.committed.map script ++ [work.script]) := (perm_append_singleton _ _).symm
      · apply pairwise_append.mpr
        have late : ∀ item ∈ order.filter (work.txn.readTs < ·.1), work.txn.readTs ≤ item.1 :=
          fun item member => le_of_lt (of_decide_eq_true (mem_filter.mp member).2)
        refine ⟨schedule.sorted.filter _, pairwise_cons.mpr ⟨late, schedule.sorted.filter _⟩, ?_⟩
        intro first early second inside
        have early : first.1 ≤ work.txn.readTs := of_decide_eq_true (mem_filter.mp early).2
        rcases mem_cons.mp inside with rfl | inside
        · exact early
        · exact early.trans (late second inside)
      · show item.1 ≤ engine.store.node.lastApplied
        rw [same.lastApplied]
        rcases mem_append.mp inside with early | rest
        · exact schedule.past item (mem_of_mem_filter early)
        · rcases mem_cons.mp rest with rfl | late
          · exact recent
          · exact schedule.past item (mem_of_mem_filter late)
  | @committed _ engine work member writes free noted storage =>
    have next : engine.store.node.lastApplied = world.engine.store.node.lastApplied + 1 := noted.lastApplied
    have alone : alone tables (Deed.stateAt world.deeds world.engine.store.node.lastApplied) work.script =
        some (Deed.stateAt (world.deeds ++ [⟨world.engine.store.node.lastApplied + 1, work.script,
          work.txn.writes.toList⟩]) engine.store.node.lastApplied) := by
      have serial : run tables ∅ ((world.deeds ++ [Deed.mk _ work.script _]).map Deed.script) = _ :=
        serialized'.serial
      rw [map_append, Serial.run_append, serialized.serial, bind_some, map_singleton] at serial
      obtain ⟨db, found, last⟩ := bind_eq_some_iff.mp serial
      rw [found]
      exact last
    refine ⟨order ++ [(world.engine.store.node.lastApplied + 1, work.script)], ?_, ?_, fun item inside => ?_,
      fun ts => ?_⟩
    · have grown : (finish { world with engine, deeds := world.deeds ++ [Deed.mk
          (world.engine.store.node.lastApplied + 1) work.script work.txn.writes.toList] } work
            (.committed (world.engine.store.node.lastApplied + 1))).committed = world.committed ++ [work] :=
        committed_finish _ work _
      rw [grown, map_append, map_append]
      exact schedule.perm.append_right _
    · apply pairwise_append.mpr
      refine ⟨schedule.sorted, pairwise_singleton _ _, fun first member second last => ?_⟩
      rw [mem_singleton.mp last]
      exact Nat.le_succ_of_le (schedule.past first member)
    · show item.1 ≤ engine.store.node.lastApplied
      rw [next]
      rcases mem_append.mp inside with old | new
      · exact Nat.le_succ_of_le (schedule.past item old)
      · rw [mem_singleton.mp new]
    · show _ = some (Deed.stateAt (world.deeds ++ [_]) ts)
      rw [filter_append, map_append, Serial.run_append, schedule.states, bind_some]
      by_cases late : world.engine.store.node.lastApplied + 1 ≤ ts
      · have past : ∀ deed ∈ world.deeds ++ [Deed.mk (world.engine.store.node.lastApplied + 1) work.script
            work.txn.writes.toList], deed.commitTs ≤ engine.store.node.lastApplied := serialized'.faithful.past
        rw [Deed.stateAt_past serialized.faithful.past (Nat.le_of_succ_le late),
          Deed.stateAt_past past (next.trans_le late), filter_cons_of_pos (by simpa using late), filter_nil,
          map_singleton, Serial.run_cons, alone]
        rfl
      · rw [Deed.stateAt_append, if_neg late, filter_cons_of_neg (by simpa using late)]
        rfl

/-- In every run of transactions in which those that commit writes are calm, the committed transactions are
    serializable. -/
theorem run_serializable (library : Library) (config : Config) (catalog : List TableSchema) (ops : List Op)
    (calm : Along (step library) (fun world op => op.Transactional ∧ world.Undisturbed op) (fresh config catalog) ops) :
    (run (step library) (fresh config catalog) ops).Serializable := by
  have kept := calm.invariant (P := fun world : World => world.Serialized library catalog
      (TakyonicEngine.fresh config catalog).tableSchema ∧
        ∃ order, world.Schedule (TakyonicEngine.fresh config catalog).tableSchema order)
    ⟨fresh_serialized library config catalog, [], List.Perm.refl _, List.Pairwise.nil,
      fun item member => absurd member not_mem_nil, fun _ => rfl⟩
    (fun state op ⟨serialized, order, schedule⟩ ⟨transactional, calm⟩ =>
      have after := serialized.step (transactional.routed library catalog) calm
      ⟨after, schedule.step serialized transactional after⟩)
  obtain ⟨serialized, order, schedule⟩ := kept
  refine ⟨order.map Prod.snd, schedule.perm, ?_⟩
  have all := schedule.states (run (step library) (fresh config catalog) ops).engine.store.node.lastApplied
  rw [filter_eq_self.mpr (fun item member => by simpa using schedule.past item member)] at all
  rw [serialized.schemas, all]
  rfl

def twoTables : List TableSchema :=
  [{ name := "a", primaryKey := "id", indexes := [], storageEngine := .lsm },
    { name := "b", primaryKey := "id", indexes := [], storageEngine := .lsm }]

theorem run_serializable_beside :
    (run (step plain) (fresh ⟨4096, 4096⟩ twoTables) [.begin .serializable, .begin .serializable,
      .perform 1 (.scanTableRecords "a"), .perform 1 (.putRecord "b" ⟨[("id", "1")]⟩),
      .perform 2 (.putRecord "b" ⟨[("id", "2")]⟩), .commit ⟨true, none, .ok ()⟩ 2,
      .commit ⟨true, none, .ok ()⟩ 1]).Serializable :=
  run_serializable plain ⟨4096, 4096⟩ twoTables _ (by decide +kernel)

def skew : List Op :=
  let fine : Conditions := ⟨true, none, .ok ()⟩
  [.begin .serializable, .begin .serializable, .perform 1 (.scanTableRecords "a"),
    .perform 2 (.scanTableRecords "b"), .perform 1 (.putRecord "b" ⟨[("id", "1")]⟩),
    .perform 2 (.putRecord "a" ⟨[("id", "1")]⟩), .commit fine 1, .commit fine 2]

theorem skew_not_serializable : (∀ op ∈ skew, op.Transactional) ∧
    (run (step plain) (fresh ⟨4096, 4096⟩ twoTables) skew).committed.length = 2 ∧
    ¬ (run (step plain) (fresh ⟨4096, 4096⟩ twoTables) skew).Serializable := by
  refine ⟨by decide, by decide +kernel, ?_⟩
  rintro ⟨order, perm, found⟩
  have none : ∀ order ∈ ((run (step plain) (fresh ⟨4096, 4096⟩ twoTables) skew).committed.map
      script).permutations', (run (run (step plain) (fresh ⟨4096, 4096⟩ twoTables)
        skew).engine.tableSchema ∅ order).isSome = false := by
    decide +kernel
  rw [none order (mem_permutations'.mpr perm)] at found
  cases found

end World

end Takyonic
