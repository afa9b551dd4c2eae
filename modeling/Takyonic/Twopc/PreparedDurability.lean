import Takyonic.Twopc.EngineShard

namespace Takyonic

open Foundation Twopc ShardEvent List TwopcTables TakyonicEngine World Std.TreeMap

namespace TwopcTables

structure Part (whole part : TwopcTables) : Prop where
  exclusive : part.Exclusive
  tight : part.Tight
  prepared : ∀ (id : Nat) (writes : List WriteOp), part.prepared[id]? = some writes → whole.prepared[id]? = some writes

variable {whole part : TwopcTables}

theorem Part.prepare (inside : Part whole part) (exclusive : whole.Exclusive)
    (first : whole.prepared[txnId]? = none) (free : lockedBy txnId writes whole.locks = none) (readTs : Nat) :
    (part.apply (.txnPrepare txnId readTs writes)).Exclusive ∧
      (part.apply (.txnPrepare txnId readTs writes)).Tight := by
  have absent : part.prepared[txnId]? = none := by
    cases held : part.prepared[txnId]? with
    | none => rfl
    | some others =>
      rw [inside.prepared txnId others held] at first
      cases first
  refine ⟨inside.exclusive.prepare ?_ readTs, inside.tight.prepare absent readTs writes⟩
  apply List.findSome?_eq_none_iff.mpr
  intro op member
  cases lock : part.locks op.1 with
  | none => rfl
  | some owner =>
    obtain ⟨others, held, written⟩ := inside.tight op.1 owner lock
    obtain ⟨other, inOthers, same⟩ := mem_map.mp written
    have locked := exclusive owner others (inside.prepared owner others held) other inOthers
    rw [same] at locked
    rw [lockedBy_none free member locked, Option.filter_some]
    simp

theorem Part.commit (inside : Part whole part) (exclusive : whole.Exclusive)
    (held : whole.prepared[txnId]? = some writes) (commitTs : Nat) :
    (part.apply (.txnCommit txnId commitTs writes)).Exclusive ∧
      (part.apply (.txnCommit txnId commitTs writes)).Tight := by
  constructor
  · intro id others heldOther op member
    rw [apply_txnCommit] at heldOther
    by_cases here : id = txnId
    · rw [if_pos here] at heldOther
      cases heldOther
    rw [if_neg here] at heldOther
    change unlockWrites writes part.locks op.1 = some id
    rw [unlockWrites, if_neg, inside.exclusive id others heldOther op member]
    intro written
    obtain ⟨mine, inWrites, same⟩ := mem_map.mp written
    exact here (exclusive.same (inside.prepared id others heldOther) held member inWrites same.symm)
  · apply inside.tight.commit
    intro others heldOther
    exact Option.some.inj ((inside.prepared txnId others heldOther).symm.trans held)

def replay (log : List (Nat × RaftCommand)) : TwopcTables := (log.map Prod.snd).foldl apply empty

theorem replay_concat (log : List (Nat × RaftCommand)) (index : Nat) (command : RaftCommand) :
    replay (log ++ [(index, command)]) = (replay log).apply command := by
  unfold replay
  rw [map_append, foldl_append]
  rfl

end TwopcTables

def logEvents (log : List (Nat × RaftCommand)) : List ShardEvent := log.map fun entry => .command entry.2

theorem logEvents_append (first second : List (Nat × RaftCommand)) :
    logEvents (first ++ second) = logEvents first ++ logEvents second := map_append

theorem replay_prepared (log : List (Nat × RaftCommand)) (id : Nat) (writes : List WriteOp) :
    (replay log).prepared[id]? = some writes ↔ Standing (logEvents log) id writes := by
  induction log using List.reverseRecOn with
  | nil =>
    constructor
    · intro held
      cases (getElem?_emptyc (a := id)).symm.trans held
    · rintro ⟨before, readTs, after, whole, _⟩
      cases before <;> cases whole
  | append_singleton log entry ih =>
    obtain ⟨index, command⟩ := entry
    rw [replay_concat, apply_prepared, ih, logEvents_append]
    rw [show logEvents [(index, command)] = [.command command] from rfl, standing_concat]
    simp only [ShardEvent.command.injEq]

variable {writes : List WriteOp} {trace : List ShardEvent}

theorem Standing.suffix {whole : List ShardEvent} {id : Nat} (standing : Standing trace id writes)
    (suffix : trace <:+ whole) : Standing whole id writes := by
  obtain ⟨before, readTs, after, rfl, quiet⟩ := standing
  obtain ⟨earlier, rfl⟩ := suffix
  exact ⟨earlier ++ before, readTs, after, by rw [append_assoc], quiet⟩

variable {log : List (Nat × RaftCommand)}

theorem filter_suffix (sorted : log.Pairwise fun first second => first.1 < second.1) (through : Nat) :
    log.filter (fun entry => decide (through < entry.1)) <:+ log := by
  induction log with
  | nil => exact suffix_refl _
  | cons first rest ih =>
    obtain ⟨least, ordered⟩ := pairwise_cons.mp sorted
    by_cases kept : through < first.1
    · have all : (first :: rest).filter (fun entry => decide (through < entry.1)) = first :: rest := by
        apply filter_eq_self.mpr
        intro entry member
        rcases mem_cons.mp member with rfl | member
        · exact decide_eq_true kept
        · exact decide_eq_true (lt_trans kept (least entry member))
      exact all.symm ▸ suffix_refl _
    · rw [filter_cons_of_neg (by simpa using kept)]
      exact (ih ordered).trans (suffix_cons first rest)

namespace EngineShard

variable (library : Library)

def Reopens (shard : EngineShard) : Prop :=
  (openInner library shard.engine.store.config shard.engine.disk).isOk = true

instance (shard : EngineShard) : Decidable (shard.Reopens library) := inferInstanceAs (Decidable (_ = true))

def Dispensable (shard : EngineShard) : RaftCommand → Prop
  | .txnPrepare id _ _ => shard.tables.prepared[id]? = none
  | _ => True

instance (shard : EngineShard) (command : RaftCommand) : Decidable (shard.Dispensable command) := by
  rcases command with ⟨⟩ <;> unfold Dispensable <;> infer_instance

/-- The protocol runs with a Raft node attached, prepares no transaction twice, and the log is compacted only below
    the prepares of the transactions that are prepared. -/
def Retaining (shard : EngineShard) : Call → Prop
  | .prepare txnId _ _ _ => shard.engine.distributedRaft ≠ none ∧ shard.tables.prepared[txnId]? = none
  | .commit _ _ | .abort _ => shard.engine.distributedRaft ≠ none
  | .compact through => ∀ entry ∈ shard.raftLog, entry.1 ≤ through → shard.Dispensable entry.2
  | .engine .reopen => False
  | .restart _ => shard.Reopens library
  | _ => True

instance (shard : EngineShard) (call : Call) : Decidable (shard.Retaining library call) := by
  rcases call with ⟨⟨⟩⟩ <;> unfold Retaining <;> infer_instance

/-- Trace, tables and log agree on what is prepared, and so does each end of the log on its part. -/
structure Recoverable (shard : EngineShard) : Prop where
  exclusive : shard.tables.Exclusive
  prepared : ∀ id writes, shard.tables.prepared[id]? = some writes ↔ Standing shard.trace id writes
  logged : ∀ id writes, shard.tables.prepared[id]? = some writes ↔ Standing (logEvents shard.raftLog) id writes
  sorted : shard.raftLog.Pairwise fun first second => first.1 < second.1
  replays : ∀ log, log <:+ shard.raftLog → (replay log).Exclusive ∧ (replay log).Tight

theorem atop_recoverable (world : World) (id : Nat) : (atop world id).Recoverable := by
  have prepared := (atop_guarding world id).prepared
  refine ⟨empty_exclusive, prepared, prepared, List.Pairwise.nil, ?_⟩
  intro log suffix
  rw [suffix_nil.mp suffix]
  exact ⟨empty_exclusive, empty_tight⟩

variable {library} {shard after : EngineShard}

section

variable (recoverable : shard.Recoverable)
include recoverable

theorem Recoverable.same (same : Same shard after) : after.Recoverable := by
  obtain ⟨tables, trace, raftLog⟩ := same
  obtain ⟨exclusive, prepared, logged, sorted, replays⟩ := recoverable
  rw [← tables] at exclusive prepared logged
  rw [← trace] at prepared
  rw [← raftLog] at logged sorted replays
  exact ⟨exclusive, prepared, logged, sorted, replays⟩

theorem Recoverable.part (suffix : log <:+ shard.raftLog) :
    Part shard.tables (replay log) := by
  obtain ⟨exclusive, tight⟩ := recoverable.replays log suffix
  refine ⟨exclusive, tight, fun id writes held => (recoverable.logged id writes).mpr ?_⟩
  exact Standing.suffix ((replay_prepared log id writes).mp held) (suffix.map _)

theorem Recoverable.carried {command : RaftCommand} (carried : Carried command shard after)
    (attached : shard.engine.distributedRaft ≠ none) (exclusive : (shard.tables.apply command).Exclusive)
    (each : ∀ part, Part shard.tables part → (part.apply command).Exclusive ∧ (part.apply command).Tight) :
    after.Recoverable := by
  obtain ⟨tables, trace, embedded | ⟨index, above, raftLog⟩⟩ := carried
  · exact absurd embedded.1 attached
  constructor
  · rw [tables]
    exact exclusive
  · intro id writes
    rw [tables, trace, standing_concat, apply_prepared, recoverable.prepared]
    simp only [ShardEvent.command.injEq]
  · intro id writes
    rw [tables, raftLog, logEvents_append, show logEvents [(index, command)] = [.command command] from rfl,
      standing_concat, apply_prepared, recoverable.logged]
    simp only [ShardEvent.command.injEq]
  · rw [raftLog]
    refine pairwise_append.mpr ⟨recoverable.sorted, pairwise_singleton _ _, ?_⟩
    intro entry member last inside
    rw [mem_singleton.mp inside]
    exact above entry member
  · intro log suffix
    rw [raftLog] at suffix
    rcases suffix_concat_iff.mp suffix with rfl | ⟨front, rfl, inner⟩
    · exact ⟨empty_exclusive, empty_tight⟩
    · rw [replay_concat]
      exact each _ (recoverable.part inner)

theorem Recoverable.prepare {txnId readTs : Nat} {reads : List (Key × Nat)}
    (retaining : shard.Retaining library (.prepare txnId readTs writes reads)) :
    (shard.twopcPrepare library txnId readTs writes reads).1.Recoverable := by
  obtain ⟨attached, first⟩ := retaining
  rcases shard.twopcPrepare_eq library txnId readTs writes reads with
    ⟨same, _⟩ | ⟨free, ⟨tables, trace, raftLog, _⟩ | carried⟩
  · exact recoverable.same same
  · obtain ⟨exclusive, prepared, logged, sorted, replays⟩ := recoverable
    refine ⟨?_, ?_, ?_, raftLog ▸ sorted, raftLog ▸ replays⟩
    · rw [tables]
      exact released_exclusive exclusive first free
    · rw [tables, trace]
      exact prepared
    · rw [tables, raftLog]
      exact logged
  · exact recoverable.carried carried attached (recoverable.exclusive.prepare free readTs)
      (fun part inside => inside.prepare recoverable.exclusive first free readTs)

theorem Recoverable.commit (attached : shard.engine.distributedRaft ≠ none) (txnId commitTs : Nat) :
    (shard.twopcCommit library txnId commitTs).1.Recoverable := by
  rcases shard.twopcCommit_eq library txnId commitTs with ⟨same, _⟩ | ⟨writes, held, carried⟩
  · exact recoverable.same same
  · exact recoverable.carried carried attached (recoverable.exclusive.commit held commitTs)
      (fun part inside => inside.commit recoverable.exclusive held commitTs)

theorem Recoverable.abort (attached : shard.engine.distributedRaft ≠ none) (txnId : Nat) :
    (shard.twopcAbort library txnId).1.Recoverable := by
  rcases shard.twopcAbort_eq library txnId with ⟨same, _⟩ | carried
  · exact recoverable.same same
  · exact recoverable.carried carried attached (recoverable.exclusive.abort txnId)
      (fun part inside => ⟨inside.exclusive.abort txnId, inside.tight.abort txnId⟩)

end

theorem standing_wrote {deeds : List Deed} {id : Nat} :
    Standing (trace ++ deeds.map fun deed => .wrote deed.writes) id writes ↔ Standing trace id writes := by
  induction deeds using List.reverseRecOn with
  | nil => rw [map_nil, append_nil]
  | append_singleton deeds deed ih =>
    rw [map_append, ← append_assoc, map_singleton, standing_concat, ih]
    simp [about]

theorem Recoverable.serve (recoverable : shard.Recoverable) {op : Op} (running : op ≠ .reopen) :
    (shard.serve library op).Recoverable := by
  obtain ⟨tables, raftLog⟩ := serve_frame library shard running
  obtain ⟨exclusive, prepared, logged, sorted, replays⟩ := recoverable
  refine ⟨tables ▸ exclusive, ?_, ?_, raftLog ▸ sorted, raftLog ▸ replays⟩
  · intro id writes
    rw [tables, serve_trace, standing_wrote]
    exact prepared id writes
  · rw [tables, raftLog]
    exact logged

theorem Recoverable.compact (recoverable : shard.Recoverable) {through : Nat}
    (retaining : shard.Retaining library (.compact through)) :
    Recoverable { shard with raftLog := shard.raftLog.filter fun entry => through < entry.1 } := by
  have suffix := filter_suffix recoverable.sorted through
  obtain ⟨exclusive, prepared, logged, sorted, replays⟩ := recoverable
  refine ⟨exclusive, prepared, fun id writes => ⟨fun held => ?_, fun standing => ?_⟩, sorted.filter _,
    fun log inside => replays log (inside.trans suffix)⟩
  · obtain ⟨before, readTs, after, whole, quiet⟩ := (logged id writes).mp held
    obtain ⟨front, rest, split, _, tail⟩ := map_eq_append_iff.mp whole
    obtain ⟨entry, back, rfl, named, rfl⟩ := map_eq_cons_iff.mp tail
    have kept : through < entry.1 := by
      by_contra dropped
      have member : entry ∈ shard.raftLog := by
        rw [split]
        exact mem_append_right _ mem_cons_self
      have free := retaining entry member (le_of_not_gt dropped)
      rw [ShardEvent.command.inj named] at free
      exact nomatch held.symm.trans free
    have passes : (entry :: back).filter (fun entry => decide (through < entry.1)) =
        entry :: back.filter (fun entry => decide (through < entry.1)) := filter_cons_of_pos (decide_eq_true kept)
    refine ⟨logEvents (front.filter fun entry => through < entry.1), readTs,
      logEvents (back.filter fun entry => through < entry.1), ?_, ?_⟩
    · rw [split, filter_append, passes, logEvents_append, ← named]
      rfl
    · intro event member
      obtain ⟨other, inside, rfl⟩ := mem_map.mp member
      exact quiet _ (mem_map_of_mem (mem_of_mem_filter inside))
  · exact (logged id writes).mpr (Standing.suffix standing (suffix.map _))

theorem Recoverable.recovered (recoverable : shard.Recoverable) (trace : after.trace = shard.trace)
    (raftLog : after.raftLog = shard.raftLog) (tables : after.tables = replay shard.raftLog) :
    after.Recoverable := by
  have prepared : ∀ id writes, after.tables.prepared[id]? = some writes ↔
      Standing (logEvents shard.raftLog) id writes := by
    rw [tables]
    exact replay_prepared shard.raftLog
  refine ⟨tables ▸ (recoverable.replays _ (suffix_refl _)).1, ?_, raftLog ▸ prepared, raftLog ▸ recoverable.sorted,
    raftLog ▸ recoverable.replays⟩
  intro id writes
  rw [prepared, trace, ← recoverable.logged, recoverable.prepared]

theorem openInner_running {config : Config} {disk : Disk} {engine : TakyonicEngine}
    (opened : openInner library config disk = .ok engine) : engine.closed = false := by
  obtain ⟨manager, _, opened⟩ := bind_eq_ok opened
  obtain ⟨recovered, _, opened⟩ := bind_eq_ok opened
  obtain ⟨⟨batches, txnWal⟩, _, opened⟩ := bind_eq_ok opened
  obtain ⟨ariesWal, _, opened⟩ := bind_eq_ok opened
  dsimp only at opened
  generalize mounted : mount _ _ _ = fresh at opened
  obtain ⟨storage, same⟩ := mount_eq _ _ _
  rw [same] at mounted
  unfold maybeFlush at opened
  split at opened
  · rename_i flushed
    cases opened
    rw [← (Prod.mk.inj flushed).1, ← mounted]
  · cases opened

theorem restart_spec (shard : EngineShard) (raft : RaftHandle) (reopens : shard.Reopens library) :
    (shard.step library (.restart raft)).tables = replay shard.raftLog ∧
      (shard.step library (.restart raft)).raftLog = shard.raftLog ∧
      (shard.step library (.restart raft)).trace = shard.trace := by
  cases opened : openInner library shard.engine.store.config shard.engine.disk with
  | error error =>
    unfold Reopens at reopens
    rw [opened] at reopens
    cases reopens
  | ok engine =>
    have running := openInner_running opened
    have world : shard.world.step library .reopen = { shard.world with engine, live := [] } := by
      dsimp only [World.step, World.reopen]
      rw [show openInner library shard.world.engine.store.config shard.world.engine.disk = .ok engine from opened]
    have attached : ((shard.serve library .reopen).serve library (.attach raft)) =
        { shard with
          world := { shard.world with engine := { engine with distributedRaft := some raft }, live := [] }
          tables := .empty, failPrepare := false, crashAfterPrepare := false } := by
      dsimp only [serve]
      rw [world]
      simp [World.step]
    dsimp only [step]
    rw [attached]
    rw [running]
    exact ⟨rfl, rfl, rfl⟩

theorem Recoverable.step (recoverable : shard.Recoverable) {call : Call} (retaining : shard.Retaining library call) :
    (shard.step library call).Recoverable := by
  cases call with
  | engine op =>
    apply recoverable.serve
    rintro rfl
    exact retaining
  | prepare txnId readTs writes reads => exact recoverable.prepare retaining
  | commit txnId commitTs => exact recoverable.commit retaining txnId commitTs
  | abort txnId => exact recoverable.abort retaining txnId
  | compact through =>
    dsimp only [EngineShard.step]
    split
    · exact recoverable.compact retaining
    · exact recoverable
  | recoverFromRaftLog =>
    dsimp only [EngineShard.step, twopcRecoverFromRaftLog]
    split
    · exact recoverable
    · exact recoverable
    · exact recoverable.recovered rfl rfl rfl
  | restart raft =>
    obtain ⟨tables, raftLog, trace⟩ := shard.restart_spec raft retaining
    exact recoverable.recovered trace raftLog tables
  | _ => exact recoverable.same ⟨rfl, rfl, rfl⟩

/-- Along runs that keep the prepares in the log, a transaction whose last command was its prepare is prepared again
    after a crash, with its writes and its locks. -/
theorem run_prepared_durable (library : Library) (world : World) (id : Nat) (calls : List Call)
    (retaining : Along (step library) (Retaining library) (atop world id) calls) :
    let shard := run (step library) (atop world id) calls
    shard.Reopens library → ∀ raft txnId writes, Standing shard.trace txnId writes →
      let recovered := shard.step library (.restart raft)
      txnId ∈ recovered.twopcOrphanedPrepared ∧ recovered.tables.prepared[txnId]? = some writes ∧
        ∀ op ∈ writes, recovered.tables.locks op.1 = some txnId := by
  intro shard reopens raft txnId writes standing recovered
  have before : shard.Recoverable := by
    refine retaining.invariant (P := Recoverable) (atop_recoverable world id) ?_
    exact fun shard call recoverable retaining => recoverable.step retaining
  have retained : shard.Retaining library (.restart raft) := reopens
  have after : recovered.Recoverable := before.step retained
  obtain ⟨_, _, trace⟩ := shard.restart_spec raft reopens
  have held : recovered.tables.prepared[txnId]? = some writes := by
    rw [after.prepared, trace]
    exact standing
  refine ⟨?_, held, after.exclusive txnId writes held⟩
  rw [twopcOrphanedPrepared, Std.TreeMap.mem_keys, mem_iff_isSome_getElem?, held]
  rfl

def compactedBelow : List Call :=
  [.engine (.attach .leader), .prepare 2 0 [(⟨[106]⟩, some ⟨[119]⟩)] [], .commit 2 3,
    .prepare 1 0 [(⟨[107]⟩, some ⟨[118]⟩)] [], .compact 2]

theorem run_prepared_durable_compacted :
    let recovered := (run (step .plain) (atop (fresh ⟨4096, 4096⟩ []) 0) compactedBelow).step .plain (.restart .leader)
    1 ∈ recovered.twopcOrphanedPrepared ∧ recovered.tables.prepared[1]? = some [(⟨[107]⟩, some ⟨[118]⟩)] ∧
      ∀ op ∈ [((⟨[107]⟩ : Key), some (⟨[118]⟩ : Value))], recovered.tables.locks op.1 = some 1 := by
  have standing : Standing (run (step .plain) (atop (fresh ⟨4096, 4096⟩ []) 0) compactedBelow).trace 1
      [(⟨[107]⟩, some ⟨[118]⟩)] :=
    ⟨[.command (.txnPrepare 2 0 [(⟨[106]⟩, some ⟨[119]⟩)]), .command (.txnCommit 2 3 [(⟨[106]⟩, some ⟨[119]⟩)])], 0, [],
      by decide +kernel, nofun⟩
  exact run_prepared_durable .plain (fresh ⟨4096, 4096⟩ []) 0 compactedBelow (by decide +kernel)
    (by decide +kernel) .leader 1 _ standing

/-- Transaction 1 is prepared, and a recovered engine knows nothing of it: without an attached Raft node there is no
    log of the protocol, and with one its prepare is compacted away. -/
theorem prepared_lost :
    let fresh := atop (fresh ⟨4096, 4096⟩ []) 0
    let embedded := run (step .plain) fresh [.prepare 1 0 [(⟨[107]⟩, some ⟨[118]⟩)] []]
    let attached := run (step .plain) fresh
      [.engine (.attach .leader), .prepare 1 0 [(⟨[107]⟩, some ⟨[118]⟩)] [], .compact 1]
    embedded.twopcOrphanedPrepared = [1] ∧ attached.twopcOrphanedPrepared = [1] ∧
      (run (step .plain) embedded [.engine .reopen, .recoverFromRaftLog]).engine.closed = false ∧
      (run (step .plain) embedded [.engine .reopen, .recoverFromRaftLog]).twopcOrphanedPrepared = [] ∧
      (attached.step .plain (.restart .leader)).engine.closed = false ∧
      (attached.step .plain (.restart .leader)).twopcOrphanedPrepared = [] := by
  decide +kernel

end EngineShard

end Takyonic
