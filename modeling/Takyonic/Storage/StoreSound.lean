import Takyonic.Storage.Store

namespace Takyonic

open Foundation List Entry

namespace LocalRaftNode

open Stamp

theorem applyEntries_memtable (node other : LocalRaftNode) (entries : List Entry)
    (same : node.memtable = other.memtable) :
    (entries.foldl LocalRaftNode.applyEntry node).memtable = (other.applyHook entries).memtable := by
  induction entries generalizing node other with
  | nil => exact same
  | cons entry entries ih =>
    apply ih (node.applyEntry entry) ((other.applyEntry entry).advance entry.seq)
    exact congrArg (fun memtable : Memtable => memtable.apply entry) same

theorem mem_applyHook {node : LocalRaftNode} {entries : List Entry} {key : Key}
    (determined : stamp.Determined (stamp.ofKey key (entries ++ node.memtable.entries))) {entry : Entry}
    (ofKey : entry.key = key) :
    entry ∈ (node.applyHook entries).memtable.entries ↔ entry ∈ entries ∨ entry ∈ node.memtable.entries := by
  induction entries generalizing node with
  | nil => simp [applyHook]
  | cons first rest ih =>
    have here : ∀ other : Entry, other.key = key →
        (other ∈ (node.memtable.apply first).entries ↔ other = first ∨ other ∈ node.memtable.entries) := by
      intro other sameKey
      by_cases shared : first.key = key
      · apply mem_insertVersion node.memtable.ordered
        intro taken member same
        obtain ⟨takenKey, takenSeq⟩ := internalKey_inj.mp same
        apply determined taken _ first _ takenKey takenSeq
        · exact mem_ofKey.mpr ⟨mem_append_right _ member, takenKey.trans shared⟩
        · exact mem_ofKey.mpr ⟨mem_append_left _ mem_cons_self, shared⟩
      · constructor
        · exact mem_of_mem_insertVersion
        · rintro (rfl | before)
          · exact absurd sameKey shared
          · exact mem_insertVersion_of_mem node.memtable.ordered before nofun
    have next : stamp.Determined (stamp.ofKey key
        (rest ++ ((node.applyEntry first).advance first.seq).memtable.entries)) := by
      apply determined.subset
      intro other member
      obtain ⟨inside, sameKey⟩ := mem_ofKey.mp member
      apply mem_ofKey.mpr
      refine ⟨?_, sameKey⟩
      rcases mem_append.mp inside with later | inside
      · exact mem_append_left _ (mem_cons_of_mem _ later)
      · rcases (here other sameKey).mp inside with rfl | before
        · exact mem_append_left _ mem_cons_self
        · exact mem_append_right _ before
    have rest' := ih next
    rw [mem_cons]
    constructor
    · intro member
      rcases rest'.mp member with later | inside
      · exact .inl (.inr later)
      · rcases (here entry ofKey).mp inside with rfl | before
        · exact .inl (.inl rfl)
        · exact .inr before
    · rintro ((rfl | later) | before)
      · exact rest'.mpr (.inr ((here entry ofKey).mpr (.inl rfl)))
      · exact rest'.mpr (.inl later)
      · exact rest'.mpr (.inr ((here entry ofKey).mpr (.inr before)))

end LocalRaftNode

namespace Store

open Stamp

/-- For one key the store answers as `history` for reads from `mark - 1` on, and goes on to do so when the
    compactions that have written their outputs end. -/
structure Shows (store : Store) (key : Key) (history : List Entry) (mark : Nat) : Prop where
  built : ∀ job ∈ store.jobs, ∀ outputs, job.outputs = some outputs → stamp.Thins mark
    (stamp.ofKey key (job.plan.inputs.flatMap store.manager.versionsOf))
    (stamp.ofKey key (outputs.flatMap store.manager.versionsOf))
  visible : stamp.Thins mark history (stamp.ofKey key store.versions)
  determined : stamp.Determined history

variable {store after : Store} {key : Key} {history : List Entry} {mark : Nat}

section

variable (shown : store.Shows key history mark)
include shown

theorem Shows.carry {mark' : Nat} (le : mark ≤ mark')
    (jobs : ∀ job ∈ after.jobs, job ∈ store.jobs ∨ job.outputs = none)
    (files : ∀ job ∈ after.jobs, ∀ info ∈ job.plan.inputs ++ job.written,
      after.manager.versionsOf info = store.manager.versionsOf info)
    (visible : stamp.Thins mark' (stamp.ofKey key store.versions) (stamp.ofKey key after.versions)) :
    after.Shows key history mark' := by
  refine ⟨fun job member outputs built => ?_, (shown.visible.mono le).trans visible, shown.determined⟩
  rcases jobs job member with old | new
  · have sameInputs : job.plan.inputs.flatMap after.manager.versionsOf =
        job.plan.inputs.flatMap store.manager.versionsOf :=
      flatMap_congr (fun info inside => files job member info (mem_append_left _ inside))
    have sameOutputs : outputs.flatMap after.manager.versionsOf = outputs.flatMap store.manager.versionsOf := by
      apply flatMap_congr
      intro info inside
      apply files job member info (mem_append_right _ _)
      rwa [CompactionJob.written, built]
    rw [sameInputs, sameOutputs]
    exact (shown.built job old outputs built).mono le
  · rw [new] at built
    cases built

theorem Shows.flushes (intact : store.Intact) (flushes : store.Flushes after) : after.Shows key history mark := by
  apply shown.carry (Nat.le_refl mark)
  · exact fun job member => .inl (flushes.jobs ▸ member)
  · intro job member info inside
    exact flushes.files info (intact.job_known (flushes.jobs ▸ member) inside)
  · apply (Thins.refl mark _).congr (fun _ => Iff.rfl)
    intro version
    simp only [mem_ofKey, flushes.members]

theorem Shows.reorder {jobs : List CompactionJob} (perm : jobs.Perm store.jobs) :
    Shows { store with jobs } key history mark :=
  ⟨fun job member => shown.built job (perm.subset member), shown.visible, shown.determined⟩

end

theorem submit_frame (store : Store) (level : Nat) (queueFull : Bool) :
    store.Keeps (store.submit level queueFull) ∧ (store.submit level queueFull).versions = store.versions ∧
      (store.submit level queueFull).manager.versionsOf = store.manager.versionsOf ∧
      ∀ job ∈ (store.submit level queueFull).jobs, job ∈ store.jobs ∨ job.outputs = none := by
  unfold Store.submit
  split
  · rename_i plan manager picked
    obtain ⟨-, rfl⟩ := SstManager.pick_some picked
    split
    · exact ⟨⟨rfl, rfl, rfl, rfl, rfl⟩, rfl, rfl, fun _ => .inl⟩
    · refine ⟨⟨rfl, rfl, rfl, rfl, rfl⟩, rfl, rfl, fun job member => ?_⟩
      rcases mem_append.mp member with old | new
      · exact .inl old
      · exact .inr (mem_singleton.mp new ▸ rfl)
  · exact ⟨Keeps.refl store, rfl, rfl, fun _ => .inl⟩

section Jobs

variable {plan : CompactionPlan} {rest : List CompactionJob} {manager : SstManager}

section

variable (shown : store.Shows key history mark) (intact : store.Intact)
include shown intact

theorem Shows.buildHead {files : List SstFile} (head : store.jobs = ⟨plan, none⟩ :: rest)
    (grown : store.manager.Grown manager files)
    (thins : stamp.Determined (stamp.ofKey key store.manager.contents) →
      stamp.Thins store.manager.mvccWatermark (stamp.ofKey key (plan.inputs.flatMap store.manager.versionsOf))
        (stamp.ofKey key (files.flatMap (·.sst.entries)))) (backed : manager.Backed) :
    Shows { store with manager, jobs := ⟨plan, some (files.map SstFile.info)⟩ :: rest } key history
      (max mark store.manager.mvccWatermark) := by
  have determined : stamp.Determined (stamp.ofKey key store.manager.contents) := by
    apply shown.determined.subset
    intro entry member
    obtain ⟨inside, ofKey⟩ := mem_ofKey.mp member
    exact shown.visible.subset (mem_ofKey.mpr ⟨mem_append_right _ inside, ofKey⟩)
  have same : ∀ job ∈ store.jobs, ∀ info ∈ job.plan.inputs ++ job.written,
      manager.versionsOf info = store.manager.versionsOf info :=
    fun job member info inside => grown.versionsOf intact.catalogued backed (intact.job_known member inside)
  have rest_shown : Shows { store with manager, jobs := rest } key history (max mark store.manager.mvccWatermark) := by
    apply shown.carry (le_max_left _ _)
    · exact fun job member => .inl (head ▸ mem_cons_of_mem _ member)
    · exact fun job member => same job (head ▸ mem_cons_of_mem _ member)
    · have contents : manager.contents = store.manager.contents := grown.contents intact.catalogued backed
      unfold versions
      rw [contents]
      exact Thins.refl _ _
  refine ⟨fun job member outputs built => ?_, rest_shown.visible, shown.determined⟩
  rcases mem_cons.mp member with rfl | later
  · obtain rfl := Option.some.inj built
    have sameInputs : plan.inputs.flatMap manager.versionsOf = plan.inputs.flatMap store.manager.versionsOf :=
      flatMap_congr (fun info input => same ⟨plan, none⟩ (head ▸ mem_cons_self) info (mem_append_left _ input))
    have active : files ⊆ manager.active := fun file inside => grown.active.symm.subset (mem_append_left _ inside)
    rw [sameInputs, SstManager.flatMap_versionsOf_info backed.distinct active]
    exact (thins determined).mono (le_max_right _ _)
  · exact rest_shown.built job later outputs built

theorem Shows.finishHead {outputs : List SstMeta} (head : store.jobs = ⟨plan, some outputs⟩ :: rest)
    (finishes : store.Finishes plan outputs manager) (done : Intact { store with manager, jobs := rest }) :
    Shows { store with manager, jobs := rest } key history mark := by
  have catalogued : store.manager.Catalogued (outputs ++ rest.flatMap (·.written)) (rest.flatMap (·.owed)) := by
    have catalogued := intact.catalogued
    rw [head] at catalogued
    exact catalogued
  have member : ⟨plan, some outputs⟩ ∈ store.jobs := head ▸ mem_cons_self
  apply shown.carry (Nat.le_refl mark)
  · exact fun job later => .inl (head ▸ mem_cons_of_mem _ later)
  · intro job later info inside
    apply catalogued.finished_versions done.catalogued finishes.active
    exact done.job_known later inside
  · have thins := catalogued.finished_thins done.catalogued finishes.active (intact.planned _ member).inputs
      finishes.outcome (shown.built _ member outputs rfl)
    unfold versions
    rw [ofKey_append, ofKey_append]
    exact (Thins.refl mark _).union thins

theorem Shows.background (move : Background) :
    (store.background move).Shows key history (store.markAfter mark move) := by
  cases move with
  | submit level queueFull =>
    obtain ⟨-, versions, files, jobs⟩ := store.submit_frame level queueFull
    apply shown.carry (Nat.le_refl mark) jobs (fun _ _ info _ => congrFun files info)
    rw [versions]
    exact Thins.refl mark _
  | build index =>
    unfold Store.background Store.buildJob Store.markAfter
    dsimp only
    split
    · rename_i plan found
      obtain ⟨perm, set⟩ := jobs_perm found
      have ordered := intact.reorder perm
      obtain ⟨manager, files, built, -, grown, thins, done⟩ := ordered.buildHead rfl
      have built : store.manager.buildOutputs plan = (manager, .ok (files.map SstFile.info)) := built
      rw [built]
      have built := (shown.reorder perm).buildHead ordered rfl grown (thins key) done.catalogued.toBacked
      exact built.reorder (set _)
    · exact shown
  | finish index =>
    unfold Store.background Store.finishJob
    dsimp only
    split
    · rename_i plan outputs found
      obtain ⟨perm, -⟩ := jobs_perm found
      have ordered := intact.reorder perm
      obtain ⟨finishes, done⟩ := ordered.finishHead rfl
      exact (shown.reorder perm).finishHead ordered rfl finishes done
    · exact shown

end

theorem Intact.background_keeps (intact : store.Intact) (move : Background) : store.Keeps (store.background move) := by
  cases move with
  | submit level queueFull => exact (store.submit_frame level queueFull).1
  | build index =>
    unfold Store.background Store.buildJob
    dsimp only
    split
    · rename_i plan found
      obtain ⟨manager, files, built, -, grown, -⟩ := (intact.reorder (jobs_perm found).1).buildHead rfl
      have built : store.manager.buildOutputs plan = (manager, .ok (files.map SstFile.info)) := built
      rw [built]
      exact ⟨rfl, rfl, grown.watermark, rfl, rfl⟩
    · exact Keeps.refl store
  | finish index =>
    unfold Store.background Store.finishJob
    dsimp only
    split
    · rename_i plan outputs found
      obtain ⟨finishes, -⟩ := (intact.reorder (jobs_perm found).1).finishHead rfl
      exact ⟨rfl, rfl, finishes.watermark, rfl, rfl⟩
    · exact Keeps.refl store

end Jobs

end Store

open LocalRaftNode Stamp.Thins

namespace RaftCommand

def Plain : RaftCommand → Prop
  | put _ _ | delete _ => True
  | txnBatch ops => (ops.map Prod.fst).Nodup ∧ ops ≠ []
  | _ => False

def entriesAt (index : Nat) (command : RaftCommand) : List Entry := (command.toEntries index).toOption.getD []

theorem opEntry_spec (index : Nat) (op : Key × Option Value) :
    (opEntry index op).seq = index ∧ (opEntry index op).key = op.1 ∧ (opEntry index op).WellFormed := by
  obtain ⟨key, value⟩ := op
  cases value with
  | none => exact ⟨rfl, rfl, by simp [opEntry, Entry.delete, Entry.WellFormed]⟩
  | some value => exact ⟨rfl, rfl, by simp [opEntry, Entry.put, Entry.WellFormed]⟩

variable {command : RaftCommand}

variable (plain : command.Plain)
include plain

theorem Plain.notMeta : command.isMeta = false := by
  cases command with
  | put _ _ | delete _ | txnBatch _ => rfl
  | _ => exact absurd plain id

theorem Plain.toEntries (index : Nat) : command.toEntries index = .ok (command.entriesAt index) := by
  cases command with
  | put _ _ | delete _ | txnBatch _ => rfl
  | _ => exact absurd plain id

theorem Plain.entries {index : Nat} {entry : Entry} (member : entry ∈ command.entriesAt index) :
    entry.seq = index ∧ entry.WellFormed := by
  cases command with
  | put key value =>
    rw [mem_singleton.mp member]
    exact ⟨rfl, (opEntry_spec index (key, some value)).2.2⟩
  | delete key =>
    rw [mem_singleton.mp member]
    exact ⟨rfl, (opEntry_spec index (key, none)).2.2⟩
  | txnBatch ops =>
    obtain ⟨op, -, rfl⟩ := mem_map.mp member
    exact ⟨(opEntry_spec index op).1, (opEntry_spec index op).2.2⟩
  | _ => exact absurd plain id

theorem Plain.distinct (index : Nat) : ((command.entriesAt index).map key).Nodup := by
  cases command with
  | put _ _ | delete _ => exact nodup_singleton _
  | txnBatch ops =>
    have keys : (ops.map (opEntry index)).map key = ops.map Prod.fst := by
      rw [map_map]
      apply map_congr_left
      exact fun op _ => (opEntry_spec index op).2.1
    exact keys ▸ plain.1
  | _ => exact absurd plain id

theorem Plain.nonempty (index : Nat) : command.entriesAt index ≠ [] := by
  cases command with
  | put _ _ | delete _ => exact cons_ne_nil _ _
  | txnBatch ops => exact fun empty => plain.2 (map_eq_nil_iff.mp empty)
  | _ => exact absurd plain id

end RaftCommand

theorem determined_of_keys {entries : List Entry} (distinct : (entries.map key).Nodup) :
    stamp.Determined entries :=
  fun _ inFirst _ inSecond sameKey _ => inj_on_of_nodup_map distinct inFirst inSecond sameKey

theorem determined_append {older newer : List Entry} (old : stamp.Determined older)
    (new : stamp.Determined newer) (later : ∀ entry ∈ older, ∀ other ∈ newer, entry.seq ≠ other.seq) :
    stamp.Determined (older ++ newer) := by
  intro first inFirst second inSecond sameKey sameSeq
  rcases mem_append.mp inFirst with inFirst | inFirst
  · rcases mem_append.mp inSecond with inSecond | inSecond
    · exact old first inFirst second inSecond sameKey sameSeq
    · exact absurd sameSeq (later first inFirst second inSecond)
  · rcases mem_append.mp inSecond with inSecond | inSecond
    · exact absurd sameSeq.symm (later second inSecond first inFirst)
    · exact new first inFirst second inSecond sameKey sameSeq

namespace LocalRaftNode

theorem applyHook_nextIndex (node : LocalRaftNode) (entries : List Entry) :
    (node.applyHook entries).nextIndex = node.nextIndex := by
  induction entries generalizing node with
  | nil => rfl
  | cons entry entries ih => exact ih _

theorem applyHook_lastApplied (node : LocalRaftNode) {entries : List Entry} {index : Nat}
    (nonempty : entries ≠ []) (same : ∀ entry ∈ entries, entry.seq = index) :
    (node.applyHook entries).lastApplied = max node.lastApplied index := by
  induction entries generalizing node with
  | nil => exact absurd rfl nonempty
  | cons first rest ih =>
    have here : ((node.applyEntry first).advance first.seq).lastApplied = max node.lastApplied index := by
      rw [same first mem_cons_self]
      rfl
    by_cases last : rest = []
    · rw [last]
      exact here
    · rw [applyHook, foldl_cons]
      rw [← applyHook, ih _ last (fun entry member => same entry (mem_cons_of_mem _ member)), here]
      omega

theorem propose_plain (node : LocalRaftNode) {command : RaftCommand} (plain : command.Plain) :
    node.propose command = (applyHook { node with nextIndex := node.nextIndex + 1 }
      (command.entriesAt node.nextIndex), .ok (node.nextIndex, command.entriesAt node.nextIndex)) := by
  unfold propose
  simp only [plain.notMeta, Bool.false_eq_true, if_false, plain.toEntries]

end LocalRaftNode

namespace CompactionJob

structure Prepared (job : CompactionJob) (manager : SstManager) (mark : Nat) : Prop where
  inputs : job.plan.inputs ⊆ manager.allFiles
  nonempty : job.plan.inputs ≠ []
  inside : job.plan.outputLevel < manager.levelCount
  reserved : ∀ id ∈ job.plan.reserved, id ∈ manager.reserved
  thins : ∀ outputs, job.outputs = some outputs → stamp.Thins mark
    (job.plan.inputs.flatMap manager.versionsOf) (outputs.flatMap manager.versionsOf)

theorem Prepared.planned {job : CompactionJob} {manager : SstManager} {mark : Nat}
    (prepared : job.Prepared manager mark) : job.Planned manager :=
  { prepared with }

end CompactionJob

namespace Store

/-- The store answers as `history` for reads from `mark - 1` on, and its parts agree. -/
structure Sound (store : Store) (history : List Entry) (mark : Nat) : Prop where
  catalogued : store.manager.Catalogued (store.jobs.flatMap (·.written)) (store.jobs.flatMap (·.owed))
  prepared : ∀ job ∈ store.jobs, job.Prepared store.manager mark
  separate : store.jobs.Pairwise (fun first second => ∀ id ∈ first.plan.reserved, id ∉ second.plan.reserved)
  levels : 0 < store.manager.levelCount
  visible : stamp.Thins mark history (store.node.memtable.entries ++ store.manager.contents)
  determined : stamp.Determined history
  wellFormed : ∀ entry ∈ history, entry.WellFormed
  numbered : ∀ entry ∈ history, entry.seq < store.node.nextIndex
  segments : ∀ segment ∈ store.wal, segment.1 ≤ store.walSegment

structure Wrote (before after : Store) : Prop where
  nextIndex : after.node.nextIndex = before.node.nextIndex + 1
  lastApplied : after.node.lastApplied = max before.node.lastApplied before.node.nextIndex
  watermark : after.manager.mvccWatermark = before.manager.mvccWatermark
  seqMarker : after.seqMarker = before.seqMarker
  config : after.config = before.config

theorem Wrote.keeps {before middle after : Store} (wrote : before.Wrote middle) (keeps : middle.Keeps after) :
    before.Wrote after :=
  ⟨keeps.nextIndex.trans wrote.nextIndex, keeps.lastApplied.trans wrote.lastApplied,
    keeps.watermark.trans wrote.watermark, keeps.seqMarker.trans wrote.seqMarker, keeps.config.trans wrote.config⟩

variable {store : Store} {history : List Entry} {mark : Nat}

section

variable (sound : store.Sound history mark)
include sound

theorem Sound.intact : store.Intact :=
  ⟨sound.catalogued, fun job member => (sound.prepared job member).planned, sound.separate, sound.levels,
    fun entry member => sound.wellFormed entry (sound.visible.subset (mem_append_left _ member)), sound.segments⟩

theorem Sound.getAt {key : Key} {readTs : Nat} (recent : mark ≤ readTs + 1) :
    stamp.IsNewest history key readTs (store.getAt key readTs) := by
  apply sound.visible.isNewest recent
  exact sound.intact.getAt key readTs

theorem Sound.propose (xxh3 : Bytes → UInt64) {command : RaftCommand} (plain : command.Plain) :
    ∃ after, store.propose xxh3 command = (after, .ok store.node.nextIndex) ∧
      after.Sound (history ++ command.entriesAt store.node.nextIndex) mark ∧ store.Wrote after := by
  have counters := applyHook_lastApplied { store.node with nextIndex := store.node.nextIndex + 1 }
    (plain.nonempty store.node.nextIndex) (fun entry member => (plain.entries member).1)
  unfold Store.propose
  rw [store.node.propose_plain plain]
  generalize new : command.entriesAt store.node.nextIndex = entries
  have fields : ∀ entry ∈ entries, entry.seq = store.node.nextIndex ∧ entry.WellFormed :=
    fun entry member => plain.entries (new ▸ member)
  have later : ∀ entry ∈ history, ∀ other ∈ entries, entry.seq ≠ other.seq := by
    intro entry old other member same
    have below := sound.numbered entry old
    rw [same, (fields other member).1] at below
    exact lt_irrefl _ below
  have determined : stamp.Determined (history ++ entries) := by
    apply determined_append sound.determined (determined_of_keys _) later
    rw [← new]
    exact plain.distinct _
  have known : store.node.memtable.entries ⊆ history :=
    fun entry member => sound.visible.subset (mem_append_left _ member)
  have all : entries ++ store.node.memtable.entries ⊆ history ++ entries :=
    append_subset.mpr ⟨subset_append_right _ _, List.Subset.trans known (subset_append_left _ _)⟩
  have applied : ∀ entry, entry ∈ (applyHook { store.node with nextIndex := store.node.nextIndex + 1 }
      entries).memtable.entries ↔ entry ∈ entries ∨ entry ∈ store.node.memtable.entries := by
    intro entry
    apply mem_applyHook _ rfl
    exact (determined.subset all).ofKey entry.key
  rw [new] at counters
  refine ⟨_, rfl, ⟨sound.catalogued, sound.prepared, sound.separate, sound.levels, ?_, determined, ?_, ?_, ?_⟩,
    ⟨applyHook_nextIndex _ _, counters, rfl, rfl, rfl⟩⟩
  · apply (sound.visible.union (refl mark entries)).congr (fun _ => Iff.rfl)
    intro version
    simp only [mem_append, applied]
    exact ⟨fun member => member.elim (fun old => old.imp_left .inr) (fun new => .inl (.inl new)),
      fun member => member.elim (fun inside => inside.elim .inr (fun old => .inl (.inl old)))
        (fun stored => .inl (.inr stored))⟩
  · refine forall_mem_append.mpr ⟨sound.wellFormed, fun entry new => ?_⟩
    exact (fields entry new).2
  · intro entry member
    rw [applyHook_nextIndex]
    rcases mem_append.mp member with old | new
    · exact Nat.lt_succ_of_lt (sound.numbered entry old)
    · rw [(fields entry new).1]
      exact Nat.lt_succ_self _
  · intro segment member
    obtain ⟨before, old, rfl⟩ := mem_map.mp member
    exact sound.segments before old

theorem Sound.shows_key (key : Key) : store.Shows key (stamp.ofKey key history) mark :=
  ⟨fun job member outputs built => ((sound.prepared job member).thins outputs built).ofKey key,
    sound.visible.ofKey key, sound.determined.ofKey key⟩

end

theorem Intact.sound (intact : store.Intact) (shown : ∀ key, store.Shows key (stamp.ofKey key history) mark)
    (determined : stamp.Determined history) (wellFormed : ∀ entry ∈ history, entry.WellFormed)
    (numbered : ∀ entry ∈ history, entry.seq < store.node.nextIndex) : store.Sound history mark := by
  refine ⟨intact.catalogued, fun job member => ?_, intact.separate, intact.levels,
    of_keys (fun key => (shown key).visible), determined, wellFormed, numbered, intact.segments⟩
  have planned := intact.planned job member
  refine ⟨planned.inputs, planned.nonempty, planned.inside, planned.reserved, fun outputs built => ?_⟩
  exact of_keys (fun key => (shown key).built job member outputs built)

variable (sound : store.Sound history mark)
include sound

theorem Sound.flushes {after : Store} (intact : after.Intact) (flushes : store.Flushes after) :
    after.Sound history mark :=
  intact.sound (fun key => (sound.shows_key key).flushes sound.intact flushes) sound.determined sound.wellFormed
    (flushes.nextIndex ▸ sound.numbered)

theorem Sound.flushNode :
    ∃ after, store.flushNode = (after, .ok ()) ∧ after.Sound history mark ∧ store.Keeps after := by
  obtain ⟨after, flushed, intact, flushes⟩ := sound.intact.flushNode
  exact ⟨after, flushed, sound.flushes intact flushes, flushes.toKeeps⟩

theorem Sound.maybeFlush :
    ∃ after, store.maybeFlush = (after, .ok ()) ∧ after.Sound history mark ∧ store.Keeps after := by
  obtain ⟨after, flushed, intact, flushes⟩ := sound.intact.maybeFlush
  exact ⟨after, flushed, sound.flushes intact flushes, flushes.toKeeps⟩

theorem Sound.background (move : Background) :
    (store.background move).Sound history (store.markAfter mark move) ∧ store.Keeps (store.background move) := by
  have keeps := sound.intact.background_keeps move
  refine ⟨(sound.intact.background move).sound (fun key => ?_) sound.determined sound.wellFormed ?_, keeps⟩
  · exact (sound.shows_key key).background sound.intact move
  · rw [keeps.nextIndex]
    exact sound.numbered

end Store

end Takyonic
