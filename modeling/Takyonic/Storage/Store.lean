import Takyonic.Raft.Command
import Takyonic.Storage.Wal
import Takyonic.Storage.CatalogCompaction

namespace Takyonic

open Foundation

structure LocalRaftNode where
  memtable : Memtable
  nextIndex : Nat
  lastApplied : Nat

namespace LocalRaftNode

def create (memtable : Memtable) (nextIndex : Nat) : LocalRaftNode :=
  ⟨memtable, max nextIndex 1, nextIndex - 1⟩

variable (node : LocalRaftNode)

def applyEntry (entry : Entry) : LocalRaftNode :=
  { node with memtable := node.memtable.apply entry }

def advance (index : Nat) : LocalRaftNode :=
  { node with lastApplied := max node.lastApplied index }

def applyHook (entries : List Entry) : LocalRaftNode :=
  entries.foldl (fun node entry => (node.applyEntry entry).advance entry.seq) node

def propose (command : RaftCommand) :
    LocalRaftNode × Except TakyonicError (Nat × List Entry) :=
  let index := node.nextIndex
  let node := { node with nextIndex := index + 1 }
  if command.isMeta then (node.advance index, .ok (index, []))
  else match command.toEntries index with
    | .ok entries => (node.applyHook entries, .ok (index, entries))
    | .error error => (node, .error error)

end LocalRaftNode

structure Config where
  memtableSizeBytes : Nat
  maxSstBytes : Nat
  deriving DecidableEq, Repr

structure CompactionJob where
  plan : CompactionPlan
  outputs : Option (List SstMeta)

abbrev WalDir := List (Nat × Bytes)

namespace WalDir

def append (wal : WalDir) (segment : Nat) (bytes : Bytes) : WalDir :=
  wal.map fun (number, file) => (number, if number = segment then file ++ bytes else file)

/-- `WalWriter::create` opens with `create_new`. -/
def create (wal : WalDir) (segment : Nat) : Except TakyonicError WalDir :=
  if wal.any (·.1 = segment) then .error .io else .ok (wal ++ [(segment, Wal.header)])

def segmentName (segment : Nat) : String :=
  let digits := Nat.toDigits 10 segment
  String.ofList (List.replicate (6 - digits.length) '0' ++ digits) ++ ".wal"

end WalDir

/-- The storage half of the engine: memtable and log of the local node, the SSTs, the background work. -/
structure Store where
  config : Config
  node : LocalRaftNode
  manager : SstManager
  wal : WalDir
  walSegment : Nat
  seqMarker : Option Nat
  jobs : List CompactionJob

/-- What `recover_wal` has read so far. -/
structure RecoveredWal where
  wal : WalDir
  memtable : Memtable
  nextSeq : Nat
  walSegment : Nat

def RecoveredWal.readSegment (xxh3 : Bytes → UInt64) (recovered : RecoveredWal) (segment : Nat × Bytes) :
    Except TakyonicError RecoveredWal := do
  let (number, file) := segment
  let reader ← WalReader.openSegment (WalDir.segmentName number) file
  match reader.replay xxh3 with
  | (_, _, .error error) => .error error
  | (reader, entries, .ok _) =>
    -- a torn tail is cut off in the file
    let file := if reader.tornTail then file.take reader.lastValidOffset else file
    .ok {
      wal := recovered.wal ++ [(number, file)]
      memtable := entries.foldl Memtable.apply recovered.memtable
      nextSeq := entries.foldl (fun next entry => max next (entry.seq + 1)) recovered.nextSeq
      walSegment := max recovered.walSegment number }

def recoverWal (xxh3 : Bytes → UInt64) (wal : WalDir) : Except TakyonicError RecoveredWal := do
  let segments := wal.insertionSort (fun left right => left.1 ≤ right.1)
  let recovered ← segments.foldlM (RecoveredWal.readSegment xxh3) ⟨[], Memtable.empty, 1, 0⟩
  if recovered.walSegment = 0 then do
    let wal ← recovered.wal.create 1
    .ok { recovered with wal, walSegment := 1 }
  else .ok recovered

namespace Store

def propose (xxh3 : Bytes → UInt64) (store : Store) (command : RaftCommand) : Store × Except TakyonicError Nat :=
  match store.node.propose command with
  | (node, .ok (index, entries)) =>
    ({ store with node, wal := store.wal.append store.walSegment (entries.flatMap (Wal.encodeRecord xxh3)) }, .ok index)
  | (node, .error error) => ({ store with node }, .error error)

def rotateWal (store : Store) : Store × Except TakyonicError Unit :=
  let next := store.walSegment + 1
  match store.wal.create next with
  | .error error => ({ store with walSegment := next }, .error error)
  | .ok wal => ({ store with wal, walSegment := next }, .ok ())

def setMemtable (store : Store) (memtable : Memtable) : Store :=
  { store with node := { store.node with memtable } }

def flushNode (store : Store) : Store × Except TakyonicError Unit :=
  let entries := store.node.memtable.entries
  if entries = [] then (store, .ok ())
  else
    let store := store.setMemtable Memtable.empty
    match store.manager.addSlices (splitEntriesByMaxBytes entries store.manager.maxSstBytes) with
    | (manager, .error error) => ({ store with manager }, .error error)
    | (manager, .ok ()) => { store with manager }.rotateWal

def maybeFlush (store : Store) : Store × Except TakyonicError Unit :=
  if store.config.memtableSizeBytes ≤ store.node.memtable.approxSizeBytes then store.flushNode
  else (store, .ok ())

def getAt (store : Store) (key : Key) (readTs : Nat) : Option Entry :=
  store.manager.getAt key readTs (store.node.memtable.getAt key readTs)

/-- `CompactionEngine::submit`: a plan that finds the queue full is given up. -/
def submit (store : Store) (level : Nat) (queueFull : Bool) : Store :=
  match store.manager.pick level with
  | .ok (some (plan, manager)) =>
    if queueFull then { store with manager := manager.abort plan }
    else { store with manager, jobs := store.jobs ++ [⟨plan, none⟩] }
  | _ => store

def buildJob (store : Store) (index : Nat) : Store :=
  match store.jobs[index]? with
  | some ⟨plan, none⟩ =>
    match store.manager.buildOutputs plan with
    | (manager, .ok outputs) => { store with manager, jobs := store.jobs.set index ⟨plan, some outputs⟩ }
    | (manager, .error _) => { store with manager := manager.abort plan, jobs := store.jobs.eraseIdx index }
  | _ => store

def finishJob (store : Store) (index : Nat) : Store :=
  match store.jobs[index]? with
  | some ⟨plan, some outputs⟩ =>
    { store with manager := (store.manager.finishPlan plan outputs).1, jobs := store.jobs.eraseIdx index }
  | _ => store

end Store

inductive Background where
  | submit (level : Nat) (queueFull : Bool)
  | build (index : Nat)
  | finish (index : Nat)
  deriving DecidableEq, Repr

def Store.background (store : Store) : Background → Store
  | .submit level queueFull => store.submit level queueFull
  | .build index => store.buildJob index
  | .finish index => store.finishJob index

def Store.markAfter (store : Store) (mark : Nat) : Background → Nat
  | .build index =>
    match store.jobs[index]? with
    | some ⟨_, none⟩ => max mark store.manager.mvccWatermark
    | _ => mark
  | _ => mark

open List Entry

namespace CompactionJob

def written (job : CompactionJob) : List SstMeta := job.outputs.getD []

def owed (job : CompactionJob) : List SstId :=
  match job.outputs with
  | none => [job.plan.outputId]
  | some _ => []

structure Planned (job : CompactionJob) (manager : SstManager) : Prop where
  inputs : job.plan.inputs ⊆ manager.allFiles
  nonempty : job.plan.inputs ≠ []
  inside : job.plan.outputLevel < manager.levelCount
  reserved : ∀ id ∈ job.plan.reserved, id ∈ manager.reserved

end CompactionJob

namespace Store

def versions (store : Store) : List Entry := store.node.memtable.entries ++ store.manager.contents

structure Intact (store : Store) : Prop where
  catalogued : store.manager.Catalogued (store.jobs.flatMap (·.written)) (store.jobs.flatMap (·.owed))
  planned : ∀ job ∈ store.jobs, job.Planned store.manager
  separate : store.jobs.Pairwise (fun first second => ∀ id ∈ first.plan.reserved, id ∉ second.plan.reserved)
  levels : 0 < store.manager.levelCount
  wellFormed : ∀ entry ∈ store.node.memtable.entries, entry.WellFormed
  segments : ∀ segment ∈ store.wal, segment.1 ≤ store.walSegment

structure Keeps (before after : Store) : Prop where
  nextIndex : after.node.nextIndex = before.node.nextIndex
  lastApplied : after.node.lastApplied = before.node.lastApplied
  watermark : after.manager.mvccWatermark = before.manager.mvccWatermark
  seqMarker : after.seqMarker = before.seqMarker
  config : after.config = before.config

theorem Keeps.refl (store : Store) : store.Keeps store := ⟨rfl, rfl, rfl, rfl, rfl⟩

/-- What a flush does: the versions only move. -/
structure Flushes (before after : Store) : Prop extends before.Keeps after where
  jobs : after.jobs = before.jobs
  levelCount : after.manager.levelCount = before.manager.levelCount
  members : ∀ version, version ∈ after.versions ↔ version ∈ before.versions
  files : ∀ info ∈ before.manager.allFiles ++ before.jobs.flatMap (·.written),
    after.manager.versionsOf info = before.manager.versionsOf info
  placed : ∀ file ∈ after.manager.active, file ∈ before.manager.active ∨ file.path.level = 0

theorem Flushes.refl (store : Store) : store.Flushes store :=
  ⟨Keeps.refl store, rfl, rfl, fun _ => Iff.rfl, fun _ _ => rfl, fun _ => .inl⟩

variable {store : Store} {plan : CompactionPlan} {job : CompactionJob} {rest jobs : List CompactionJob}

structure Finishes (before : Store) (plan : CompactionPlan) (outputs : List SstMeta) (after : SstManager) : Prop where
  active : after.active ⊆ before.manager.active
  levelCount : after.levelCount = before.manager.levelCount
  watermark : after.mvccWatermark = before.manager.mvccWatermark
  outcome : after.allFiles.Perm (outputs ++ before.manager.allFiles.filter (·.id ∉ plan.reserved)) ∨
    after.allFiles = before.manager.allFiles

theorem jobs_perm {index : Nat} (found : jobs[index]? = some job) :
    (job :: jobs.eraseIdx index).Perm jobs ∧
      ∀ changed, (jobs.set index changed).Perm (changed :: jobs.eraseIdx index) := by
  obtain ⟨inside, rfl⟩ := List.getElem?_eq_some_iff.mp found
  exact ⟨getElem_cons_eraseIdx_perm inside, fun changed => set_perm_cons_eraseIdx inside changed⟩

section

variable (intact : store.Intact)
include intact

theorem Intact.getAt (key : Key) (readTs : Nat) :
    stamp.IsNewest store.versions key readTs (store.getAt key readTs) :=
  intact.catalogued.getAt_isNewest (store.node.memtable.ordered.firstFrom_isNewest key readTs)

theorem Intact.withNode {node : LocalRaftNode} (wellFormed : ∀ entry ∈ node.memtable.entries, entry.WellFormed) :
    Intact { store with node } :=
  { intact with wellFormed }

theorem Intact.rotateWal : ∃ wal, store.rotateWal = ({ store with wal, walSegment := store.walSegment + 1 }, .ok ()) ∧
      Intact { store with wal, walSegment := store.walSegment + 1 } := by
  have unused : ¬ store.wal.any (·.1 = store.walSegment + 1) = true := by
    simp only [any_eq_true, decide_eq_true_eq, not_exists, not_and]
    intro segment member same
    have below := intact.segments segment member
    omega
  unfold Store.rotateWal WalDir.create
  dsimp only
  rw [if_neg unused]
  refine ⟨_, rfl, { intact with segments := fun segment member => ?_ }⟩
  rcases mem_append.mp member with old | new
  · exact Nat.le_succ_of_le (intact.segments segment old)
  · rw [mem_singleton.mp new]

theorem Intact.addSlices {slices : List (List Entry)} (accepted : ∀ slice ∈ slices, Sst.Accepts slice)
    (whole : slices.flatten = store.node.memtable.entries) :
    ∃ manager, store.manager.addSlices slices = (manager, .ok ()) ∧
      Intact { store.setMemtable Memtable.empty with manager } ∧
      store.Flushes { store.setMemtable Memtable.empty with manager } := by
  obtain ⟨manager, files, added, entries, flushed, catalogued⟩ := intact.catalogued.addSlices accepted intact.levels
  refine ⟨manager, added, ⟨catalogued, fun job member => ?_, intact.separate, flushed.levelCount ▸ intact.levels, nofun,
    intact.segments⟩, ⟨rfl, rfl, flushed.watermark, rfl, rfl⟩, rfl, flushed.levelCount, fun version => ?_,
    fun info known => flushed.versionsOf intact.catalogued catalogued.toBacked known, fun file member => ?_⟩
  · have planned := intact.planned job member
    refine ⟨fun info input => ?_, planned.nonempty, flushed.levelCount.symm ▸ planned.inside, fun id reserved => ?_⟩
    · exact flushed.catalog.symm.subset (mem_append_right _ (planned.inputs input))
    · rw [flushed.reserved]
      exact planned.reserved id reserved
  · show version ∈ manager.contents ↔ version ∈ store.node.memtable.entries ++ store.manager.contents
    rw [flushed.mem_contents intact.catalogued catalogued.toBacked, mem_append, flatMap_def, entries, whole]
  · exact (mem_append.mp (flushed.active.subset member)).elim (fun new => .inr (flushed.bottom file new)) .inl

theorem Intact.flushNode : ∃ after, store.flushNode = (after, .ok ()) ∧ after.Intact ∧ store.Flushes after := by
  unfold Store.flushNode
  by_cases empty : store.node.memtable.entries = []
  · exact ⟨store, by simp [empty], intact, Flushes.refl store⟩
  have accepted := splitEntriesByMaxBytes_accepted store.node.memtable.ordered intact.wellFormed
    store.manager.maxSstBytes
  obtain ⟨manager, added, moved, flushes⟩ := intact.addSlices accepted (splitEntriesByMaxBytes_flatten _ _)
  simp only [empty, if_false]
  have added' : (store.setMemtable Memtable.empty).manager.addSlices (splitEntriesByMaxBytes
      store.node.memtable.entries (store.setMemtable Memtable.empty).manager.maxSstBytes) = (manager, .ok ()) := added
  rw [added']
  obtain ⟨wal, rotated, done⟩ := moved.rotateWal
  exact ⟨_, rotated, done, ⟨rfl, rfl, flushes.watermark, rfl, rfl⟩, rfl, flushes.levelCount, flushes.members,
    flushes.files, flushes.placed⟩

theorem Intact.maybeFlush : ∃ after, store.maybeFlush = (after, .ok ()) ∧ after.Intact ∧ store.Flushes after := by
  unfold Store.maybeFlush
  split
  · exact intact.flushNode
  · exact ⟨store, rfl, intact, Flushes.refl store⟩

theorem Intact.reorder (perm : jobs.Perm store.jobs) : Intact { store with jobs } := by
  have symmetric : ∀ {first second : CompactionJob}, (∀ id ∈ first.plan.reserved, id ∉ second.plan.reserved) →
      ∀ id ∈ second.plan.reserved, id ∉ first.plan.reserved :=
    fun separate id inSecond inFirst => separate id inFirst inSecond
  exact ⟨(intact.catalogued.pending_perm (perm.flatMap_right _)).promised_perm (perm.flatMap_right _),
    fun job member => intact.planned job (perm.subset member), (perm.pairwise_iff symmetric).mpr intact.separate,
    intact.levels, intact.wellFormed, intact.segments⟩

theorem Intact.job_known (member : job ∈ store.jobs) :
    job.plan.inputs ++ job.written ⊆ store.manager.allFiles ++ store.jobs.flatMap (·.written) := by
  intro info inside
  rcases mem_append.mp inside with input | output
  · exact mem_append_left _ ((intact.planned job member).inputs input)
  · exact mem_append_right _ (mem_flatMap.mpr ⟨job, member, output⟩)

theorem Intact.submit (level : Nat) (queueFull : Bool) :
    (store.submit level queueFull).Intact := by
  unfold Store.submit
  split
  · rename_i plan manager picked
    have catalogued := intact.catalogued.pick picked
    obtain ⟨⟨selection, made⟩, rfl⟩ := SstManager.pick_some picked
    have apart : ∀ job ∈ store.jobs, ∀ id ∈ job.plan.reserved, id ∉ plan.reserved := by
      intro job member id reserved inPlan
      obtain ⟨input, inInputs, rfl⟩ := mem_map.mp inPlan
      exact made.free input inInputs ((intact.planned job member).reserved _ reserved)
    split
    · refine { intact with catalogued := { catalogued.forget with }, planned := fun job member => ?_ }
      · have planned := intact.planned job member
        refine { planned with reserved := fun id reserved => ?_ }
        apply mem_filter.mpr
        exact ⟨mem_append_right _ (planned.reserved id reserved), decide_eq_true (apart job member id reserved)⟩
    · refine ⟨?_, fun job member => ?_, ?_, intact.levels, intact.wellFormed, intact.segments⟩
      · apply (catalogued.pending_perm _).promised_perm
        · simp only [flatMap_append, flatMap_singleton, CompactionJob.owed]
          exact perm_append_comm
        · simp [CompactionJob.written]
      · rcases mem_append.mp member with old | new
        · have planned := intact.planned job old
          exact ⟨planned.inputs, planned.nonempty, planned.inside,
            fun id reserved => mem_append_right _ (planned.reserved id reserved)⟩
        · rw [mem_singleton.mp new]
          refine ⟨made.subset, made.nonempty, ?_, fun id reserved => mem_append_left _ reserved⟩
          rw [made.outputLevel]
          exact made.inside
      · apply pairwise_append.mpr
        refine ⟨intact.separate, pairwise_singleton _ _, fun job old other new => ?_⟩
        rw [mem_singleton.mp new]
        exact apart job old
  · exact intact

theorem Intact.buildHead (head : store.jobs = ⟨plan, none⟩ :: rest) :
    ∃ manager files, store.manager.buildOutputs plan = (manager, .ok (files.map SstFile.info)) ∧
      (∀ file ∈ files, file.path.level = plan.outputLevel) ∧ store.manager.Grown manager files ∧
      (∀ key, stamp.Determined (stamp.ofKey key store.manager.contents) →
        stamp.Thins store.manager.mvccWatermark (stamp.ofKey key (plan.inputs.flatMap store.manager.versionsOf))
          (stamp.ofKey key (files.flatMap (·.sst.entries)))) ∧
      Intact { store with manager, jobs := ⟨plan, some (files.map SstFile.info)⟩ :: rest } := by
  have planned : ∀ job ∈ ⟨plan, none⟩ :: rest, job.Planned store.manager := head ▸ intact.planned
  have here := planned _ mem_cons_self
  have catalogued : store.manager.Catalogued (rest.flatMap (·.written)) (plan.outputId :: rest.flatMap (·.owed)) := by
    have catalogued := intact.catalogued
    rw [head] at catalogued
    exact catalogued
  obtain ⟨manager, files, built, levels, grown, done, thins⟩ := catalogued.buildOutputs here.inputs here.nonempty
  have carried : ∀ job : CompactionJob, job.Planned store.manager → job.Planned manager := by
    intro job before
    refine ⟨?_, before.nonempty, grown.levelCount ▸ before.inside, ?_⟩
    · exact fun info input => grown.allFiles ▸ before.inputs input
    · exact fun id reserved => grown.reserved ▸ before.reserved id reserved
  refine ⟨manager, files, built, levels, grown, thins, ?_, fun job member => ?_, ?_, grown.levelCount ▸ intact.levels,
    intact.wellFormed, intact.segments⟩
  · exact done.pending_perm perm_append_comm
  · rcases mem_cons.mp member with rfl | later
    · have same := carried _ here
      exact ⟨same.inputs, same.nonempty, same.inside, same.reserved⟩
    · exact carried job (planned job (mem_cons_of_mem _ later))
  · have separate := intact.separate
    rw [head] at separate
    exact pairwise_cons.mpr (pairwise_cons.mp separate)

theorem Intact.finishHead {outputs : List SstMeta} (head : store.jobs = ⟨plan, some outputs⟩ :: rest) :
    store.Finishes plan outputs (store.manager.finishPlan plan outputs).1 ∧
      Intact { store with manager := (store.manager.finishPlan plan outputs).1, jobs := rest } := by
  have planned : ∀ job ∈ ⟨plan, some outputs⟩ :: rest, job.Planned store.manager := head ▸ intact.planned
  have here := planned _ mem_cons_self
  have separate := intact.separate
  rw [head] at separate
  obtain ⟨apart, separate⟩ := pairwise_cons.mp separate
  have catalogued : store.manager.Catalogued (outputs ++ rest.flatMap (·.written)) (rest.flatMap (·.owed)) := by
    have catalogued := intact.catalogued
    rw [head] at catalogued
    exact catalogued
  obtain ⟨manager, result, finished, done, active, count, reserved, watermark, -, outcome⟩ :=
    catalogued.finishPlan here.inside here.inputs
  rw [finished]
  have stays : ∀ info ∈ store.manager.allFiles, info.id ∉ plan.reserved → info ∈ manager.allFiles := by
    intro info member free
    rcases outcome with installed | same
    · apply installed.symm.subset
      exact mem_append_right _ (mem_filter.mpr ⟨member, decide_eq_true free⟩)
    · rwa [same]
  refine ⟨⟨active, count, watermark, outcome⟩, done, fun job member => ?_, separate, count ▸ intact.levels,
    intact.wellFormed, intact.segments⟩
  have before := planned job (mem_cons_of_mem _ member)
  have unreserved : ∀ id ∈ job.plan.reserved, id ∉ plan.reserved :=
    fun id inJob inPlan => apart job member id inPlan inJob
  refine ⟨fun info input => ?_, before.nonempty, count.symm ▸ before.inside, fun id inJob => ?_⟩
  · exact stays info (before.inputs input) (unreserved _ (mem_map_of_mem input))
  · rw [reserved]
    exact mem_filter.mpr ⟨before.reserved id inJob, decide_eq_true (unreserved id inJob)⟩

theorem Intact.background (move : Background) : (store.background move).Intact := by
  cases move with
  | submit level queueFull => exact intact.submit level queueFull
  | build index =>
    unfold Store.background Store.buildJob
    dsimp only
    split
    · rename_i plan found
      obtain ⟨perm, set⟩ := jobs_perm found
      obtain ⟨manager, files, built, -, -, -, done⟩ := (intact.reorder perm).buildHead rfl
      have built : store.manager.buildOutputs plan = (manager, .ok (files.map SstFile.info)) := built
      rw [built]
      exact done.reorder (set _)
    · exact intact
  | finish index =>
    unfold Store.background Store.finishJob
    dsimp only
    split
    · rename_i plan outputs found
      exact ((intact.reorder (jobs_perm found).1).finishHead rfl).2
    · exact intact

end

end Store

end Takyonic
