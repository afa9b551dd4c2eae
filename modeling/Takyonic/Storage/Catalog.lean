import Takyonic.Foundation.Merge
import Takyonic.Storage.Memtable

namespace Takyonic

open Foundation List Stamp Entry Merge

def keepVersions (watermark : Nat) (versions : List Entry) : List Entry :=
  stamp.survivors watermark false
    ((versions.insertionSort (fun first second => second.seq ≤ first.seq)).destutter
      (fun first second => first.seq ≠ second.seq))

def kWayMerge (watermark : Nat) (runs : List (List Entry)) : List Entry :=
  merge (fun first second => first.internalKey < second.internalKey) key (keepVersions watermark) runs

def estimateEntryBytes (entry : Entry) : Nat :=
  48 + entry.key.bytes.length + entry.value.elim 0 fun value => value.bytes.length

/-- The loop of `split_entries_by_max_bytes`; `slice` is what it has collected since the last cut. -/
def splitLoop (budget : Nat) (slice : List Entry) (acc : Nat) : List Entry → List (List Entry)
  | [] => [slice]
  | entry :: rest =>
    let would := acc + estimateEntryBytes entry
    if slice.getLast?.any (fun last => last.key ≠ entry.key ∧ budget < would) then
      slice :: splitLoop budget [entry] (estimateEntryBytes entry) rest
    else splitLoop budget (slice ++ [entry]) would rest

def splitEntriesByMaxBytes (entries : List Entry) (maxBytes : Nat) : List (List Entry) :=
  if entries = [] then []
  else if maxBytes = 0 then [entries]
  else splitLoop (max (max (maxBytes - 4096) (maxBytes / 2)) 1) [] 0 entries

theorem destutter_represents (first : Entry) (rest : List Entry) : ∀ version ∈ first :: rest,
    ∃ kept ∈ rest.destutter' (fun first second : Entry => first.seq ≠ second.seq) first, kept.seq = version.seq := by
  induction rest generalizing first with
  | nil =>
    intro version member
    rw [mem_singleton.mp member]
    exact ⟨first, mem_singleton_self _, rfl⟩
  | cons second rest ih =>
    intro version member
    rw [List.destutter'_cons]
    by_cases different : first.seq ≠ second.seq
    · rw [if_pos different]
      rcases mem_cons.mp member with rfl | later
      · exact ⟨version, mem_cons_self, rfl⟩
      · obtain ⟨kept, inside, same⟩ := ih second version later
        exact ⟨kept, mem_cons_of_mem _ inside, same⟩
    · rw [if_neg different]
      rcases mem_cons.mp member with rfl | later
      · exact ih version version mem_cons_self
      · rcases mem_cons.mp later with rfl | later
        · obtain ⟨kept, inside, same⟩ := ih first first mem_cons_self
          exact ⟨kept, inside, same.trans (not_not.mp different)⟩
        · exact ih first version (mem_cons_of_mem _ later)

section OneKey

variable {versions : List Entry} {key : Key}

theorem sorted_versions_descending (versions : List Entry) :
    ((versions.insertionSort (fun first second => second.seq ≤ first.seq)).destutter
      (fun first second => first.seq ≠ second.seq)).Pairwise (fun first second => second.seq < first.seq) := by
  have total : Std.Total (fun first second : Entry => second.seq ≤ first.seq) :=
    ⟨fun first second => le_total second.seq first.seq⟩
  have trans : IsTrans Entry (fun first second => second.seq ≤ first.seq) :=
    ⟨fun _ _ _ less less' => le_trans less' less⟩
  have sorted := pairwise_insertionSort (fun first second : Entry => second.seq ≤ first.seq) versions
  generalize versions.insertionSort (fun first second => second.seq ≤ first.seq) = list at sorted
  have weak := sorted.sublist (destutter_sublist (fun first second : Entry => first.seq ≠ second.seq) list)
  have strict := isChain_destutter (fun first second : Entry => first.seq ≠ second.seq) list
  generalize list.destutter (fun first second => first.seq ≠ second.seq) = kept at weak strict
  have chain : kept.IsChain (fun first second => second.seq < first.seq) := by
    apply isChain_iff_forall_rel_of_append_cons_cons.mpr
    intro first second before after split
    have different := isChain_iff_forall_rel_of_append_cons_cons.mp strict split
    have ordered := isChain_iff_forall_rel_of_append_cons_cons.mp weak.isChain split
    exact Nat.lt_of_le_of_ne ordered (Ne.symm different)
  have trans : Trans (fun first second : Entry => second.seq < first.seq)
      (fun first second : Entry => second.seq < first.seq)
      (fun first second : Entry => second.seq < first.seq) := ⟨fun less less' => lt_trans less' less⟩
  exact isChain_iff_pairwise.mp chain

theorem mem_sorted_versions (determined : stamp.Determined versions)
    (oneKey : ∀ version ∈ versions, version.key = key) (version : Entry) :
    version ∈ (versions.insertionSort (fun first second => second.seq ≤ first.seq)).destutter
      (fun first second => first.seq ≠ second.seq) ↔ version ∈ versions := by
  have perm := perm_insertionSort (fun first second : Entry => second.seq ≤ first.seq) versions
  constructor
  · exact fun member => perm.subset ((destutter_sublist _ _).subset member)
  · intro member
    have inSorted := perm.symm.subset member
    generalize versions.insertionSort (fun first second => second.seq ≤ first.seq) = list at perm inSorted
    cases list with
    | nil => cases inSorted
    | cons first rest =>
      obtain ⟨kept, inside, same⟩ := destutter_represents first rest version inSorted
      have inVersions : kept ∈ versions := perm.subset ((List.destutter'_sublist _ _ _).subset inside)
      have equal := determined kept inVersions version member
        ((oneKey kept inVersions).trans (oneKey version member).symm) same
      exact equal ▸ inside

theorem keepVersions_thins (watermark : Nat) (determined : stamp.Determined versions)
    (oneKey : ∀ version ∈ versions, version.key = key) :
    stamp.Thins watermark versions (keepVersions watermark versions) := by
  have members := mem_sorted_versions determined oneKey
  have thins : stamp.Thins watermark _ (keepVersions watermark versions) :=
    survivors_thins (sorted_versions_descending versions)
      (fun version member => oneKey version ((members version).mp member))
  refine ⟨fun version member => (members version).mp (thins.subset member), fun version member => ?_⟩
  exact thins.covered version ((members version).mpr member)

theorem keepVersions_descending (watermark : Nat) (versions : List Entry) :
    (keepVersions watermark versions).Pairwise (fun first second => second.seq < first.seq) :=
  (sorted_versions_descending versions).sublist survivors_sublist

theorem keepVersions_subset : keepVersions watermark versions ⊆ versions := by
  intro version member
  apply (perm_insertionSort (fun first second : Entry => second.seq ≤ first.seq) versions).subset
  exact (destutter_sublist _ _).subset (survivors_sublist.subset member)

theorem keepVersions_nonempty (watermark : Nat) (some : versions ≠ []) : keepVersions watermark versions ≠ [] := by
  have perm := perm_insertionSort (fun first second : Entry => second.seq ≤ first.seq) versions
  unfold keepVersions
  generalize versions.insertionSort (fun first second => second.seq ≤ first.seq) = list at perm
  cases list with
  | nil => exact absurd perm.symm.eq_nil some
  | cons first rest =>
    obtain ⟨kept, inside, -⟩ := destutter_represents first rest first mem_cons_self
    rw [destutter_cons']
    generalize rest.destutter' (fun first second : Entry => first.seq ≠ second.seq) first = sorted at inside
    cases sorted with
    | nil => cases inside
    | cons newest older =>
      unfold survivors
      split <;> simp

end OneKey

section Merging

variable {runs : List (List Entry)}

theorem merge_compatible :
    Compatible (fun first second : Entry => first.internalKey < second.internalKey) key := by
  intro first second
  constructor
  · intro before
    rcases internalKey_lt.mp before with less | ⟨same, -⟩
    · exact le_of_lt less
    · exact le_of_eq same
  · intro notBefore
    apply le_of_not_gt
    exact fun less => notBefore (internalKey_lt.mpr (.inl less))

theorem merge_ascending (ordered : ∀ run ∈ runs, Ordered run) : Ascending Entry.key runs := by
  intro run member
  apply (ordered run member).imp
  exact fun {first second} before => (merge_compatible first second).1 before

section

variable (watermark : Nat) (ordered : ∀ run ∈ runs, Ordered run)
include watermark ordered

theorem kWayMerge_groups : ∃ groups, Groups Entry.key runs groups ∧
    kWayMerge watermark runs = groups.flatMap (keepVersions watermark) :=
  merge_groups merge_compatible _ (merge_ascending ordered)

theorem kWayMerge_ordered : Ordered (kWayMerge watermark runs) := by
  obtain ⟨groups, grouped, merged⟩ := kWayMerge_groups watermark ordered
  rw [merged, Ordered, pairwise_flatMap]
  constructor
  · intro group member
    refine (keepVersions_descending watermark group).imp_of_mem fun {first second} inFirst inSecond newer => ?_
    apply Entry.internalKey_lt.mpr
    exact .inr ⟨grouped.oneKey group member first (keepVersions_subset inFirst) second
      (keepVersions_subset inSecond), newer⟩
  · apply grouped.ascending.imp
    intro earlier later less first inFirst second inSecond
    apply Entry.internalKey_lt.mpr
    exact .inl (less first (keepVersions_subset inFirst) second (keepVersions_subset inSecond))

theorem kWayMerge_subset : kWayMerge watermark runs ⊆ runs.flatten := by
  obtain ⟨groups, grouped, merged⟩ := kWayMerge_groups watermark ordered
  intro version member
  rw [merged] at member
  obtain ⟨group, inGroups, kept⟩ := mem_flatMap.mp member
  apply grouped.perm.subset
  exact mem_flatten_of_mem inGroups (keepVersions_subset kept)

theorem kWayMerge_thins {key : Key} (determined : Entry.stamp.Determined (Entry.stamp.ofKey key runs.flatten)) :
    Entry.stamp.Thins watermark (Entry.stamp.ofKey key runs.flatten)
      (Entry.stamp.ofKey key (kWayMerge watermark runs)) := by
  constructor
  · intro version member
    obtain ⟨inside, ofKey⟩ := mem_ofKey.mp member
    exact mem_ofKey.mpr ⟨kWayMerge_subset watermark ordered inside, ofKey⟩
  obtain ⟨groups, grouped, merged⟩ := kWayMerge_groups watermark ordered
  rw [merged]
  intro version member
  obtain ⟨inside, ofKey⟩ := mem_ofKey.mp member
  obtain ⟨group, inGroups, inGroup⟩ := mem_flatten.mp (grouped.perm.symm.subset inside)
  have sameKey : ∀ other ∈ group, other.key = key :=
    fun other inOther => (grouped.oneKey group inGroups other inOther version inGroup).trans ofKey
  have subset : group ⊆ Entry.stamp.ofKey key runs.flatten := by
    intro other inOther
    apply mem_ofKey.mpr
    exact ⟨grouped.perm.subset (mem_flatten_of_mem inGroups inOther), sameKey other inOther⟩
  have kept : ∀ other ∈ keepVersions watermark group,
      other ∈ Entry.stamp.ofKey key (groups.flatMap (keepVersions watermark)) := by
    intro other inKept
    apply mem_ofKey.mpr
    exact ⟨mem_flatMap.mpr ⟨group, inGroups, inKept⟩, sameKey other (keepVersions_subset inKept)⟩
  have thins := keepVersions_thins watermark (determined.subset subset) sameKey
  rcases thins.covered version inGroup with stays | ⟨newer, inKept, found⟩
  · exact .inl (kept version stays)
  · exact .inr ⟨newer, kept newer inKept, found⟩

theorem kWayMerge_nonempty (some : runs.flatten ≠ []) : kWayMerge watermark runs ≠ [] := by
  obtain ⟨groups, grouped, merged⟩ := kWayMerge_groups watermark ordered
  rw [merged]
  cases groups with
  | nil => exact absurd grouped.perm.symm.eq_nil some
  | cons group rest =>
    intro empty
    exact keepVersions_nonempty watermark (grouped.nonempty group mem_cons_self) (append_eq_nil_iff.mp empty).1

end

end Merging

section Splitting

variable {budget acc : Nat} {slice rest : List Entry}

theorem splitLoop_flatten : (splitLoop budget slice acc rest).flatten = slice ++ rest := by
  induction rest generalizing slice acc with
  | nil => simp [splitLoop]
  | cons entry rest ih =>
    unfold splitLoop
    dsimp only
    split
    · simp [ih]
    · simp [ih]

theorem splitLoop_nonempty (started : slice ++ rest ≠ []) :
    ∀ part ∈ splitLoop budget slice acc rest, part ≠ [] := by
  induction rest generalizing slice acc with
  | nil =>
    intro part member
    rw [mem_singleton.mp member]
    simpa using started
  | cons entry rest ih =>
    intro part member
    unfold splitLoop at member
    dsimp only at member
    split at member
    · rename_i cut
      rcases mem_cons.mp member with rfl | member
      · intro empty
        rw [empty] at cut
        cases cut
      · exact ih (by simp) part member
    · exact ih (by simp) part member

theorem splitLoop_apart (ordered : Ordered (slice ++ rest)) : (splitLoop budget slice acc rest).Pairwise
    (fun earlier later => ∀ first ∈ earlier, ∀ second ∈ later, first.key ≠ second.key) := by
  induction rest generalizing slice acc with
  | nil => exact pairwise_singleton _ _
  | cons entry rest ih =>
    unfold splitLoop
    dsimp only
    split
    · rename_i cut
      obtain ⟨before, after, across⟩ := pairwise_append.mp ordered
      refine pairwise_cons.mpr ⟨fun later member first inFirst second inSecond same => ?_, ih after⟩
      obtain ⟨last, final, passed⟩ := (Option.any_eq_true _ _).mp cut
      obtain ⟨front, rfl⟩ := getLast?_eq_some_iff.mp final
      have below : first.key ≤ last.key := by
        rcases mem_append.mp inFirst with older | newest
        · exact (merge_compatible _ _).1 ((pairwise_append.mp before).2.2 first older last mem_cons_self)
        · rw [mem_singleton.mp newest]
      have inside : second ∈ entry :: rest := by
        rw [← singleton_append, ← splitLoop_flatten]
        exact mem_flatten_of_mem member inSecond
      have above : last.key < entry.key :=
        lt_of_le_of_ne ((merge_compatible _ _).1 (across last (by simp) entry mem_cons_self))
          (of_decide_eq_true passed).1
      exact absurd same (ne_of_lt (below.trans_lt (above.trans_le (Ordered.key_le after inside))))
    · exact ih (by rwa [append_assoc])

theorem splitEntriesByMaxBytes_flatten (entries : List Entry) (maxBytes : Nat) :
    (splitEntriesByMaxBytes entries maxBytes).flatten = entries := by
  unfold splitEntriesByMaxBytes
  split
  · rename_i empty
    exact empty.symm
  · split
    · simp
    · exact splitLoop_flatten

theorem splitEntriesByMaxBytes_nonempty (entries : List Entry) (maxBytes : Nat) :
    ∀ part ∈ splitEntriesByMaxBytes entries maxBytes, part ≠ [] := by
  unfold splitEntriesByMaxBytes
  split
  · exact fun part member => absurd member not_mem_nil
  · rename_i nonempty
    split
    · intro part member
      rwa [mem_singleton.mp member]
    · exact splitLoop_nonempty nonempty

theorem splitEntriesByMaxBytes_ordered {entries : List Entry} (ordered : Ordered entries) (maxBytes : Nat) :
    ∀ part ∈ splitEntriesByMaxBytes entries maxBytes, Ordered part := by
  intro part member
  apply List.Pairwise.sublist _ ordered
  have inside := sublist_flatten_of_mem member
  rwa [splitEntriesByMaxBytes_flatten] at inside

end Splitting

abbrev SstId := Nat

structure SstPath where
  level : Nat
  id : SstId
  deriving DecidableEq, Repr

structure Sst where
  entries : List Entry
  ordered : Ordered entries
  wellFormed : ∀ entry ∈ entries, entry.WellFormed
  nonempty : entries ≠ []
  deriving DecidableEq

namespace Sst

def smallest (sst : Sst) : Key := (sst.entries.head sst.nonempty).key

def largest (sst : Sst) : Key := (sst.entries.getLast sst.nonempty).key

theorem smallest_le (sst : Sst) {entry : Entry} (member : entry ∈ sst.entries) : sst.smallest ≤ entry.key := by
  have split := cons_head_tail sst.nonempty
  have ordered : Ordered (sst.entries.head sst.nonempty :: sst.entries.tail) := by
    rw [split]
    exact sst.ordered
  rw [← split] at member
  exact ordered.key_le member

theorem le_largest (sst : Sst) {entry : Entry} (member : entry ∈ sst.entries) : entry.key ≤ sst.largest := by
  have split := dropLast_append_getLast sst.nonempty
  have ordered : Ordered (sst.entries.dropLast ++ [sst.entries.getLast sst.nonempty]) := by
    rw [split]
    exact sst.ordered
  rw [← split] at member
  rcases mem_append.mp member with earlier | atEnd
  · have before := (pairwise_append.mp ordered).2.2 entry earlier _ (mem_singleton_self _)
    exact (merge_compatible _ _).1 before
  · exact le_of_eq (congrArg Entry.key (mem_singleton.mp atEnd))

def getEntryAt (sst : Sst) (key : Key) (readTs : Nat) : Option Entry := firstFrom key readTs sst.entries

/-- `validate_entries`, then the check of `SstMeta::from_info`. -/
def create (entries : List Entry) : Except TakyonicError Sst :=
  if wellFormed : ∀ entry ∈ entries, entry.WellFormed then
    if ordered : Ordered entries then
      if nonempty : entries = [] then
        .error (.compaction "empty SSTs are not added to the leveled catalog")
      else .ok ⟨entries, ordered, wellFormed, nonempty⟩
    else .error (.integrity "SST entries must be ordered by user key ASC, commit_ts DESC")
  else if (entries.find? fun entry => ¬ entry.WellFormed).any Entry.tombstone then
    .error (.integrity "SST tombstone must not contain a value")
  else .error (.integrity "SST put must contain a value")

end Sst

structure SstFile where
  path : SstPath
  sst : Sst
  deriving DecidableEq

def SstFile.id (file : SstFile) : SstId := file.path.id

structure SstMeta where
  id : SstId
  level : Nat
  smallest : Key
  largest : Key
  deriving DecidableEq, Repr

namespace SstMeta

def path (info : SstMeta) : SstPath := ⟨info.level, info.id⟩

def overlaps (info : SstMeta) (smallest largest : Key) : Prop :=
  info.smallest ≤ largest ∧ smallest ≤ info.largest

instance (info : SstMeta) (smallest largest : Key) : Decidable (info.overlaps smallest largest) :=
  inferInstanceAs (Decidable (_ ∧ _))

end SstMeta

def SstFile.info (file : SstFile) : SstMeta :=
  ⟨file.path.id, file.path.level, file.sst.smallest, file.sst.largest⟩

inductive FsStep where
  | createTemp (path : SstPath)
  | rename (file : SstFile)
  | unlink (path : SstPath)
  deriving DecidableEq

structure SstDir where
  files : List SstFile
  temps : List SstPath
  deriving DecidableEq

namespace SstDir

def apply (dir : SstDir) : FsStep → SstDir
  | .createTemp path => { dir with temps := path :: dir.temps }
  | .rename file =>
    { files := file :: dir.files.filter (·.path ≠ file.path), temps := dir.temps.filter (· ≠ file.path) }
  | .unlink path => { dir with files := dir.files.filter (·.path ≠ path) }

def lookup (dir : SstDir) (path : SstPath) : Option SstFile := dir.files.find? (·.path = path)

/-- `SstWriter::write`: the temporary file must be new, and gets its name when it is complete. -/
def write (dir : SstDir) (path : SstPath) (entries : List Entry) : Except TakyonicError (SstDir × SstFile) := do
  let sst ← Sst.create entries
  if path ∈ dir.temps then .error .io
  else .ok ((dir.apply (.createTemp path)).apply (.rename ⟨path, sst⟩), ⟨path, sst⟩)

end SstDir

structure CompactionPlan where
  sourceLevel : Nat
  outputLevel : Nat
  inputs : List SstMeta
  outputId : SstId
  deriving DecidableEq, Repr

def CompactionPlan.reserved (plan : CompactionPlan) : List SstId := plan.inputs.map (·.id)

structure SstManager where
  levelCount : Nat
  levels : Nat → List SstMeta
  reserved : List SstId
  nextId : SstId
  mvccWatermark : Nat
  maxSstBytes : Nat
  active : List SstFile
  dir : SstDir

structure Selection where
  files : List SstMeta
  smallest : Key
  largest : Key

def sortLevel (level : Nat) (files : List SstMeta) : List SstMeta :=
  if level = 0 then files.insertionSort (fun left right => left.id ≤ right.id)
  else files.insertionSort (fun left right => left.smallest ≤ right.smallest)

namespace SstManager

def create (levelCount nextId maxSstBytes : Nat) (dir : SstDir) : SstManager :=
  { levelCount, levels := fun _ => [], reserved := [], nextId, mvccWatermark := 0, maxSstBytes, active := [], dir }

variable (manager : SstManager)

def allFiles : List SstMeta := (range manager.levelCount).flatMap manager.levels

def pin (id : SstId) : Option SstFile := manager.active.find? (·.id = id)

def register (id : SstId) (path : SstPath) : Except TakyonicError SstManager :=
  if (manager.pin id).isSome then .error (.integrity s!"SST id {id} is already registered")
  else match manager.dir.lookup path with
    | some file => .ok { manager with active := file :: manager.active }
    | none => .error .io

def retire (id : SstId) : SstManager :=
  match manager.pin id with
  | some file =>
    { manager with active := manager.active.filter (·.id ≠ id), dir := manager.dir.apply (.unlink file.path) }
  | none => manager

def allocateSstId : SstId × SstManager :=
  (manager.nextId, { manager with nextId := manager.nextId + 1 })

def ensureNextSstIdAtLeast (minNext : SstId) : SstManager :=
  { manager with nextId := max manager.nextId minNext }

def setMvccWatermark (watermark : Nat) : SstManager :=
  { manager with mvccWatermark := watermark }

def checkEntry (info : SstMeta) : Except TakyonicError Unit :=
  let id := info.id
  let level := info.level
  if manager.levelCount ≤ level then .error (.compaction s!"level {level} is out of range")
  else if manager.allFiles.any (·.id = id) then .error (.compaction s!"SST {id} already exists in catalog")
  else if 0 < level ∧ (manager.levels level).any (·.overlaps info.smallest info.largest) then
    .error (.compaction s!"SST {id} overlaps an existing file in level {level}")
  else .ok ()

def insertFiles (level : Nat) (files : List SstMeta) : SstManager :=
  { manager with levels := fun other =>
      if other = level then sortLevel level (manager.levels level ++ files) else manager.levels other }

def addSst (info : SstMeta) : Except TakyonicError SstManager := do
  manager.checkEntry info
  let manager ← manager.register info.id info.path
  .ok (manager.insertFiles info.level [info])

def recoverSstFile (level : Nat) (id : SstId) : Except TakyonicError SstManager := do
  let manager ← manager.register id ⟨level, id⟩
  match manager.pin id with
  | none => .error (.compaction s!"recovered SST {id} could not be pinned")
  | some file =>
    manager.checkEntry file.info
    .ok ((manager.insertFiles level [file.info]).ensureNextSstIdAtLeast (id + 1))

def levelIds (level : Nat) : List SstId :=
  ((manager.dir.files.filter (·.path.level = level)).map SstFile.id).insertionSort (· ≤ ·)

def recoverExistingSsts : Except TakyonicError SstManager :=
  (range manager.levelCount).foldlM
    (fun current level => (manager.levelIds level).foldlM (fun current id => current.recoverSstFile level id) current)
    manager

def sweep (reserved : List SstId) : List SstMeta → Selection → Option Selection
  | [], selection => some selection
  | file :: rest, selection =>
    if selection.files.any (·.id = file.id) then sweep reserved rest selection
    else if file.overlaps selection.smallest selection.largest then
      if file.id ∈ reserved then none
      else sweep reserved rest
        ⟨selection.files ++ [file], min selection.smallest file.smallest, max selection.largest file.largest⟩
    else sweep reserved rest selection

def closeOver (reserved : List SstId) (files : List SstMeta) : Nat → Selection → Option Selection
  | 0, selection => some selection
  | rounds + 1, selection =>
    match sweep reserved files selection with
    | none => none
    | some next =>
      if next.files.length = selection.files.length then some next else closeOver reserved files rounds next

def selectSource (sourceLevel : Nat) (candidate : SstMeta) : Option Selection :=
  let alone : Selection := ⟨[candidate], candidate.smallest, candidate.largest⟩
  if sourceLevel = 0 then closeOver manager.reserved (manager.levels 0) (manager.levels 0).length alone
  else some alone

def selectInputs (sourceLevel : Nat) (candidate : SstMeta) : Option (List SstMeta) :=
  if candidate.id ∈ manager.reserved then none
  else match manager.selectSource sourceLevel candidate with
    | none => none
    | some selection =>
      let target := (manager.levels (sourceLevel + 1)).filter (·.overlaps selection.smallest selection.largest)
      if target.any (fun file => file.id ∈ manager.reserved) then none else some (selection.files ++ target)

def pick (sourceLevel : Nat) :
    Except TakyonicError (Option (CompactionPlan × SstManager)) :=
  if manager.levelCount ≤ sourceLevel + 1 then
    .error (.compaction s!"cannot compact terminal level {sourceLevel}")
  else match (manager.levels sourceLevel).findSome? (manager.selectInputs sourceLevel) with
    | none => .ok none
    | some inputs =>
      let plan := ⟨sourceLevel, sourceLevel + 1, inputs, manager.nextId⟩
      .ok (some (plan, { manager with
        reserved := plan.reserved ++ manager.reserved, nextId := manager.nextId + 1 }))

def abort (plan : CompactionPlan) : SstManager :=
  { manager with reserved := manager.reserved.filter (· ∉ plan.reserved) }

/-- The output loop of `execute_plan`. A file that cannot be registered goes, and with it the earlier ones. -/
def writeOutputs (level : Nat) (id : SstId) (outputs : List SstMeta) :
    List (List Entry) → SstManager → SstManager × Except TakyonicError (List SstMeta)
  | [], manager => (manager, .ok outputs)
  | slice :: rest, manager =>
    match manager.dir.write ⟨level, id⟩ slice with
    | .error error => (manager, .error error)
    | .ok (dir, file) =>
      match { manager with dir }.register id ⟨level, id⟩ with
      | .error error =>
        (outputs.foldl (fun manager prior => manager.retire prior.id)
          { manager with dir := dir.apply (.unlink ⟨level, id⟩) }, .error error)
      | .ok manager =>
        if rest = [] then (manager, .ok (outputs ++ [file.info]))
        else writeOutputs level manager.nextId (outputs ++ [file.info]) rest manager.allocateSstId.2

/-- `execute_plan` up to the installation: pin, merge at the watermark, write the outputs. -/
def buildOutputs (plan : CompactionPlan) :
    SstManager × Except TakyonicError (List SstMeta) :=
  match plan.inputs.find? (fun input => (manager.pin input.id).isNone) with
  | some input =>
    let id := input.id
    (manager, .error (.compaction s!"SST {id} could not be pinned"))
  | none =>
    let sources := plan.inputs.filterMap (fun input => manager.pin input.id)
    let merged := kWayMerge manager.mvccWatermark (sources.map (·.sst.entries))
    if merged = [] then (manager, .error (.compaction "compaction produced an empty output"))
    else writeOutputs plan.outputLevel plan.outputId [] (splitEntriesByMaxBytes merged manager.maxSstBytes) manager

def checkOutput (plan : CompactionPlan) (output : SstMeta) : Option TakyonicError :=
  if output.level ≠ plan.outputLevel then some (.compaction "compaction output level does not match plan")
  else if (manager.levels output.level).any (fun file =>
      file.id ∉ plan.reserved ∧ file.overlaps output.smallest output.largest) then
    some (.compaction "compaction output overlaps an unreserved target file")
  else none

def installOutputs (plan : CompactionPlan) (outputs : List SstMeta) :
    Except TakyonicError SstManager :=
  if outputs = [] then .error (.compaction "compaction install requires at least one output")
  else if ¬ ∀ id ∈ plan.reserved, id ∈ manager.reserved then
    .error (.compaction "reservation lost before compaction install")
  else if ¬ ∀ id ∈ plan.reserved, manager.allFiles.any (·.id = id) then
    .error (.compaction "compaction inputs changed before install")
  else if let some error := outputs.findSome? (manager.checkOutput plan) then .error error
  else if 0 < plan.outputLevel ∧
      ¬ outputs.Pairwise (fun left right => ¬ left.overlaps right.smallest right.largest) then
    .error (.compaction "compaction split outputs overlap each other")
  else
    let kept := { manager with
      levels := fun level => (manager.levels level).filter (·.id ∉ plan.reserved) }
    .ok ((kept.insertFiles plan.outputLevel outputs).abort plan)

/-- The end of `execute_plan`, and `worker_loop` when it fails. -/
def finishPlan (plan : CompactionPlan) (outputs : List SstMeta) :
    SstManager × Except TakyonicError Unit :=
  match manager.installOutputs plan outputs with
  | .ok manager => (plan.inputs.foldl (fun manager input => manager.retire input.id) manager, .ok ())
  | .error error =>
    ((outputs.foldl (fun manager output => manager.retire output.id) manager).abort plan, .error error)

def readOrder : List (Nat × SstMeta) :=
  (range manager.levelCount).flatMap fun level =>
    (if level = 0 then (manager.levels 0).insertionSort (fun left right => right.id ≤ left.id)
      else manager.levels level).map fun info => (level, info)

def lookupFile (key : Key) (readTs : Nat) (level : Nat) (info : SstMeta) : Option Entry :=
  if 0 < level ∧ (key < info.smallest ∨ info.largest < key) then none
  else (manager.pin info.id).bind fun file => file.sst.getEntryAt key readTs

/-- The file part of `get_at_with_ts`; `best` is the answer of the memtable. -/
def getAt (key : Key) (readTs : Nat) (best : Option Entry) : Option Entry :=
  manager.readOrder.foldl (fun best (level, info) =>
    Entry.stamp.newer best (manager.lookupFile key readTs level info)) best

def addSlices (manager : SstManager) : List (List Entry) → SstManager × Except TakyonicError Unit
  | [] => (manager, .ok ())
  | slice :: rest =>
    let (id, manager) := manager.allocateSstId
    match manager.dir.write ⟨0, id⟩ slice with
    | .error error => (manager, .error error)
    | .ok (dir, file) =>
      match { manager with dir }.addSst file.info with
      | .error error => ({ manager with dir }, .error error)
      | .ok manager => manager.addSlices rest

end SstManager

end Takyonic
