import Takyonic.Storage.Catalog

namespace Takyonic

open Foundation List Entry

theorem flatMap_range_perm {α : Type} {before after : Nat → List α} {extra : List α} {place count : Nat}
    (inside : place < count) (changed : (after place).Perm (extra ++ before place))
    (same : ∀ other, other ≠ place → after other = before other) :
    ((List.range count).flatMap after).Perm (extra ++ (List.range count).flatMap before) := by
  induction count with
  | zero => exact absurd inside (Nat.not_lt_zero place)
  | succ count ih =>
    simp only [range_succ, flatMap_append, flatMap_singleton]
    by_cases here : place = count
    · subst here
      have earlier : (List.range place).flatMap after = (List.range place).flatMap before := by
        apply flatMap_congr
        intro other member
        exact same other (ne_of_lt (mem_range.mp member))
      rw [earlier]
      apply (changed.append_left _).trans
      rw [← append_assoc, ← append_assoc]
      exact perm_append_comm.append_right _
    · rw [same count (Ne.symm here), ← append_assoc]
      exact (ih (Nat.lt_of_le_of_ne (Nat.le_of_lt_succ inside) here)).append_right _

theorem sortLevel_perm : (sortLevel level files).Perm files := by
  unfold sortLevel
  split
  · exact perm_insertionSort _ _
  · exact perm_insertionSort _ _

structure Sst.Accepts (entries : List Entry) : Prop where
  ordered : Ordered entries
  wellFormed : ∀ entry ∈ entries, entry.WellFormed
  nonempty : entries ≠ []

open Sst

variable {entries : List Entry}

theorem Sst.create_accepted (accepted : Accepts entries) :
    create entries = .ok ⟨entries, accepted.ordered, accepted.wellFormed, accepted.nonempty⟩ := by
  unfold create
  rw [dif_pos accepted.wellFormed, dif_pos accepted.ordered, dif_neg accepted.nonempty]

theorem SstDir.write_accepted {dir : SstDir} {path : SstPath} (accepted : Accepts entries)
    (clean : dir.temps = []) (free : ∀ file ∈ dir.files, file.path ≠ path) :
    let file : SstFile := ⟨path, ⟨entries, accepted.ordered, accepted.wellFormed, accepted.nonempty⟩⟩
    dir.write path entries = .ok (⟨file :: dir.files, []⟩, file) := by
  have kept : dir.files.filter (·.path ≠ path) = dir.files := by
    apply filter_eq_self.mpr
    exact fun file member => decide_eq_true (free file member)
  unfold SstDir.write
  rw [create_accepted accepted]
  simp only [bind, Except.bind, SstDir.apply, kept, clean]
  simp

theorem splitEntriesByMaxBytes_accepted (ordered : Ordered entries)
    (wellFormed : ∀ entry ∈ entries, entry.WellFormed) (maxBytes : Nat) :
    ∀ slice ∈ splitEntriesByMaxBytes entries maxBytes, Accepts slice := by
  intro slice member
  refine ⟨splitEntriesByMaxBytes_ordered ordered maxBytes slice member, fun entry inside => ?_,
    splitEntriesByMaxBytes_nonempty entries maxBytes slice member⟩
  apply wellFormed
  rw [← splitEntriesByMaxBytes_flatten entries maxBytes]
  exact mem_flatten_of_mem member inside

/-- The merged run has the order of a table and is cut into tables, no two of which share a key. -/
theorem kWayMerge_tables (watermark maxBytes : Nat) {runs : List (List Entry)} (ordered : ∀ run ∈ runs, Ordered run) :
    let merged := kWayMerge watermark runs
    let slices := splitEntriesByMaxBytes merged maxBytes
    Ordered merged ∧ merged.Nodup ∧ slices.flatten = merged ∧ (∀ slice ∈ slices, slice ≠ []) ∧
      slices.Pairwise (fun earlier later => ∀ first ∈ earlier, ∀ second ∈ later, first.key ≠ second.key) ∧
      ((∀ entry ∈ runs.flatten, entry.WellFormed) →
        ∀ slice ∈ slices, ∃ sst, create slice = .ok sst ∧ sst.entries = slice) := by
  intro merged slices
  have sorted : Ordered merged := kWayMerge_ordered watermark ordered
  refine ⟨sorted, sorted.imp ?_, splitEntriesByMaxBytes_flatten _ _, splitEntriesByMaxBytes_nonempty _ _, ?_, ?_⟩
  · rintro first second before rfl
    exact lt_irrefl _ before
  · simp only [slices, splitEntriesByMaxBytes]
    split_ifs
    · exact .nil
    · exact pairwise_singleton _ _
    · exact splitLoop_apart sorted
  · intro wellFormed slice member
    have accepted := splitEntriesByMaxBytes_accepted sorted
      (fun entry inside => wellFormed entry (kWayMerge_subset watermark ordered inside)) maxBytes slice member
    exact ⟨_, create_accepted accepted, rfl⟩

theorem kWayMerge_tables_two : ∃ sst, create [.delete ⟨[2]⟩ 2] = .ok sst ∧ sst.entries = [.delete ⟨[2]⟩ 2] :=
  (@kWayMerge_tables 2 64 [[.delete ⟨[1]⟩ 3, .delete ⟨[1]⟩ 1], [.delete ⟨[2]⟩ 2]] (by decide)).2.2.2.2.2 (by decide) _
    (by decide)

namespace SstManager

variable {manager : SstManager} {pending : List SstMeta} {promised : List SstId}

theorem allFiles_insertFiles (manager : SstManager) {level : Nat} (inside : level < manager.levelCount)
    (files : List SstMeta) : (manager.insertFiles level files).allFiles.Perm (files ++ manager.allFiles) := by
  apply flatMap_range_perm inside
  · simp only [insertFiles]
    exact sortLevel_perm.trans perm_append_comm
  · intro other different
    simp only [insertFiles, if_neg different]

def Apart (left right : SstMeta) : Prop := ¬ left.overlaps right.smallest right.largest

theorem Apart.symm {left right : SstMeta} (apart : Apart left right) : Apart right left :=
  fun ⟨below, above⟩ => apart ⟨above, below⟩

structure Backed (manager : SstManager) : Prop where
  stored : manager.dir.files.Perm manager.active
  distinct : (manager.active.map SstFile.id).Nodup
  clean : manager.dir.temps = []

/-- Catalog, registry and directory agree. `pending` are the outputs that are written but not installed,
    `promised` the ids that are given out but not used yet. -/
structure Catalogued (manager : SstManager) (pending : List SstMeta) (promised : List SstId) : Prop
    extends manager.Backed where
  catalog : (manager.allFiles ++ pending).Perm (manager.active.map SstFile.info)
  unused : (manager.active.map SstFile.id ++ promised).Nodup
  fresh : ∀ id ∈ manager.active.map SstFile.id ++ promised, id < manager.nextId
  placed : ∀ level, ∀ info ∈ manager.levels level, info.level = level
  apart : ∀ level, 0 < level → (manager.levels level).Pairwise Apart

def versionsOf (manager : SstManager) (info : SstMeta) : List Entry :=
  (manager.pin info.id).elim [] (·.sst.entries)

def contents (manager : SstManager) : List Entry := manager.allFiles.flatMap manager.versionsOf

section Reading

variable {file : SstFile} {info : SstMeta} {entry : Entry} {key : Key} {start : List Entry} {best : Option Entry}

theorem pin_eq_some (distinct : (manager.active.map SstFile.id).Nodup) {id : SstId} :
    manager.pin id = some file ↔ file ∈ manager.active ∧ file.id = id := by
  unfold pin
  generalize manager.active = active at distinct
  induction active with
  | nil => simp
  | cons first rest ih =>
    obtain ⟨notLater, distinct⟩ := nodup_cons.mp (map_cons ▸ distinct)
    rw [List.find?_cons]
    by_cases here : first.id = id
    · simp only [here, decide_true, Option.some.injEq, mem_cons]
      constructor
      · rintro rfl
        exact ⟨.inl rfl, here⟩
      · rintro ⟨rfl | later, sameId⟩
        · rfl
        · exact absurd (mem_map.mpr ⟨file, later, sameId.trans here.symm⟩) notLater
    · simp only [here, decide_false, mem_cons, ih distinct]
      constructor
      · exact fun found => ⟨.inr found.1, found.2⟩
      · rintro ⟨rfl | later, sameId⟩
        · exact absurd sameId here
        · exact ⟨later, sameId⟩

theorem versionsOf_pinned (pinned : manager.pin info.id = some file) :
    manager.versionsOf info = file.sst.entries := by
  rw [versionsOf, pinned]
  rfl

theorem Catalogued.pinned (catalogued : manager.Catalogued pending promised)
    (member : info ∈ manager.allFiles ++ pending) :
    ∃ file, manager.pin info.id = some file ∧ file ∈ manager.active ∧ file.info = info := by
  obtain ⟨file, inside, same⟩ := mem_map.mp (catalogued.catalog.subset member)
  refine ⟨file, (pin_eq_some catalogued.distinct).mpr ⟨inside, ?_⟩, inside, same⟩
  exact congrArg SstMeta.id same

theorem Catalogued.mem_contents (catalogued : manager.Catalogued pending promised) :
    entry ∈ manager.contents ↔ ∃ file ∈ manager.active, file.info ∈ manager.allFiles ∧ entry ∈ file.sst.entries := by
  unfold contents
  rw [mem_flatMap]
  constructor
  · rintro ⟨info, member, inside⟩
    obtain ⟨file, pinned, active, rfl⟩ := catalogued.pinned (mem_append_left _ member)
    rw [versionsOf_pinned pinned] at inside
    exact ⟨file, active, member, inside⟩
  · rintro ⟨file, active, member, inside⟩
    have pinned : manager.pin file.info.id = some file := (pin_eq_some catalogued.distinct).mpr ⟨active, rfl⟩
    refine ⟨file.info, member, ?_⟩
    rwa [versionsOf_pinned pinned]

theorem Catalogued.mem_installed (catalogued : manager.Catalogued [] promised) :
    entry ∈ manager.contents ↔ ∃ file ∈ manager.active, entry ∈ file.sst.entries := by
  have listed := catalogued.catalog
  rw [append_nil] at listed
  rw [catalogued.mem_contents]
  refine exists_congr fun file => and_congr_right fun active => and_iff_right ?_
  exact listed.symm.subset (mem_map_of_mem active)

theorem lookupFile_isNewest (pinned : manager.pin info.id = some file) (same : file.info = info) (key : Key)
    (readTs level : Nat) :
    stamp.IsNewest file.sst.entries key readTs (manager.lookupFile key readTs level info) := by
  subst same
  unfold lookupFile
  split
  · rename_i outside
    apply Stamp.IsNewest.absent
    rintro entry member rfl
    rcases outside.2 with before | after
    · exact absurd (file.sst.smallest_le member) (not_le_of_gt before)
    · exact absurd (file.sst.le_largest member) (not_le_of_gt after)
  · rw [pinned]
    exact file.sst.ordered.firstFrom_isNewest key readTs

theorem isNewest_foldl {ι : Type} {bound : Nat} {items : List ι} {versions : ι → List Entry}
    {answer : ι → Option Entry} (each : ∀ item ∈ items, stamp.IsNewest (versions item) key bound (answer item))
    (newest : stamp.IsNewest start key bound best) :
    stamp.IsNewest (start ++ items.flatMap versions) key bound
      (items.foldl (fun best item => stamp.newer best (answer item)) best) := by
  induction items generalizing start best with
  | nil => simpa using newest
  | cons item items ih =>
    have next := newest.union (each item mem_cons_self)
    have rest := ih (fun other member => each other (mem_cons_of_mem _ member)) next
    rwa [append_assoc, ← flatMap_cons] at rest

theorem mem_readOrder {level : Nat} :
    (level, info) ∈ manager.readOrder ↔ level < manager.levelCount ∧ info ∈ manager.levels level := by
  unfold readOrder
  simp only [mem_flatMap, mem_range, mem_map, Prod.mk.injEq]
  constructor
  · rintro ⟨place, inside, found, member, rfl, rfl⟩
    refine ⟨inside, ?_⟩
    split at member
    · rename_i zero
      subst zero
      exact (perm_insertionSort _ _).subset member
    · exact member
  · rintro ⟨inside, member⟩
    refine ⟨level, inside, info, ?_, rfl, rfl⟩
    split
    · rename_i zero
      subst zero
      exact (perm_insertionSort _ _).symm.subset member
    · exact member

theorem Catalogued.getAt_isNewest (catalogued : manager.Catalogued pending promised) {readTs : Nat}
    (newest : stamp.IsNewest start key readTs best) :
    stamp.IsNewest (start ++ manager.contents) key readTs (manager.getAt key readTs best) := by
  have each : ∀ place ∈ manager.readOrder, stamp.IsNewest (manager.versionsOf place.2) key readTs
      (manager.lookupFile key readTs place.1 place.2) := by
    rintro ⟨level, info⟩ member
    obtain ⟨inside, member⟩ := mem_readOrder.mp member
    have inCatalog : info ∈ manager.allFiles := mem_flatMap.mpr ⟨level, mem_range.mpr inside, member⟩
    obtain ⟨file, pinned, -, same⟩ := catalogued.pinned (mem_append_left pending inCatalog)
    rw [versionsOf_pinned pinned]
    exact lookupFile_isNewest pinned same key readTs level
  have whole := isNewest_foldl each newest
  have members : ∀ entry, entry ∈ manager.contents ↔
      entry ∈ manager.readOrder.flatMap fun place => manager.versionsOf place.2 := by
    intro entry
    simp only [contents, allFiles, mem_flatMap, mem_range, Prod.exists, mem_readOrder]
    constructor
    · rintro ⟨info, ⟨level, inside, member⟩, found⟩
      exact ⟨level, info, ⟨inside, member⟩, found⟩
    · rintro ⟨level, info, ⟨inside, member⟩, found⟩
      exact ⟨info, ⟨level, inside, member⟩, found⟩
  refine whole.congr fun entry _ => ?_
  rw [mem_append, mem_append, members]

end Reading

variable {middle after : SstManager} {others outputs left right : List SstMeta} {file : SstFile} {info : SstMeta}

def opened (manager : SstManager) (file : SstFile) : SstManager :=
  { manager with active := file :: manager.active, dir := ⟨file :: manager.dir.files, []⟩ }

structure Grown (manager after : SstManager) (files : List SstFile) : Prop where
  levelCount : after.levelCount = manager.levelCount
  levels : after.levels = manager.levels
  reserved : after.reserved = manager.reserved
  watermark : after.mvccWatermark = manager.mvccWatermark
  maxSstBytes : after.maxSstBytes = manager.maxSstBytes
  active : after.active.Perm (files ++ manager.active)

section Opening

variable {id : SstId} {files more : List SstFile}

section

variable (catalogued : manager.Catalogued pending promised)
include catalogued

theorem Catalogued.free (given : id ∈ promised) (member : file ∈ manager.active) : file.id ≠ id := by
  rintro rfl
  exact (nodup_append.mp catalogued.unused).2.2 _ (mem_map_of_mem member) _ given rfl

theorem Catalogued.pin_promised (given : id ∈ promised) : manager.pin id = none := by
  unfold pin
  rw [List.find?_eq_none]
  intro file member
  simpa using catalogued.free given member

theorem Catalogued.write_open (given : id ∈ promised) (level : Nat) (accepted : Accepts entries) :
    let file : SstFile :=
      ⟨⟨level, id⟩, ⟨entries, accepted.ordered, accepted.wellFormed, accepted.nonempty⟩⟩
    manager.dir.write ⟨level, id⟩ entries = .ok (⟨file :: manager.dir.files, []⟩, file) ∧
      { manager with dir := ⟨file :: manager.dir.files, []⟩ }.register id ⟨level, id⟩ = .ok (manager.opened file) := by
  intro file
  constructor
  · apply SstDir.write_accepted accepted catalogued.clean
    intro other member same
    apply catalogued.free given (catalogued.stored.subset member)
    exact congrArg SstPath.id same
  · have absent : SstManager.pin { manager with dir := ⟨file :: manager.dir.files, []⟩ } id = none :=
      catalogued.pin_promised given
    unfold register
    simp only [absent, Option.isSome_none, Bool.false_eq_true, if_false, SstDir.lookup, List.find?_cons, file,
      decide_true, opened]

end

theorem Catalogued.opened (catalogued : manager.Catalogued pending (file.id :: promised)) :
    (manager.opened file).Catalogued (pending ++ [file.info]) promised := by
  have ids : ((file :: manager.active).map SstFile.id ++ promised).Perm
      (manager.active.map SstFile.id ++ file.id :: promised) := perm_middle.symm
  have unused := ids.nodup_iff.mpr catalogued.unused
  refine ⟨⟨catalogued.stored.cons file, (nodup_append.mp unused).1, rfl⟩, ?_, unused, ?_,
    catalogued.placed, catalogued.apart⟩
  · rw [← append_assoc]
    exact perm_append_comm.trans (catalogued.catalog.cons file.info)
  · intro id member
    exact catalogued.fresh id (ids.subset member)

section

variable (catalogued : manager.Catalogued pending promised)
include catalogued

theorem Catalogued.allocate : manager.allocateSstId.2.Catalogued pending (manager.nextId :: promised) := by
  have unknown : manager.nextId ∉ manager.active.map SstFile.id ++ promised :=
    fun member => lt_irrefl _ (catalogued.fresh _ member)
  have ids : (manager.active.map SstFile.id ++ manager.nextId :: promised).Perm
      (manager.nextId :: (manager.active.map SstFile.id ++ promised)) := perm_middle
  refine ⟨⟨catalogued.stored, catalogued.distinct, catalogued.clean⟩, catalogued.catalog, ?_, ?_,
    catalogued.placed, catalogued.apart⟩
  · exact ids.nodup_iff.mpr (nodup_cons.mpr ⟨unknown, catalogued.unused⟩)
  · intro id member
    rcases mem_cons.mp (ids.subset member) with rfl | known
    · exact Nat.lt_succ_self _
    · exact Nat.lt_succ_of_lt (catalogued.fresh id known)

theorem Catalogued.pending_perm (perm : others.Perm pending) :
    manager.Catalogued others promised :=
  { catalogued with catalog := (perm.append_left _).trans catalogued.catalog }

theorem Catalogued.promised_perm {others : List SstId} (perm : others.Perm promised) :
    manager.Catalogued pending others :=
  ⟨catalogued.toBacked, catalogued.catalog, (perm.append_left _).nodup_iff.mpr catalogued.unused,
    fun id member => catalogued.fresh id ((perm.append_left _).subset member), catalogued.placed, catalogued.apart⟩

end

theorem Catalogued.forget (catalogued : manager.Catalogued pending (id :: promised)) :
    manager.Catalogued pending promised := by
  have sublist : (manager.active.map SstFile.id ++ promised).Sublist
      (manager.active.map SstFile.id ++ id :: promised) := (sublist_cons_self _ _).append_left _
  exact ⟨⟨catalogued.stored, catalogued.distinct, catalogued.clean⟩, catalogued.catalog,
    catalogued.unused.sublist sublist, fun other member => catalogued.fresh other (sublist.subset member),
    catalogued.placed, catalogued.apart⟩

theorem Grown.trans (first : manager.Grown middle files)
    (second : middle.Grown after more) : manager.Grown after (files ++ more) := by
  refine ⟨second.levelCount.trans first.levelCount, second.levels.trans first.levels,
    second.reserved.trans first.reserved, second.watermark.trans first.watermark,
    second.maxSstBytes.trans first.maxSstBytes, ?_⟩
  apply second.active.trans
  apply (first.active.append_left more).trans
  rw [← append_assoc]
  exact perm_append_comm.append_right _

theorem Grown.opened (manager : SstManager) (file : SstFile) : manager.Grown (manager.opened file) [file] :=
  ⟨rfl, rfl, rfl, rfl, rfl, List.Perm.refl _⟩

theorem Grown.allocate (manager : SstManager) : manager.Grown manager.allocateSstId.2 [] :=
  ⟨rfl, rfl, rfl, rfl, rfl, List.Perm.refl _⟩

theorem Catalogued.writeOutputs
    (catalogued : manager.Catalogued (pending ++ outputs) (id :: promised)) {slices : List (List Entry)}
    (accepted : ∀ slice ∈ slices, Accepts slice) (some : slices ≠ []) (level : Nat) :
    ∃ after files, writeOutputs level id outputs slices manager = (after, .ok (outputs ++ files.map SstFile.info)) ∧
      files.map (·.sst.entries) = slices ∧ (∀ file ∈ files, file.path.level = level) ∧
      manager.Grown after files ∧ after.Catalogued (pending ++ (outputs ++ files.map SstFile.info)) promised := by
  induction slices generalizing manager id outputs with
  | nil => exact absurd rfl some
  | cons slice rest ih =>
    have acceptedHere := accepted slice mem_cons_self
    obtain ⟨written, registered⟩ := catalogued.write_open mem_cons_self level acceptedHere
    generalize here : (⟨⟨level, id⟩, ⟨slice, acceptedHere.ordered, acceptedHere.wellFormed,
      acceptedHere.nonempty⟩⟩ : SstFile) = file at written registered
    have catalogued : (manager.opened file).Catalogued (pending ++ (outputs ++ [file.info])) promised := by
      rw [← append_assoc]
      subst here
      exact Catalogued.opened catalogued
    unfold SstManager.writeOutputs
    simp only [written, registered]
    by_cases last : rest = []
    · rw [if_pos last]
      refine ⟨_, [file], rfl, ?_, ?_, Grown.opened manager file, catalogued⟩
      · subst here last
        rfl
      · subst here
        simp
    · rw [if_neg last]
      obtain ⟨after, files, result, entries, levels, grown, done⟩ :=
        ih catalogued.allocate (fun slice member => accepted slice (mem_cons_of_mem _ member)) last
      refine ⟨after, file :: files, ?_, ?_, ?_, ?_, ?_⟩
      · rw [result, append_assoc]
        rfl
      · subst here
        rw [map_cons, entries]
      · subst here
        simpa using levels
      · exact (Grown.opened manager file).trans ((Grown.allocate _).trans grown)
      · rwa [append_assoc] at done

end Opening

theorem Apart.pairwise_perm (perm : left.Perm right) (apart : right.Pairwise Apart) :
    left.Pairwise Apart := (perm.pairwise_iff Apart.symm).mpr apart

theorem Catalogued.insertFiles {level : Nat} {files : List SstMeta}
    (catalogued : manager.Catalogued (files ++ pending) promised) (inside : level < manager.levelCount)
    (placed : ∀ info ∈ files, info.level = level)
    (apart : 0 < level → files.Pairwise Apart ∧ ∀ old ∈ manager.levels level, ∀ info ∈ files, Apart old info) :
    (manager.insertFiles level files).Catalogued pending promised := by
  have here : (manager.insertFiles level files).levels level = sortLevel level (manager.levels level ++ files) := by
    simp [SstManager.insertFiles]
  have elsewhere : ∀ other, other ≠ level → (manager.insertFiles level files).levels other = manager.levels other := by
    intro other different
    simp [SstManager.insertFiles, different]
  refine ⟨⟨catalogued.stored, catalogued.distinct, catalogued.clean⟩, ?_, catalogued.unused, catalogued.fresh, ?_, ?_⟩
  · apply ((allFiles_insertFiles manager inside files).append_right pending).trans
    apply List.Perm.trans _ catalogued.catalog
    rw [← append_assoc]
    exact perm_append_comm.append_right pending
  · intro other info member
    by_cases same : other = level
    · subst same
      rw [here] at member
      rcases mem_append.mp (sortLevel_perm.subset member) with old | new
      · exact catalogued.placed other info old
      · exact placed info new
    · rw [elsewhere other same] at member
      exact catalogued.placed other info member
  · intro other positive
    by_cases same : other = level
    · subst same
      rw [here]
      apply Apart.pairwise_perm sortLevel_perm
      obtain ⟨among, across⟩ := apart positive
      exact pairwise_append.mpr ⟨catalogued.apart other positive, among, across⟩
    · rw [elsewhere other same]
      exact catalogued.apart other positive

theorem Catalogued.id_mem (catalogued : manager.Catalogued pending promised)
    (member : info ∈ manager.allFiles ++ pending) : info.id ∈ manager.active.map SstFile.id := by
  obtain ⟨file, -, active, same⟩ := catalogued.pinned member
  exact mem_map.mpr ⟨file, active, congrArg SstMeta.id same⟩

theorem Catalogued.checkEntry (catalogued : manager.Catalogued pending promised) {id : SstId}
    (given : id ∈ promised) (inside : 0 < manager.levelCount) (sameId : info.id = id)
    (bottom : info.level = 0) : manager.checkEntry info = .ok () := by
  have unlisted : (manager.allFiles.any fun file => decide (file.id = info.id)) = false := by
    apply any_eq_false.mpr
    intro other member
    have inActive := catalogued.id_mem (mem_append_left pending member)
    have different := (nodup_append.mp catalogued.unused).2.2 _ inActive _ given
    simpa [sameId] using different
  simp [SstManager.checkEntry, bottom, Nat.not_le_of_gt inside, unlisted]

structure Flushed (manager after : SstManager) (files : List SstFile) : Prop where
  levelCount : after.levelCount = manager.levelCount
  reserved : after.reserved = manager.reserved
  watermark : after.mvccWatermark = manager.mvccWatermark
  maxSstBytes : after.maxSstBytes = manager.maxSstBytes
  active : after.active.Perm (files ++ manager.active)
  catalog : after.allFiles.Perm (files.map SstFile.info ++ manager.allFiles)
  bottom : ∀ file ∈ files, file.path.level = 0

theorem Catalogued.addSlices (catalogued : manager.Catalogued pending promised) {slices : List (List Entry)}
    (accepted : ∀ slice ∈ slices, Accepts slice) (inside : 0 < manager.levelCount) :
    ∃ after files, manager.addSlices slices = (after, .ok ()) ∧ files.map (·.sst.entries) = slices ∧
      manager.Flushed after files ∧ after.Catalogued pending promised := by
  induction slices generalizing manager with
  | nil => exact ⟨manager, [], rfl, rfl, ⟨rfl, rfl, rfl, rfl, List.Perm.refl _, List.Perm.refl _, nofun⟩, catalogued⟩
  | cons slice rest ih =>
    have acceptedHere := accepted slice mem_cons_self
    have allocated := catalogued.allocate
    obtain ⟨written, registered⟩ := allocated.write_open mem_cons_self 0 acceptedHere
    generalize here : (⟨⟨0, manager.nextId⟩, ⟨slice, acceptedHere.ordered, acceptedHere.wellFormed,
      acceptedHere.nonempty⟩⟩ : SstFile) = file at written registered
    have path : file.path = ⟨0, manager.nextId⟩ := by rw [← here]
    have level : file.info.level = 0 := congrArg SstPath.level path
    have id : file.info.id = manager.nextId := congrArg SstPath.id path
    have opened : (manager.allocateSstId.2.opened file).Catalogued ([file.info] ++ pending) promised := by
      subst here
      exact allocated.opened.pending_perm perm_append_comm
    have next : ((manager.allocateSstId.2.opened file).insertFiles 0 [file.info]).Catalogued pending promised :=
      opened.insertFiles inside (by simpa using level) (fun positive => absurd positive (lt_irrefl 0))
    have checked : SstManager.checkEntry
        { manager.allocateSstId.2 with dir := ⟨file :: manager.allocateSstId.2.dir.files, []⟩ } file.info = .ok () :=
      allocated.checkEntry mem_cons_self inside id level
    obtain ⟨after, files, result, entries, flushed, done⟩ :=
      ih next (fun slice member => accepted slice (mem_cons_of_mem _ member)) inside
    refine ⟨after, file :: files, ?_, ?_, ?_, done⟩
    · have added : SstManager.addSst
          { manager.allocateSstId.2 with dir := ⟨file :: manager.allocateSstId.2.dir.files, []⟩ } file.info =
          .ok ((manager.allocateSstId.2.opened file).insertFiles 0 [file.info]) := by
        unfold addSst
        have atPath : file.info.path = ⟨0, manager.nextId⟩ := path
        rw [checked, atPath, id, level]
        simp only [bind, Except.bind, registered]
      unfold SstManager.addSlices
      simp only [SstManager.allocateSstId] at written added ⊢
      simp only [written, added]
      exact result
    · rw [map_cons, entries, ← here]
    · refine ⟨flushed.levelCount, flushed.reserved, flushed.watermark, flushed.maxSstBytes, ?_, ?_,
        forall_mem_cons.mpr ⟨level, flushed.bottom⟩⟩
      · exact flushed.active.trans perm_middle
      · apply flushed.catalog.trans
        have inserted : ((manager.allocateSstId.2.opened file).insertFiles 0 [file.info]).allFiles.Perm
            ([file.info] ++ manager.allFiles) := allFiles_insertFiles _ inside _
        exact (inserted.append_left _).trans perm_middle

end SstManager

end Takyonic
