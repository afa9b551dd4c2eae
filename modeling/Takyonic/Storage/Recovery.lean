import Takyonic.Storage.Engine

namespace Takyonic

open Foundation List SstManager SstFile Memtable

theorem SstDir.lookup_mem {dir : SstDir} {file : SstFile} (distinct : (dir.files.map SstFile.id).Nodup)
    (member : file ∈ dir.files) : dir.lookup file.path = some file := by
  cases found : dir.lookup file.path with
  | none =>
    have other := find?_eq_none.mp found file member
    simp at other
  | some other =>
    have same : other.path = file.path := by simpa using find?_some found
    rw [inj_on_of_nodup_map distinct (mem_of_find?_eq_some found) member (congrArg SstPath.id same)]

namespace SstManager

variable {manager after : SstManager} {file : SstFile} {files : List SstFile} {dir : SstDir}
  {levelCount maxSstBytes : Nat}

def Rebuilt (manager : SstManager) : Prop :=
  Catalogued { manager with dir := ⟨manager.active, []⟩ } [] []

/-- The catalog with one more file, as `recover_sst_file` leaves it. -/
def recovered (manager : SstManager) (file : SstFile) : SstManager :=
  ({ manager with active := file :: manager.active }.insertFiles file.path.level [file.info]).ensureNextSstIdAtLeast
    (file.id + 1)

theorem Rebuilt.recovered (rebuilt : manager.Rebuilt) (new : file.id ∉ manager.active.map SstFile.id)
    (inside : file.path.level < manager.levelCount)
    (apart : 0 < file.path.level → ∀ other ∈ manager.levels file.path.level, Apart other file.info) :
    (manager.recovered file).Rebuilt := by
  have promised : Catalogued
      { manager with dir := ⟨manager.active, []⟩, nextId := max manager.nextId (file.id + 1) } [] [file.id] := by
    refine ⟨⟨rebuilt.stored, rebuilt.distinct, rfl⟩, rebuilt.catalog, ?_, fun id member => ?_, rebuilt.placed,
      rebuilt.apart⟩
    · apply nodup_append.mpr
      refine ⟨rebuilt.distinct, nodup_singleton _, fun id known other single same => ?_⟩
      rw [same, mem_singleton.mp single] at known
      exact new known
    · rcases mem_append.mp member with known | single
      · have below := rebuilt.fresh id (mem_append_left _ known)
        exact lt_of_lt_of_le below (le_max_left _ _)
      · rw [mem_singleton.mp single]
        exact lt_of_lt_of_le (Nat.lt_succ_self _) (le_max_right _ _)
  have opened : Catalogued _ ([file.info] ++ []) [] := promised.opened
  have installed := opened.insertFiles inside (by simp [info]) (fun positive =>
    ⟨pairwise_singleton _ _, fun old member info single => mem_singleton.mp single ▸ apart positive old member⟩)
  exact installed

theorem Rebuilt.recoverSstFile (rebuilt : manager.Rebuilt) (found : manager.dir.lookup file.path = some file)
    (new : file.id ∉ manager.active.map SstFile.id) (inside : file.path.level < manager.levelCount) :
    (∃ error, manager.recoverSstFile file.path.level file.id = .error error) ∧ 0 < file.path.level ∧
        (∃ other ∈ manager.levels file.path.level, ¬ Apart other file.info) ∨
      manager.recoverSstFile file.path.level file.id = .ok (manager.recovered file) ∧
        (0 < file.path.level → ∀ other ∈ manager.levels file.path.level, Apart other file.info) := by
  have unpinned : manager.pin file.id = none := by
    apply find?_eq_none.mpr
    intro other active
    simpa using fun same : other.id = file.id => new (same ▸ mem_map_of_mem active)
  have pinned : pin { manager with active := file :: manager.active } file.id = some file := by simp [pin]
  have unlisted : (manager.allFiles.any fun other => decide (other.id = file.info.id)) = false := by
    apply any_eq_false.mpr
    intro other member
    have active : other.id ∈ manager.active.map SstFile.id := rebuilt.id_mem (mem_append_left [] member)
    have different : other.id ≠ file.info.id := by
      intro same
      rw [same] at active
      exact new active
    simpa using different
  have registered : manager.register file.id file.path = .ok { manager with active := file :: manager.active } := by
    simp [register, unpinned, found]
  have checked : checkEntry { manager with active := file :: manager.active } file.info =
      manager.checkEntry file.info := rfl
  unfold SstManager.recoverSstFile
  rw [show (⟨file.path.level, file.id⟩ : SstPath) = file.path from rfl, registered]
  simp only [bind, Except.bind, pinned, checked]
  unfold checkEntry
  rw [if_neg (Nat.not_le_of_gt inside : ¬ manager.levelCount ≤ file.info.level), unlisted]
  by_cases crossing : 0 < file.info.level ∧
      (manager.levels file.info.level).any (·.overlaps file.info.smallest file.info.largest) = true
  · rw [if_pos crossing]
    obtain ⟨other, member, overlapping⟩ := any_eq_true.mp crossing.2
    exact .inl ⟨⟨_, rfl⟩, crossing.1, other, member, not_not.mpr (of_decide_eq_true overlapping)⟩
  · rw [if_neg crossing]
    refine .inr ⟨rfl, fun positive other member overlapping => crossing ⟨positive, ?_⟩⟩
    exact any_eq_true.mpr ⟨other, member, decide_eq_true overlapping⟩

structure Recovers (before after : SstManager) (files : List SstFile) : Prop where
  levelCount : after.levelCount = before.levelCount
  watermark : after.mvccWatermark = before.mvccWatermark
  maxSstBytes : after.maxSstBytes = before.maxSstBytes
  dir : after.dir = before.dir
  active : after.active.Perm (files ++ before.active)

def loadOrder (manager : SstManager) : List SstFile :=
  (range manager.levelCount).flatMap fun level =>
    (manager.dir.files.filter (·.path.level = level)).insertionSort (fun left right => left.id ≤ right.id)

theorem loadOrder_perm (inside : ∀ file ∈ manager.dir.files, file.path.level < manager.levelCount) :
    manager.loadOrder.Perm manager.dir.files := by
  unfold loadOrder
  generalize manager.levelCount = count at inside
  generalize manager.dir.files = files at inside
  induction files with
  | nil => simp
  | cons file files ih =>
    have rest := ih (fun other member => inside other (mem_cons_of_mem _ member))
    apply Perm.trans _ (rest.cons file)
    change Perm _ ([file] ++ flatMap _ _)
    apply flatMap_range_perm (inside file mem_cons_self)
    · apply (perm_insertionSort _ _).trans
      rw [filter_cons_of_pos (by simp)]
      exact (perm_insertionSort _ _).symm.cons file
    · intro other different
      rw [filter_cons_of_neg (by simpa using different.symm)]

theorem levelIds_eq (manager : SstManager) (level : Nat) :
    (manager.levelIds level).map (SstPath.mk level) =
      ((manager.dir.files.filter (·.path.level = level)).insertionSort
        (fun left right => left.id ≤ right.id)).map SstFile.path := by
  unfold levelIds
  rw [← map_insertionSort (fun left right : SstFile => left.id ≤ right.id) (· ≤ ·) SstFile.id _
    (fun _ _ _ _ => Iff.rfl), map_map]
  apply map_congr_left
  intro file member
  have level := of_decide_eq_true (mem_filter.mp ((perm_insertionSort _ _).subset member)).2
  exact level ▸ rfl

theorem recoverExistingSsts_eq (manager : SstManager) : manager.recoverExistingSsts =
    manager.loadOrder.foldlM (fun current file => current.recoverSstFile file.path.level file.id) manager := by
  have nested : ∀ (levels : List Nat) (current : SstManager),
      levels.foldlM (fun current level => (manager.levelIds level).foldlM
        (fun current id => current.recoverSstFile level id) current) current =
      (levels.flatMap fun level => (manager.dir.files.filter (·.path.level = level)).insertionSort
        (fun left right => left.id ≤ right.id)).foldlM
          (fun current file => current.recoverSstFile file.path.level file.id) current := by
    intro levels
    induction levels with
    | nil => exact fun current => rfl
    | cons level levels ih =>
      intro current
      rw [foldlM_cons, flatMap_cons, foldlM_append]
      have here : ∀ current : SstManager,
          (manager.levelIds level).foldlM (fun current id => current.recoverSstFile level id) current =
          ((manager.levelIds level).map (SstPath.mk level)).foldlM
            (fun current path => current.recoverSstFile path.level path.id) current := by
        intro current
        rw [foldlM_map]
      rw [here, levelIds_eq, foldlM_map]
      exact bind_congr ih
  exact nested _ manager

theorem create_rebuilt : (create levelCount 1 maxSstBytes dir).Rebuilt := by
  refine ⟨⟨Perm.refl _, nodup_nil, rfl⟩, ?_, nodup_nil, nofun, nofun, fun _ _ => Pairwise.nil⟩
  simp [create, allFiles]

section

variable (rebuilt : manager.Rebuilt) (found : ∀ file ∈ files, manager.dir.lookup file.path = some file)
  (distinct : (files.map SstFile.id ++ manager.active.map SstFile.id).Nodup)
  (inside : ∀ file ∈ files, file.path.level < manager.levelCount)
include rebuilt found distinct inside

theorem Rebuilt.recoverAll
    (done : files.foldlM (fun current file => current.recoverSstFile file.path.level file.id) manager = .ok after) :
    after.Rebuilt ∧ manager.Recovers after files := by
  induction files generalizing manager with
  | nil =>
    cases done
    exact ⟨rebuilt, rfl, rfl, rfl, rfl, Perm.refl _⟩
  | cons file files ih =>
    obtain ⟨fresh, distinct⟩ := nodup_cons.mp distinct
    have new : file.id ∉ manager.active.map SstFile.id := fun known => fresh (mem_append_right _ known)
    rw [foldlM_cons] at done
    obtain ⟨middle, first, rest⟩ := bind_eq_ok done
    rcases rebuilt.recoverSstFile (found file mem_cons_self) new (inside file mem_cons_self) with
      ⟨⟨error, failed⟩, -⟩ | ⟨loaded, apart⟩
    · rw [failed] at first
      cases first
    · rw [loaded] at first
      cases first
      have next := rebuilt.recovered new (inside file mem_cons_self) apart
      have order : (files.map SstFile.id ++ (file :: manager.active).map SstFile.id).Nodup :=
        nodup_middle.mpr (nodup_cons.mpr ⟨fresh, distinct⟩)
      obtain ⟨done, recovers⟩ := ih next (fun other member => found other (mem_cons_of_mem _ member)) order
        (fun other member => inside other (mem_cons_of_mem _ member)) rest
      refine ⟨done, recovers.levelCount, recovers.watermark, recovers.maxSstBytes, recovers.dir, ?_⟩
      exact recovers.active.trans perm_middle

theorem Rebuilt.recoverAll_ok (apart : (files.map info).Pairwise fun left right =>
      left.level = right.level → 0 < left.level → Apart left right)
    (clear : ∀ file ∈ files, 0 < file.path.level → ∀ other ∈ manager.levels file.path.level, Apart other file.info) :
    ∃ after, files.foldlM (fun current file => current.recoverSstFile file.path.level file.id) manager = .ok after := by
  induction files generalizing manager with
  | nil => exact ⟨manager, rfl⟩
  | cons file files ih =>
    obtain ⟨fresh, distinct⟩ := nodup_cons.mp distinct
    obtain ⟨ahead, apart⟩ := pairwise_cons.mp apart
    have new : file.id ∉ manager.active.map SstFile.id := fun known => fresh (mem_append_right _ known)
    rw [foldlM_cons]
    rcases rebuilt.recoverSstFile (found file mem_cons_self) new (inside file mem_cons_self) with
      ⟨-, positive, other, member, crossing⟩ | ⟨loaded, spaced⟩
    · exact absurd (clear file mem_cons_self positive other member) crossing
    · rw [loaded]
      apply ih (rebuilt.recovered new (inside file mem_cons_self) spaced)
      · exact fun other member => found other (mem_cons_of_mem _ member)
      · exact nodup_middle.mpr (nodup_cons.mpr ⟨fresh, distinct⟩)
      · exact fun other member => inside other (mem_cons_of_mem _ member)
      · exact apart
      · intro later member positive other listed
        by_cases same : later.path.level = file.path.level
        · have listed : other ∈ sortLevel file.path.level (manager.levels file.path.level ++ [file.info]) := by
            simpa [SstManager.recovered, SstManager.insertFiles, SstManager.ensureNextSstIdAtLeast, same] using listed
          rcases mem_append.mp (sortLevel_perm.subset listed) with old | here
          · exact clear later (mem_cons_of_mem _ member) positive other (same ▸ old)
          · rw [mem_singleton.mp here]
            rw [same] at positive
            exact ahead _ (mem_map_of_mem member) same.symm positive
        · apply clear later (mem_cons_of_mem _ member) positive other
          simpa [SstManager.recovered, SstManager.insertFiles, SstManager.ensureNextSstIdAtLeast, same] using listed

end

theorem Catalogued.reopens (catalogued : manager.Catalogued [] []) (maxSstBytes : Nat) :
    ∃ after, (create manager.levelCount 1 maxSstBytes manager.dir).recoverExistingSsts = .ok after := by
  have stored := catalogued.stored
  have catalog : (manager.dir.files.map info).Perm manager.allFiles := by
    have listed := catalogued.catalog
    rw [append_nil] at listed
    exact (stored.map _).trans listed.symm
  have known : ∀ file ∈ manager.dir.files, file.path.level < manager.levelCount ∧
      file.info ∈ manager.levels file.path.level := by
    intro file member
    obtain ⟨level, bound, listed⟩ := mem_flatMap.mp (catalog.subset (mem_map_of_mem member))
    have place : file.path.level = level := catalogued.placed level _ listed
    rw [place]
    exact ⟨mem_range.mp bound, listed⟩
  have order : (create manager.levelCount 1 maxSstBytes manager.dir).loadOrder.Perm manager.dir.files :=
    loadOrder_perm fun file member => (known file member).1
  have distinct : (manager.dir.files.map SstFile.id).Nodup := (stored.map SstFile.id).nodup_iff.mpr catalogued.distinct
  have ids := (order.map SstFile.id).nodup_iff.mpr distinct
  rw [recoverExistingSsts_eq]
  refine create_rebuilt.recoverAll_ok (fun file member => SstDir.lookup_mem distinct (order.subset member)) ?_
    (fun file member => (known file (order.subset member)).1) ?_ nofun
  · show (_ ++ []).Nodup
    rwa [append_nil]
  · rw [pairwise_map]
    refine (pairwise_map.mp ids).imp_of_mem fun {left right} inLeft inRight different same positive => ?_
    have here := (known left (order.subset inLeft)).2
    have there := (known right (order.subset inRight)).2
    rw [← show left.path.level = right.path.level from same] at there
    have : Std.Symm Apart := ⟨fun _ _ => Apart.symm⟩
    exact (catalogued.apart left.path.level positive).forall here there
      fun equal => different (congrArg SstMeta.id equal)

theorem recoverExistingSsts_catalogued (clean : dir.temps = []) (distinct : (dir.files.map SstFile.id).Nodup)
    (inside : ∀ file ∈ dir.files, file.path.level < levelCount)
    (done : (create levelCount 1 maxSstBytes dir).recoverExistingSsts = .ok after) :
    after.Catalogued [] [] ∧ (create levelCount 1 maxSstBytes dir).Recovers after dir.files := by
  rw [recoverExistingSsts_eq] at done
  have order : (create levelCount 1 maxSstBytes dir).loadOrder.Perm dir.files := loadOrder_perm inside
  have ids : ((create levelCount 1 maxSstBytes dir).loadOrder.map SstFile.id ++ []).Nodup := by
    rw [append_nil]
    exact (order.map SstFile.id).nodup_iff.mpr distinct
  obtain ⟨rebuilt, recovers⟩ := create_rebuilt.recoverAll
    (fun file member => SstDir.lookup_mem distinct (order.subset member)) ids
    (fun file member => inside file (order.subset member)) done
  have active : after.active.Perm dir.files := by
    have loaded := recovers.active
    rw [show (create levelCount 1 maxSstBytes dir).active = [] from rfl, append_nil] at loaded
    exact loaded.trans order
  have sameDir : after.dir = dir := recovers.dir
  refine ⟨⟨⟨?_, rebuilt.distinct, ?_⟩, rebuilt.catalog, rebuilt.unused, rebuilt.fresh, rebuilt.placed,
    rebuilt.apart⟩, recovers.levelCount, recovers.watermark, recovers.maxSstBytes, recovers.dir, ?_⟩
  · rw [sameDir]
    exact active.symm
  · rw [sameDir]
    exact clean
  · rw [show (create levelCount 1 maxSstBytes dir).active = [] from rfl, append_nil]
    exact active

end SstManager

section Replaying

variable (xxh3 : Bytes → UInt64) {entry : Entry} {reader : WalReader} {recovered : RecoveredWal}

theorem TxnWal.redoEntries_wellFormed {seq : Nat} {records : List WalRecord} :
    ∀ entry ∈ TxnWal.redoEntries seq records, entry.WellFormed := by
  induction records generalizing seq with
  | nil => exact nofun
  | cons record records ih =>
    intro entry member
    rcases mem_append.mp member with here | later
    · cases record <;> simp_all [WalRecord.redo, Entry.WellFormed, Entry.put, Entry.delete]
    · exact ih entry later

theorem Memtable.foldl_wellFormed {memtable : Memtable} {entries : List Entry}
    (before : ∀ entry ∈ memtable.entries, entry.WellFormed) (new : ∀ entry ∈ entries, entry.WellFormed) :
    ∀ entry ∈ (entries.foldl apply memtable).entries, entry.WellFormed := by
  induction entries generalizing memtable with
  | nil => exact before
  | cons first rest ih =>
    apply ih _ (fun entry member => new entry (mem_cons_of_mem _ member))
    intro entry member
    rcases mem_of_mem_insertVersion member with rfl | old
    · exact new entry mem_cons_self
    · exact before entry old

/-- What `recover_wal` guarantees whatever the files hold. -/
structure RecoveredWal.Usable (recovered : RecoveredWal) : Prop where
  wellFormed : ∀ entry ∈ recovered.memtable.entries, entry.WellFormed
  segments : ∀ segment ∈ recovered.wal, segment.1 ≤ recovered.walSegment

variable {xxh3}

theorem RecoveredWal.Usable.readSegment {after : RecoveredWal} (usable : recovered.Usable)
    {segment : Nat × Bytes} (read : recovered.readSegment xxh3 segment = .ok after) : after.Usable := by
  obtain ⟨reader, _, read⟩ := bind_eq_ok read
  have replayed : ∀ entry ∈ (reader.replay xxh3).2.1, entry.WellFormed :=
    fun entry member => (WalReader.replay_sound xxh3 _ entry member).1
  split at read
  · cases read
  rename_i last entries _ same
  rw [same] at replayed
  cases read
  constructor
  · exact foldl_wellFormed usable.wellFormed replayed
  · refine forall_mem_append.mpr ⟨fun other old => ?_, forall_mem_singleton.mpr (le_max_right _ _)⟩
    exact le_trans (usable.segments other old) (le_max_left _ _)

theorem recoverWal_usable {wal : WalDir} (done : recoverWal xxh3 wal = .ok recovered) : recovered.Usable := by
  obtain ⟨read, loop, done⟩ := bind_eq_ok done
  have usable : read.Usable := by
    generalize wal.insertionSort (fun left right => left.1 ≤ right.1) = segments at loop
    have start : RecoveredWal.Usable ⟨[], empty, 1, 0⟩ := ⟨nofun, nofun⟩
    generalize (⟨[], empty, 1, 0⟩ : RecoveredWal) = current at loop start
    induction segments generalizing current with
    | nil =>
      cases loop
      exact start
    | cons segment segments ih =>
      obtain ⟨next, first, loop⟩ := bind_eq_ok loop
      exact ih next loop (start.readSegment first)
  split at done
  · rename_i unnumbered
    obtain ⟨created, made, done⟩ := bind_eq_ok done
    cases done
    refine ⟨usable.wellFormed, fun segment member => ?_⟩
    unfold WalDir.create at made
    split at made
    · cases made
    · cases made
      rcases mem_append.mp member with old | new
      · have below := usable.segments segment old
        exact Nat.le_trans below (unnumbered ▸ Nat.zero_le 1)
      · rw [mem_singleton.mp new]
  · cases done
    exact usable

end Replaying

end Takyonic
