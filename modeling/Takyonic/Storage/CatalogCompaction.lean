import Takyonic.Storage.CatalogWrites

namespace Takyonic

open Foundation List SstManager Entry SstFile Stamp

namespace SstManager

variable {manager after : SstManager} {pending dropped : List SstMeta} {promised ids : List SstId}
  {files : List SstFile}

section Versions

variable {info : SstMeta}

theorem pin_of_mem (distinct : (manager.active.map SstFile.id).Nodup) {file : SstFile}
    (active : file ∈ manager.active) (same : file.info = info) : manager.pin info.id = some file :=
  (pin_eq_some distinct).mpr ⟨active, congrArg SstMeta.id same⟩

theorem Catalogued.versionsOf_eq (catalogued : manager.Catalogued pending promised) (backed : after.Backed)
    (member : info ∈ manager.allFiles ++ pending)
    (stays : ∀ file ∈ manager.active, file.info = info → file ∈ after.active) :
    after.versionsOf info = manager.versionsOf info := by
  obtain ⟨file, pinned, active, same⟩ := catalogued.pinned member
  rw [versionsOf_pinned pinned, versionsOf_pinned (pin_of_mem backed.distinct (stays file active same) same)]

theorem Grown.allFiles (grown : manager.Grown after files) : after.allFiles = manager.allFiles := by
  rw [SstManager.allFiles, SstManager.allFiles, grown.levelCount, grown.levels]

section

variable (catalogued : manager.Catalogued pending promised) (backed : after.Backed)
include catalogued backed

theorem Grown.versionsOf (grown : manager.Grown after files) (member : info ∈ manager.allFiles ++ pending) :
    after.versionsOf info = manager.versionsOf info :=
  catalogued.versionsOf_eq backed member (fun _ active _ => grown.active.symm.subset (mem_append_right _ active))

theorem Grown.contents (grown : manager.Grown after files) : after.contents = manager.contents := by
  rw [SstManager.contents, grown.allFiles]
  apply flatMap_congr
  exact fun info member => grown.versionsOf catalogued backed (mem_append_left _ member)

theorem Flushed.versionsOf (flushed : manager.Flushed after files) (member : info ∈ manager.allFiles ++ pending) :
    after.versionsOf info = manager.versionsOf info :=
  catalogued.versionsOf_eq backed member (fun _ active _ => flushed.active.symm.subset (mem_append_right _ active))

end

theorem flatMap_versionsOf_info (distinct : (manager.active.map SstFile.id).Nodup) (stays : files ⊆ manager.active) :
    (files.map SstFile.info).flatMap manager.versionsOf = files.flatMap (·.sst.entries) := by
  rw [flatMap_map]
  apply flatMap_congr
  exact fun file member => versionsOf_pinned (pin_of_mem distinct (stays member) rfl)

theorem Flushed.mem_contents (flushed : manager.Flushed after files) (catalogued : manager.Catalogued pending promised)
    (backed : after.Backed) {entry : Entry} :
    entry ∈ after.contents ↔ entry ∈ files.flatMap (·.sst.entries) ∨ entry ∈ manager.contents := by
  have stays : files ⊆ after.active := fun file member => flushed.active.symm.subset (mem_append_left _ member)
  have split : entry ∈ after.contents ↔
      entry ∈ (files.map SstFile.info ++ manager.allFiles).flatMap after.versionsOf := by
    simp only [contents, mem_flatMap, flushed.catalog.mem_iff]
  have old : manager.allFiles.flatMap after.versionsOf = manager.contents := by
    apply flatMap_congr
    exact fun info member => flushed.versionsOf catalogued backed (mem_append_left _ member)
  rw [split, flatMap_append, mem_append, old, flatMap_versionsOf_info backed.distinct stays]

end Versions

theorem Backed.retire (backed : manager.Backed) (id : SstId) : ∃ dir : SstDir,
    manager.retire id = { manager with active := manager.active.filter (·.id ≠ id), dir } ∧
      dir.files.Perm (manager.active.filter (·.id ≠ id)) ∧ dir.temps = [] := by
  unfold SstManager.retire
  cases found : manager.pin id with
  | none =>
    have kept : manager.active.filter (·.id ≠ id) = manager.active := by
      apply filter_eq_self.mpr
      intro file member
      have different := List.find?_eq_none.mp found file member
      simpa using different
    rw [kept]
    exact ⟨manager.dir, rfl, backed.stored, backed.clean⟩
  | some file =>
    obtain ⟨active, sameId⟩ := (pin_eq_some backed.distinct).mp found
    refine ⟨manager.dir.apply (.unlink file.path), rfl, ?_, backed.clean⟩
    have samePredicate : manager.dir.files.filter (·.path ≠ file.path) = manager.dir.files.filter (·.id ≠ id) := by
      apply filter_congr
      intro other member
      have iff : other.path = file.path ↔ other.id = id := by
        constructor
        · exact fun same => (congrArg SstPath.id same).trans sameId
        · intro same
          have inActive := backed.stored.subset member
          have equal := (pin_eq_some backed.distinct).mpr ⟨inActive, same⟩
          rw [found] at equal
          exact congrArg path (Option.some.inj equal).symm
      simp [iff]
    show (manager.dir.files.filter (·.path ≠ file.path)).Perm _
    rw [samePredicate]
    exact backed.stored.filter _

theorem Backed.retireAll (backed : manager.Backed) (ids : List SstId) : ∃ dir : SstDir,
    ids.foldl SstManager.retire manager = { manager with active := manager.active.filter (·.id ∉ ids), dir } ∧
      dir.files.Perm (manager.active.filter (·.id ∉ ids)) ∧ dir.temps = [] := by
  induction ids generalizing manager with
  | nil =>
    have kept : manager.active.filter (fun file => decide (file.id ∉ ([] : List SstId))) = manager.active := by simp
    rw [kept]
    exact ⟨manager.dir, rfl, backed.stored, backed.clean⟩
  | cons id ids ih =>
    obtain ⟨dir, retired, stored, clean⟩ := backed.retire id
    have distinct : ((manager.active.filter (·.id ≠ id)).map SstFile.id).Nodup :=
      backed.distinct.sublist (filter_sublist.map _)
    rw [foldl_cons, retired]
    have next : Backed { manager with active := manager.active.filter (·.id ≠ id), dir } :=
      ⟨stored, distinct, clean⟩
    obtain ⟨dir', retiredAll, stored', clean'⟩ := ih next
    have both : (manager.active.filter (·.id ≠ id)).filter (·.id ∉ ids) =
        manager.active.filter (·.id ∉ id :: ids) := by
      rw [filter_filter]
      apply filter_congr
      intro file _
      by_cases first : file.id = id
      · simp [first]
      · simp [first]
    rw [← both]
    exact ⟨dir', retiredAll, stored', clean'⟩

theorem Catalogued.distinctIds (catalogued : manager.Catalogued pending promised) :
    ((manager.allFiles ++ pending).map SstMeta.id).Nodup := by
  have ids := catalogued.catalog.map SstMeta.id
  rw [map_map] at ids
  exact ids.nodup_iff.mpr catalogued.distinct

theorem Catalogued.drop (catalogued : manager.Catalogued (dropped ++ pending) promised)
    (gone : ∀ info ∈ dropped, info.id ∈ ids) (stays : ∀ info ∈ manager.allFiles ++ pending, info.id ∉ ids) :
    (ids.foldl SstManager.retire manager).Catalogued pending promised := by
  obtain ⟨dir, retired, stored, clean⟩ := catalogued.toBacked.retireAll ids
  rw [retired]
  have sublist : (manager.active.filter (·.id ∉ ids)).Sublist manager.active := filter_sublist
  have ids' : ((manager.active.filter (·.id ∉ ids)).map SstFile.id ++ promised).Sublist
      (manager.active.map SstFile.id ++ promised) := (sublist.map _).append_right _
  refine ⟨⟨stored, catalogued.distinct.sublist (sublist.map _), clean⟩, ?_, catalogued.unused.sublist ids',
    fun id member => catalogued.fresh id (ids'.subset member), catalogued.placed, catalogued.apart⟩
  have filtered := catalogued.catalog.filter (fun info => decide (info.id ∉ ids))
  rw [filter_map, filter_append, filter_append] at filtered
  have droppedOut : dropped.filter (fun info => decide (info.id ∉ ids)) = [] := by
    apply filter_eq_nil_iff.mpr
    intro info member
    simpa using gone info member
  have keptFiles : manager.allFiles.filter (fun info => decide (info.id ∉ ids)) = manager.allFiles := by
    apply filter_eq_self.mpr
    exact fun info member => decide_eq_true (stays info (mem_append_left _ member))
  have keptPending : pending.filter (fun info => decide (info.id ∉ ids)) = pending := by
    apply filter_eq_self.mpr
    exact fun info member => decide_eq_true (stays info (mem_append_right _ member))
  rw [droppedOut, keptFiles, keptPending] at filtered
  exact filtered

section Installing

variable {plan : CompactionPlan} {outputs : List SstMeta}

theorem checkOutput_none {output : SstMeta} (checked : manager.checkOutput plan output = none) :
    output.level = plan.outputLevel ∧
      ∀ file ∈ manager.levels plan.outputLevel, file.id ∉ plan.reserved → Apart file output := by
  unfold checkOutput at checked
  split at checked
  · cases checked
  rename_i sameLevel
  rw [not_not.mp sameLevel] at checked
  split at checked
  · cases checked
  · rename_i apart
    refine ⟨not_not.mp sameLevel, fun file member unreserved overlap => apart ?_⟩
    exact any_eq_true.mpr ⟨file, member, decide_eq_true ⟨unreserved, overlap⟩⟩

theorem installOutputs_ok (installed : manager.installOutputs plan outputs = .ok after) :
    (∀ id ∈ plan.reserved, id ∈ manager.reserved) ∧ (∀ output ∈ outputs, output.level = plan.outputLevel) ∧
      (∀ output ∈ outputs, ∀ file ∈ manager.levels plan.outputLevel, file.id ∉ plan.reserved → Apart file output) ∧
      (0 < plan.outputLevel → outputs.Pairwise Apart) ∧
      after = abort (insertFiles
        { manager with levels := fun level => (manager.levels level).filter (·.id ∉ plan.reserved) }
        plan.outputLevel outputs) plan := by
  unfold installOutputs at installed
  split at installed
  · cases installed
  split at installed
  · cases installed
  rename_i reserved
  split at installed
  · cases installed
  split at installed
  · cases installed
  rename_i checked
  split at installed
  · cases installed
  rename_i among
  have each : ∀ output ∈ outputs, manager.checkOutput plan output = none := by
    apply List.findSome?_eq_none_iff.mp
    exact Option.eq_none_iff_forall_ne_some.mpr checked
  refine ⟨not_not.mp reserved, fun output member => (checkOutput_none (each output member)).1,
    fun output member => (checkOutput_none (each output member)).2, fun positive => ?_,
    (Except.ok.inj installed).symm⟩
  by_contra overlap
  exact among ⟨positive, overlap⟩

theorem abort_allFiles (manager : SstManager) (plan : CompactionPlan) :
    (manager.abort plan).allFiles = manager.allFiles := rfl

variable (catalogued : manager.Catalogued (outputs ++ pending) promised)
include catalogued

theorem Catalogued.install (inside : plan.outputLevel < manager.levelCount)
    (installed : manager.installOutputs plan outputs = .ok after) :
    after.allFiles.Perm (outputs ++ manager.allFiles.filter (·.id ∉ plan.reserved)) ∧
      after.Catalogued (manager.allFiles.filter (·.id ∈ plan.reserved) ++ pending) promised := by
  obtain ⟨-, sameLevel, across, among, rfl⟩ := installOutputs_ok installed
  generalize here : ({ manager with
    levels := fun level => (manager.levels level).filter (·.id ∉ plan.reserved) } : SstManager) = kept
  have keptFiles : kept.allFiles = manager.allFiles.filter (·.id ∉ plan.reserved) := by
    subst here
    simp only [allFiles, filter_flatMap]
  have split : (manager.allFiles.filter (·.id ∉ plan.reserved) ++
      manager.allFiles.filter (·.id ∈ plan.reserved)).Perm manager.allFiles := by
    apply perm_append_comm.trans
    simpa using filter_append_perm (fun info : SstMeta => decide (info.id ∈ plan.reserved)) manager.allFiles
  have keptCatalogued :
      kept.Catalogued (outputs ++ (manager.allFiles.filter (·.id ∈ plan.reserved) ++ pending)) promised := by
    refine ⟨?_, ?_, ?_, ?_, ?_, ?_⟩
    · subst here
      exact ⟨catalogued.stored, catalogued.distinct, catalogued.clean⟩
    · rw [keptFiles]
      have active : kept.active = manager.active := by
        subst here
        rfl
      rw [active]
      apply ((perm_append_comm_assoc outputs _ pending).append_left _).trans
      rw [← append_assoc]
      exact (split.append_right _).trans catalogued.catalog
    · subst here
      exact catalogued.unused
    · subst here
      exact catalogued.fresh
    · subst here
      exact fun level info member => catalogued.placed level info (mem_of_mem_filter member)
    · subst here
      exact fun level positive => (catalogued.apart level positive).sublist filter_sublist
  have inside' : plan.outputLevel < kept.levelCount := by
    subst here
    exact inside
  constructor
  · rw [← keptFiles]
    exact allFiles_insertFiles kept inside' outputs
  · have done := keptCatalogued.insertFiles inside' sameLevel (fun positive => ⟨among positive,
      fun old member info new => by
      subst here
      exact across info new old (mem_of_mem_filter member) (of_decide_eq_true (mem_filter.mp member).2)⟩)
    exact { done with }

theorem Catalogued.finishPlan (inside : plan.outputLevel < manager.levelCount)
    (inputs : plan.inputs ⊆ manager.allFiles) :
    ∃ after result, manager.finishPlan plan outputs = (after, result) ∧ after.Catalogued pending promised ∧
      after.active ⊆ manager.active ∧ after.levelCount = manager.levelCount ∧
      after.reserved = manager.reserved.filter (· ∉ plan.reserved) ∧
      after.mvccWatermark = manager.mvccWatermark ∧ after.maxSstBytes = manager.maxSstBytes ∧
      (after.allFiles.Perm (outputs ++ manager.allFiles.filter (·.id ∉ plan.reserved)) ∨
        after.allFiles = manager.allFiles) := by
  have apart := catalogued.distinctIds
  rw [map_append, map_append] at apart
  have across : ∀ info ∈ manager.allFiles, ∀ other ∈ outputs ++ pending, info.id ≠ other.id := by
    intro info member other new
    apply (nodup_append.mp apart).2.2 _ (mem_map_of_mem member)
    rw [← map_append]
    exact mem_map_of_mem new
  unfold SstManager.finishPlan
  cases installed : manager.installOutputs plan outputs with
  | ok swapped =>
    obtain ⟨files, swappedCatalogued⟩ := catalogued.install inside installed
    have frame : swapped.active = manager.active ∧ swapped.levelCount = manager.levelCount ∧
        swapped.reserved = manager.reserved.filter (· ∉ plan.reserved) ∧
        swapped.mvccWatermark = manager.mvccWatermark ∧ swapped.maxSstBytes = manager.maxSstBytes := by
      obtain ⟨-, -, -, -, rfl⟩ := installOutputs_ok installed
      exact ⟨rfl, rfl, rfl, rfl, rfl⟩
    have unreserved : ∀ info ∈ outputs ++ pending, info.id ∉ plan.reserved := by
      intro info new reserved
      obtain ⟨input, member, same⟩ := mem_map.mp reserved
      exact across input (inputs member) info new same
    have stays : ∀ info ∈ swapped.allFiles ++ pending, info.id ∉ plan.reserved := by
      intro info member
      rcases mem_append.mp member with listed | waiting
      · rcases mem_append.mp (files.subset listed) with output | kept
        · exact unreserved info (mem_append_left _ output)
        · exact of_decide_eq_true (mem_filter.mp kept).2
      · exact unreserved info (mem_append_right _ waiting)
    have gone : ∀ info ∈ manager.allFiles.filter (·.id ∈ plan.reserved), info.id ∈ plan.reserved :=
      fun info member => of_decide_eq_true (mem_filter.mp member).2
    have dropped := swappedCatalogued.drop gone stays
    obtain ⟨dir, retired, -, -⟩ := swappedCatalogued.toBacked.retireAll plan.reserved
    refine ⟨plan.reserved.foldl retire swapped, .ok (), ?_, dropped, ?_⟩
    · rw [CompactionPlan.reserved, foldl_map]
    · rw [retired]
      refine ⟨fun file member => ?_, frame.2.1, frame.2.2.1, frame.2.2.2.1, frame.2.2.2.2, .inl files⟩
      exact frame.1 ▸ mem_of_mem_filter member
  | error error =>
    have stays : ∀ info ∈ manager.allFiles ++ pending, info.id ∉ outputs.map SstMeta.id := by
      intro info member output
      obtain ⟨other, new, same⟩ := mem_map.mp output
      rcases mem_append.mp member with listed | waiting
      · exact across info listed other (mem_append_left _ new) same.symm
      · have among := (nodup_append.mp (nodup_append.mp apart).2.1).2.2
        exact among _ (mem_map_of_mem new) _ (mem_map_of_mem waiting) same
    have dropped := catalogued.drop (fun info member => mem_map_of_mem member) stays
    obtain ⟨dir, retired, -, -⟩ := catalogued.toBacked.retireAll (outputs.map SstMeta.id)
    refine ⟨((outputs.map SstMeta.id).foldl retire manager).abort plan, .error error, ?_, ?_, ?_⟩
    · rw [foldl_map]
    · exact { dropped with }
    · rw [retired]
      exact ⟨fun file member => mem_of_mem_filter member, rfl, rfl, rfl, rfl, .inr rfl⟩

section

variable (done : after.Catalogued pending promised) (active : after.active ⊆ manager.active)
include done active

theorem Catalogued.finished_versions {info : SstMeta} (member : info ∈ after.allFiles ++ pending) :
    after.versionsOf info = manager.versionsOf info :=
  (done.versionsOf_eq catalogued.toBacked member (fun _ inside _ => active inside)).symm

theorem Catalogued.finished_thins {watermark : Nat} (inputs : plan.inputs ⊆ manager.allFiles)
    (outcome : after.allFiles.Perm (outputs ++ manager.allFiles.filter (·.id ∉ plan.reserved)) ∨
      after.allFiles = manager.allFiles) {key : Key}
    (thins : stamp.Thins watermark (stamp.ofKey key (plan.inputs.flatMap manager.versionsOf))
      (stamp.ofKey key (outputs.flatMap manager.versionsOf))) :
    stamp.Thins watermark (stamp.ofKey key manager.contents) (stamp.ofKey key after.contents) := by
  have same : after.contents = after.allFiles.flatMap manager.versionsOf := by
    apply flatMap_congr
    exact fun info member => catalogued.finished_versions done active (mem_append_left _ member)
  rw [same]
  rcases outcome with installed | unchanged
  · have union := thins.union (Thins.refl watermark
      (stamp.ofKey key ((manager.allFiles.filter (·.id ∉ plan.reserved)).flatMap manager.versionsOf)))
    simp only [← ofKey_append, ← flatMap_append] at union
    apply union.congr
    · intro version
      simp only [mem_ofKey]
      apply and_congr_left
      intro ofKey
      simp only [contents, mem_flatMap, mem_append, mem_filter, decide_eq_true_eq]
      constructor
      · rintro ⟨info, input | ⟨listed, -⟩, inside⟩
        · exact ⟨info, inputs input, inside⟩
        · exact ⟨info, listed, inside⟩
      · rintro ⟨info, listed, inside⟩
        by_cases reserved : info.id ∈ plan.reserved
        · obtain ⟨input, member, sameId⟩ := mem_map.mp reserved
          have equal : input = info := by
            have distinct := (nodup_append.mp (map_append ▸ catalogued.distinctIds)).1
            exact inj_on_of_nodup_map distinct (inputs member) listed sameId
          exact ⟨info, .inl (equal ▸ member), inside⟩
        · exact ⟨info, .inr ⟨listed, reserved⟩, inside⟩
    · intro version
      simp only [mem_ofKey, mem_flatMap, installed.mem_iff]
  · rw [unchanged]
    exact Thins.refl watermark _

end

end Installing

section Picking

variable {reserved : List SstId} {level0 rest inputs : List SstMeta} {selection next : Selection}
  {level rounds sourceLevel : Nat} {plan : CompactionPlan} {candidate info : SstMeta}

/-- What is selected stands in the level, is free, and lies in the range that is kept with it. -/
structure Selection.Sound (selection : Selection) (level : List SstMeta) (reserved : List SstId) : Prop where
  nonempty : selection.files ≠ []
  subset : selection.files ⊆ level
  free : ∀ file ∈ selection.files, file.id ∉ reserved
  covers : ∀ file ∈ selection.files, selection.smallest ≤ file.smallest ∧ file.largest ≤ selection.largest

open SstManager.Selection

theorem sweep_sound (subset : rest ⊆ level0) (sound : Sound selection level0 reserved)
    (swept : sweep reserved rest selection = some next) : Sound next level0 reserved := by
  induction rest generalizing selection with
  | nil =>
    rw [← Option.some.inj swept]
    exact sound
  | cons file rest ih =>
    have later : rest ⊆ level0 := fun other member => subset (mem_cons_of_mem _ member)
    unfold sweep at swept
    split at swept
    · exact ih later sound swept
    split at swept
    · split at swept
      · cases swept
      rename_i unreserved
      refine ih later ⟨by simp, ?_, ?_, ?_⟩ swept
      · intro other member
        rcases mem_append.mp member with old | new
        · exact sound.subset old
        · rw [mem_singleton.mp new]
          exact subset mem_cons_self
      · refine forall_mem_append.mpr ⟨sound.free, forall_mem_singleton.mpr ?_⟩
        assumption
      · intro other member
        rcases mem_append.mp member with old | new
        · obtain ⟨below, above⟩ := sound.covers other old
          exact ⟨le_trans (min_le_left _ _) below, le_trans above (le_max_left _ _)⟩
        · rw [mem_singleton.mp new]
          exact ⟨min_le_right _ _, le_max_right _ _⟩
    · exact ih later sound swept

theorem closeOver_sound (sound : Sound selection level0 reserved)
    (closed : closeOver reserved level0 rounds selection = some next) : Sound next level0 reserved := by
  induction rounds generalizing selection with
  | zero =>
    rw [← Option.some.inj closed]
    exact sound
  | succ rounds ih =>
    unfold closeOver at closed
    split at closed
    · cases closed
    rename_i swept
    have sound := sweep_sound (List.Subset.refl _) sound swept
    split at closed
    · rw [← Option.some.inj closed]
      exact sound
    · exact ih sound closed

theorem selectInputs_some (member : candidate ∈ manager.levels sourceLevel)
    (selected : manager.selectInputs sourceLevel candidate = some inputs) :
    ∃ selection, Sound selection (manager.levels sourceLevel) manager.reserved ∧
      inputs = selection.files ++
        (manager.levels (sourceLevel + 1)).filter (·.overlaps selection.smallest selection.largest) ∧
      ∀ input ∈ inputs, input.id ∉ manager.reserved := by
  unfold selectInputs at selected
  split at selected
  · cases selected
  rename_i unreserved
  have alone : Sound ⟨[candidate], candidate.smallest, candidate.largest⟩
      (manager.levels sourceLevel) manager.reserved := by
    refine ⟨by simp, by simpa using member, by simpa using unreserved, ?_⟩
    intro file inside
    rw [mem_singleton.mp inside]
    exact ⟨le_refl _, le_refl _⟩
  split at selected
  · cases selected
  rename_i selection chosen
  dsimp only at selected
  split at selected
  · cases selected
  rename_i free
  have sound : Sound selection (manager.levels sourceLevel) manager.reserved := by
    unfold selectSource at chosen
    split at chosen
    · rename_i bottom
      subst bottom
      exact closeOver_sound alone chosen
    · rw [← Option.some.inj chosen]
      exact alone
  refine ⟨selection, sound, (Option.some.inj selected).symm, fun input inside => ?_⟩
  rw [← Option.some.inj selected] at inside
  rcases mem_append.mp inside with source | target
  · exact sound.free input source
  · intro taken
    exact free (any_eq_true.mpr ⟨input, target, decide_eq_true taken⟩)

structure Picked (manager : SstManager) (level : Nat) (plan : CompactionPlan) (selection : Selection) : Prop where
  inside : level + 1 < manager.levelCount
  sourceLevel : plan.sourceLevel = level
  outputLevel : plan.outputLevel = level + 1
  outputId : plan.outputId = manager.nextId
  sound : Sound selection (manager.levels level) manager.reserved
  inputs : plan.inputs = selection.files ++
    (manager.levels (level + 1)).filter (·.overlaps selection.smallest selection.largest)
  free : ∀ input ∈ plan.inputs, input.id ∉ manager.reserved

theorem pick_some (picked : manager.pick level = .ok (some (plan, after))) :
    (∃ selection, manager.Picked level plan selection) ∧
      after = { manager with reserved := plan.reserved ++ manager.reserved, nextId := manager.nextId + 1 } := by
  unfold pick at picked
  split at picked
  · cases picked
  rename_i inside
  split at picked
  · cases picked
  · rename_i inputs found
    obtain ⟨rfl, rfl⟩ := Prod.mk.inj (Option.some.inj (Except.ok.inj picked))
    obtain ⟨candidate, member, selected⟩ := exists_of_findSome?_eq_some found
    obtain ⟨selection, sound, split, free⟩ := selectInputs_some member selected
    exact ⟨⟨selection, lt_of_not_ge inside, rfl, rfl, rfl, sound, split, free⟩, rfl⟩

theorem mem_allFiles (inside : level < manager.levelCount)
    (member : info ∈ manager.levels level) : info ∈ manager.allFiles :=
  mem_flatMap.mpr ⟨level, mem_range.mpr inside, member⟩

theorem Picked.subset (picked : manager.Picked level plan selection) : plan.inputs ⊆ manager.allFiles := by
  intro input member
  rw [picked.inputs] at member
  rcases mem_append.mp member with source | target
  · exact mem_allFiles (Nat.lt_of_succ_lt picked.inside) (picked.sound.subset source)
  · exact mem_allFiles picked.inside (mem_of_mem_filter target)

theorem Picked.nonempty (picked : manager.Picked level plan selection) : plan.inputs ≠ [] := by
  rw [picked.inputs]
  exact fun empty => picked.sound.nonempty (append_eq_nil_iff.mp empty).1

theorem Catalogued.pick (catalogued : manager.Catalogued pending promised)
    (picked : manager.pick level = .ok (some (plan, after))) :
    after.Catalogued pending (plan.outputId :: promised) := by
  obtain ⟨⟨selection, made⟩, rfl⟩ := pick_some picked
  rw [made.outputId]
  exact { catalogued.allocate with }

end Picking

section Building

variable {plan : CompactionPlan}

theorem flatten_sources (manager : SstManager) (inputs : List SstMeta) :
    ((inputs.filterMap fun input => manager.pin input.id).map (·.sst.entries)).flatten =
      inputs.flatMap manager.versionsOf := by
  induction inputs with
  | nil => rfl
  | cons input inputs ih =>
    rw [filterMap_cons, flatMap_cons, versionsOf]
    cases manager.pin input.id with
    | none => simpa using ih
    | some file => simp [ih]

theorem Catalogued.buildOutputs (catalogued : manager.Catalogued pending (plan.outputId :: promised))
    (inputs : plan.inputs ⊆ manager.allFiles) (nonempty : plan.inputs ≠ []) :
    ∃ after files, manager.buildOutputs plan = (after, .ok (files.map info)) ∧
      (∀ file ∈ files, file.path.level = plan.outputLevel) ∧ manager.Grown after files ∧
      after.Catalogued (pending ++ files.map info) promised ∧
      ∀ key, stamp.Determined (stamp.ofKey key manager.contents) →
        stamp.Thins manager.mvccWatermark (stamp.ofKey key (plan.inputs.flatMap manager.versionsOf))
          (stamp.ofKey key (files.flatMap (·.sst.entries))) := by
  have pinned : plan.inputs.find? (fun input => (manager.pin input.id).isNone) = none := by
    apply List.find?_eq_none.mpr
    intro input member
    obtain ⟨file, found, -, -⟩ := catalogued.pinned (mem_append_left _ (inputs member))
    simp [found]
  generalize sources : plan.inputs.filterMap (fun input => manager.pin input.id) = files
  have flatten : (files.map (·.sst.entries)).flatten = plan.inputs.flatMap manager.versionsOf := by
    rw [← sources]
    exact flatten_sources manager plan.inputs
  have ordered : ∀ run ∈ files.map (·.sst.entries), Ordered run := by
    intro run member
    obtain ⟨file, -, rfl⟩ := mem_map.mp member
    exact file.sst.ordered
  have wellFormed : ∀ entry ∈ kWayMerge manager.mvccWatermark (files.map (·.sst.entries)), entry.WellFormed := by
    intro entry member
    obtain ⟨run, inRuns, inside⟩ := mem_flatten.mp (kWayMerge_subset manager.mvccWatermark ordered member)
    obtain ⟨file, -, rfl⟩ := mem_map.mp inRuns
    exact file.sst.wellFormed entry inside
  have some : kWayMerge manager.mvccWatermark (files.map (·.sst.entries)) ≠ [] := by
    apply kWayMerge_nonempty manager.mvccWatermark ordered
    obtain ⟨input, rest, split⟩ := exists_cons_of_ne_nil nonempty
    have member : input ∈ plan.inputs := split ▸ mem_cons_self
    obtain ⟨file, found, -, -⟩ := catalogued.pinned (mem_append_left _ (inputs member))
    rw [flatten, split, flatMap_cons, versionsOf_pinned found]
    exact fun empty => file.sst.nonempty (append_eq_nil_iff.mp empty).1
  have accepted := splitEntriesByMaxBytes_accepted (kWayMerge_ordered manager.mvccWatermark ordered) wellFormed
    manager.maxSstBytes
  have split := splitEntriesByMaxBytes_flatten (kWayMerge manager.mvccWatermark (files.map (·.sst.entries)))
    manager.maxSstBytes
  have slices : splitEntriesByMaxBytes (kWayMerge manager.mvccWatermark (files.map (·.sst.entries)))
      manager.maxSstBytes ≠ [] := by
    intro empty
    rw [empty] at split
    exact some split.symm
  have start : manager.Catalogued (pending ++ []) (plan.outputId :: promised) := by rwa [append_nil]
  obtain ⟨after, written, result, entries, levels, grown, done⟩ :=
    start.writeOutputs accepted slices plan.outputLevel
  refine ⟨after, written, ?_, levels, grown, by simpa using done, ?_⟩
  · unfold SstManager.buildOutputs
    simp only [pinned, sources, if_neg some]
    exact result
  · intro key determined
    have subset : stamp.ofKey key (plan.inputs.flatMap manager.versionsOf) ⊆ stamp.ofKey key manager.contents := by
      intro version member
      obtain ⟨inside, ofKey⟩ := mem_ofKey.mp member
      obtain ⟨input, inInputs, inside⟩ := mem_flatMap.mp inside
      exact mem_ofKey.mpr ⟨mem_flatMap.mpr ⟨input, inputs inInputs, inside⟩, ofKey⟩
    have thins := kWayMerge_thins manager.mvccWatermark ordered (determined.subset (flatten ▸ subset))
    rw [flatten] at thins
    have whole : written.flatMap (·.sst.entries) = kWayMerge manager.mvccWatermark (files.map (·.sst.entries)) := by
      rw [flatMap_def, entries, split]
    rwa [whole]

end Building

end SstManager

end Takyonic
