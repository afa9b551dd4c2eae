import Takyonic.Buffer.Pool

namespace Takyonic

open Foundation List Function Option

namespace DiskManager

def InHeap (disk : DiskManager) (pageId : Nat) : Prop := pageId < 2 ^ 32 ∧ (pageId + 1) * disk.pageSize < 2 ^ 64

instance (disk : DiskManager) (pageId : Nat) : Decidable (disk.InHeap pageId) := inferInstanceAs (Decidable (_ ∧ _))

def Holds (disk : DiskManager) (pageId : Nat) (data : Bytes) : Prop :=
  (pageId + 1) * disk.pageSize ≤ disk.file.length ∧ disk.file.read (pageId * disk.pageSize) disk.pageSize = data

variable {disk after : DiskManager} {pageId first second size count : Nat} {data : Bytes}
  {written : List (Nat × Bytes)}

theorem InHeap.valid (inHeap : disk.InHeap pageId) : pageId ≠ invalidPageId := by
  have small := inHeap.1
  unfold invalidPageId
  omega

theorem InHeap.notFileCache (inHeap : disk.InHeap pageId) : isFileCachePage pageId = false := by
  have small := inHeap.1
  have high : pageId / 2 ^ 32 = 0 := by omega
  rw [isFileCachePage, high]
  simp

theorem InHeap.offset (inHeap : disk.InHeap pageId) : pageId * disk.pageSize + disk.pageSize < 2 ^ 64 := by
  have fits := inHeap.2
  rwa [Nat.add_mul, Nat.one_mul] at fits

structure Rewrites (disk after : DiskManager) (written : List (Nat × Bytes)) : Prop where
  pageSize : after.pageSize = disk.pageSize
  nextPageId : after.nextPageId = disk.nextPageId
  holds : ∀ entry ∈ written, after.Holds entry.1 entry.2
  others : ∀ pageId data, pageId ∉ written.map Prod.fst → disk.Holds pageId data → after.Holds pageId data

theorem Rewrites.refl (disk : DiskManager) : disk.Rewrites disk [] := ⟨rfl, rfl, nofun, fun _ _ _ => id⟩

theorem Rewrites.inHeap (rewrites : disk.Rewrites after written) : after.InHeap pageId ↔ disk.InHeap pageId := by
  unfold InHeap
  rw [rewrites.pageSize]

theorem blocks_apart (different : first ≠ second) :
    second * size + size ≤ first * size ∨ first * size + size ≤ second * size := by
  rcases Nat.lt_or_gt_of_ne different with less | greater
  · right
    have step := Nat.mul_le_mul_right size (Nat.succ_le_of_lt less)
    rwa [Nat.succ_mul] at step
  · left
    have step := Nat.mul_le_mul_right size (Nat.succ_le_of_lt greater)
    rwa [Nat.succ_mul] at step

theorem aligned_eq (positive : 0 < size) : (count * size + size - 1) / size * size = count * size := by
  have rest : (size - 1) / size = 0 := Nat.div_eq_of_lt (by omega)
  have quotient : (count * size + size - 1) / size = count := by
    rw [Nat.add_sub_assoc positive, Nat.mul_comm, Nat.mul_add_div positive, rest, Nat.add_zero]
  rw [quotient]

theorem grown_holds (pageId : Nat) (positive : 0 < disk.pageSize) (file : SparseFile UInt8)
    (grown : file = if disk.file.length < pageId * disk.pageSize + disk.pageSize then
      disk.file.setLen 0 ((pageId * disk.pageSize + disk.pageSize + disk.pageSize - 1) / disk.pageSize * disk.pageSize)
      else disk.file) :
    disk.file.length ≤ file.length ∧ ∀ offset count, offset + count ≤ disk.file.length →
      file.read offset count = disk.file.read offset count := by
  rw [grown]
  split
  · rename_i short
    have aligned : (pageId * disk.pageSize + disk.pageSize + disk.pageSize - 1) / disk.pageSize * disk.pageSize =
        pageId * disk.pageSize + disk.pageSize := by
      rw [← Nat.succ_mul]
      exact aligned_eq positive
    rw [aligned]
    exact ⟨le_of_lt short, fun offset count inside => SparseFile.read_setLen inside⟩
  · exact ⟨le_rfl, fun _ _ _ => rfl⟩

theorem writePageLocal_rewrites (positive : 0 < disk.pageSize) (inHeap : disk.InHeap pageId)
    (size : data.length = disk.pageSize) :
    ∃ after, disk.writePageLocal pageId data = .ok after ∧ disk.Rewrites after [(pageId, data)] := by
  have fits := inHeap.offset
  unfold writePageLocal
  rw [if_neg (by omega)]
  refine ⟨_, rfl, rfl, rfl, fun entry member => ?_, fun other bytes different holds => ?_⟩
  · rw [mem_singleton.mp member]
    refine ⟨?_, ?_⟩
    · show (pageId + 1) * disk.pageSize ≤ max _ (pageId * disk.pageSize + data.length)
      rw [size, Nat.add_mul, Nat.one_mul]
      exact le_max_right _ _
    · rw [← size]
      exact SparseFile.read_write _ _
  · obtain ⟨longer, kept⟩ := grown_holds pageId positive _ rfl
    obtain ⟨inside, bytes⟩ := holds
    rw [map_singleton, mem_singleton] at different
    refine ⟨le_trans inside (le_trans longer (le_max_left _ _)), ?_⟩
    rw [Nat.add_mul, Nat.one_mul] at inside
    rw [SparseFile.read_write_apart, kept _ _ inside, bytes]
    rw [size]
    exact blocks_apart (Ne.symm different)

theorem writePageSnapshots_rewrites (positive : 0 < disk.pageSize) (distinct : (written.map Prod.fst).Nodup)
    (inHeap : ∀ entry ∈ written, disk.InHeap entry.1) (sizes : ∀ entry ∈ written, entry.2.length = disk.pageSize) :
    ∃ after, disk.writePageSnapshots written = (after, .ok ()) ∧ disk.Rewrites after written := by
  induction written generalizing disk with
  | nil => exact ⟨disk, rfl, Rewrites.refl disk⟩
  | cons entry rest ih =>
    obtain ⟨pageId, data⟩ := entry
    obtain ⟨absent, distinct⟩ := nodup_cons.mp distinct
    have here := inHeap _ mem_cons_self
    have size := sizes _ mem_cons_self
    obtain ⟨middle, stored, first⟩ := writePageLocal_rewrites positive here size
    obtain ⟨after, others, second⟩ := ih (first.pageSize ▸ positive) distinct
      (fun entry member => first.inHeap.mpr (inHeap entry (mem_cons_of_mem _ member)))
      (fun entry member => (sizes entry (mem_cons_of_mem _ member)).trans first.pageSize.symm)
    have stays : after.Holds pageId data := second.others _ _ absent (first.holds _ mem_cons_self)
    refine ⟨after, ?_, second.pageSize.trans first.pageSize, second.nextPageId.trans first.nextPageId, ?_, ?_⟩
    · rw [writePageSnapshots, if_neg here.valid, here.notFileCache,
        if_neg (not_not.mpr size), stored]
      exact others
    · exact forall_mem_cons.mpr ⟨stays, second.holds⟩
    · intro other bytes different holds
      rw [map_cons, mem_cons, not_or] at different
      apply second.others other bytes different.2
      apply first.others other bytes _ holds
      simpa using different.1

theorem writePage_rewrites (positive : 0 < disk.pageSize) (page : Page) (inHeap : disk.InHeap page.pageId)
    (size : page.data.length = disk.pageSize) :
    ∃ after, disk.writePage page = (after, .ok ()) ∧ disk.Rewrites after [(page.pageId, page.data)] := by
  unfold writePage
  rw [if_neg (not_not.mpr size)]
  apply writePageSnapshots_rewrites positive
  · exact nodup_singleton _
  · exact forall_mem_singleton.mpr inHeap
  · exact forall_mem_singleton.mpr size

theorem readPage_holds (inHeap : disk.InHeap pageId) (holds : disk.Holds pageId data) {page : Page}
    (size : page.data.length = disk.pageSize) :
    disk.readPage pageId page = .ok { page with pageId, data, dirty := false } := by
  obtain ⟨inside, bytes⟩ := holds
  have fits := inHeap.offset
  rw [Nat.add_mul, Nat.one_mul] at inside
  unfold readPage
  rw [if_neg (not_not.mpr size), inHeap.notFileCache, if_neg Bool.false_ne_true, if_neg (by omega)]
  rw [if_pos inside, bytes]

end DiskManager

namespace BufferPoolManager

/-- Table, frames and disk agree on the pages that the clients have been given and have written. -/
structure Sound (pool : BufferPoolManager) (written : Nat → Option Bytes) : Prop where
  positive : 0 < pool.disk.pageSize
  sizes : ∀ index < pool.frames.length, (pool.frameAt index).page.data.length = pool.disk.pageSize
  listed : ∀ pageId index, pool.pageTable pageId = some index → index < pool.frames.length ∧
    (pool.frameAt index).page.pageId = pageId
  resident : ∀ index < pool.frames.length, (pool.frameAt index).page.pageId ≠ invalidPageId →
    pool.pageTable (pool.frameAt index).page.pageId = some index
  shown : ∀ pageId index, pool.pageTable pageId = some index → written pageId = some (pool.frameAt index).page.data ∧
    ((pool.frameAt index).page.dirty = false → pool.disk.Holds pageId (pool.frameAt index).page.data)
  stored : ∀ pageId data, written pageId = some data → pool.pageTable pageId = none → pool.disk.Holds pageId data
  issued : ∀ pageId data, written pageId = some data → pageId < pool.disk.nextPageId ∧ pool.disk.InHeap pageId
  free : ∀ index ∈ pool.freeList, index < pool.frames.length

variable {pool after : BufferPoolManager} {written contents : Nat → Option Bytes} {index pageId start other : Nat}
  {frame : Frame} {disk : DiskManager} {best next : Option (Nat × Nat)}

theorem frameAt_set (inside : index < pool.frames.length) (frame : Frame) (other : Nat) :
    (pool.setFrame index frame).frameAt other = if other = index then frame else pool.frameAt other := by
  unfold setFrame frameAt
  rw [getD_eq_getElem?_getD, getD_eq_getElem?_getD, List.getElem?_set]
  split
  · subst_vars
    simp
  · rename_i different
    rw [if_neg (Ne.symm different)]

def Victim.Found (start : Nat) (best : Option (Nat × Nat)) (frames : List Frame) : Victim → Prop
  | .free index => ∃ offset frame, index = start + offset ∧ frames[offset]? = some frame ∧
      frame.page.pinCount = 0 ∧ frame.page.isOccupied = false
  | .best none => best = none ∧ ∀ frame ∈ frames, 0 < frame.page.pinCount
  | .best (some (index, distance)) => best = some (index, distance) ∨ ∃ offset frame, index = start + offset ∧
      frames[offset]? = some frame ∧ frame.page.pinCount = 0 ∧ frame.page.isOccupied = true

theorem Victim.Found.cons {rest : List Frame} {victim : Victim}
    (kept : next = best ∧ (best ≠ none ∨ 0 < frame.page.pinCount) ∨
      frame.page.pinCount = 0 ∧ frame.page.isOccupied = true ∧ ∃ distance, next = some (start, distance))
    (found : victim.Found (start + 1) next rest) : victim.Found start best (frame :: rest) := by
  cases victim with
  | free index =>
    obtain ⟨offset, other, place, member, unpinned⟩ := found
    exact ⟨offset + 1, other, by omega, member, unpinned⟩
  | best answer =>
    cases answer with
    | none =>
      obtain ⟨rfl, pinned⟩ := found
      rcases kept with ⟨rfl, known⟩ | ⟨_, _, distance, new⟩
      · exact ⟨rfl, forall_mem_cons.mpr ⟨known.resolve_left (not_not.mpr rfl), pinned⟩⟩
      · cases new
    | some answer =>
      rcases found with chosen | ⟨offset, other, place, member, unused⟩
      · rcases kept with ⟨same, -⟩ | ⟨unpinned, occupied, distance, new⟩
        · exact .inl (same.symm.trans chosen)
        · have here : start = answer.1 := congrArg Prod.fst (some.inj (new.symm.trans chosen))
          exact .inr ⟨0, frame, here.symm, rfl, unpinned, occupied⟩
      · exact .inr ⟨offset + 1, other, by omega, member, unused⟩

theorem findVictim_found (k now start : Nat) (best : Option (Nat × Nat)) (frames : List Frame) :
    (findVictim k now start best frames).Found start best frames := by
  induction frames generalizing start best with
  | nil =>
    cases best with
    | none => exact ⟨rfl, nofun⟩
    | some best => exact .inl rfl
  | cons frame rest ih =>
    unfold findVictim
    by_cases pinned : 0 < frame.page.pinCount
    · rw [if_pos pinned]
      exact (ih (start + 1) best).cons (.inl ⟨rfl, .inr pinned⟩)
    rw [if_neg pinned]
    have unpinned : frame.page.pinCount = 0 := by omega
    cases occupied : frame.page.isOccupied with
    | false => exact ⟨0, frame, rfl, rfl, unpinned, occupied⟩
    | true =>
      apply Victim.Found.cons _ (ih _ _)
      cases best with
      | none => exact .inr ⟨unpinned, occupied, _, rfl⟩
      | some best =>
        dsimp only
        split
        · exact .inr ⟨unpinned, occupied, _, rfl⟩
        · exact .inl ⟨rfl, .inl (some_ne_none _)⟩

theorem length_setFrame (pool : BufferPoolManager) (index : Nat) (frame : Frame) :
    (pool.setFrame index frame).frames.length = pool.frames.length :=
  length_set

theorem Sound.inHeap (sound : pool.Sound written) (listed : pool.pageTable pageId = some index) :
    pool.disk.InHeap pageId :=
  (sound.issued pageId _ (sound.shown pageId index listed).1).2

theorem Sound.unissued (sound : pool.Sound written) : pool.pageTable pool.disk.nextPageId = none := by
  cases listed : pool.pageTable pool.disk.nextPageId with
  | none => rfl
  | some index => exact absurd (sound.issued _ _ (sound.shown _ _ listed).1).1 (lt_irrefl _)

theorem Sound.ne_of_empty (sound : pool.Sound written) (empty : (pool.frameAt index).page.pageId = invalidPageId)
    (listed : pool.pageTable pageId = some other) : other ≠ index := by
  rintro rfl
  apply (sound.inHeap listed).valid
  rw [← (sound.listed pageId other listed).2, empty]

theorem frameAt_disk (size : disk.pageSize = pool.disk.pageSize) (other : Nat) :
    frameAt { pool with disk } other = pool.frameAt other := by
  unfold frameAt
  rw [size]

section

variable (sound : pool.Sound written)
include sound

theorem Sound.rewritten {snaps : List (Nat × Bytes)} (rewrites : pool.disk.Rewrites disk snaps)
    (current : ∀ entry ∈ snaps, written entry.1 = some entry.2) : Sound { pool with disk } written := by
  have same := frameAt_disk rewrites.pageSize
  have holds : ∀ pageId data, written pageId = some data → pool.disk.Holds pageId data → disk.Holds pageId data := by
    intro pageId data known before
    by_cases listed : pageId ∈ snaps.map Prod.fst
    · obtain ⟨entry, member, rfl⟩ := mem_map.mp listed
      rw [some.inj (known.symm.trans (current entry member))]
      exact rewrites.holds entry member
    · exact rewrites.others pageId data listed before
  refine ⟨?_, ?_, ?_, ?_, ?_, ?_, ?_, sound.free⟩
  · exact rewrites.pageSize.symm ▸ sound.positive
  · intro other below
    rw [same]
    exact (sound.sizes other below).trans rewrites.pageSize.symm
  · intro pageId other listed
    rw [same]
    exact sound.listed pageId other listed
  · intro other below valid
    rw [same] at valid ⊢
    exact sound.resident other below valid
  · intro pageId other listed
    rw [same]
    obtain ⟨bytes, clean⟩ := sound.shown pageId other listed
    exact ⟨bytes, fun undirtied => holds pageId _ bytes (clean undirtied)⟩
  · intro pageId data known absent
    exact holds pageId data known (sound.stored pageId data known absent)
  · intro pageId data known
    obtain ⟨below, inHeap⟩ := sound.issued pageId data known
    exact ⟨rewrites.nextPageId.symm ▸ below, rewrites.inHeap.mpr inHeap⟩

section

variable (inside : index < pool.frames.length)
include inside

/-- One frame is replaced, with the part of the table and of the written pages that goes with it. -/
theorem Sound.replace (size : frame.page.data.length = pool.disk.pageSize) {table : Nat → Option Nat}
    (lookup : ∀ pageId place, table pageId = some place ↔
      place = index ∧ pageId = frame.page.pageId ∧ pageId ≠ invalidPageId ∨
        place ≠ index ∧ pool.pageTable pageId = some place)
    (others : ∀ pageId, pageId ≠ frame.page.pageId → contents pageId = written pageId)
    (shown : frame.page.pageId ≠ invalidPageId → contents frame.page.pageId = some frame.page.data ∧
      (frame.page.dirty = false → pool.disk.Holds frame.page.pageId frame.page.data))
    (stored : ∀ pageId data, written pageId = some data → table pageId = none → pageId ≠ frame.page.pageId →
      pool.disk.Holds pageId data) (issued : ∀ data, contents frame.page.pageId = some data →
      frame.page.pageId < pool.disk.nextPageId ∧ pool.disk.InHeap frame.page.pageId) :
    Sound { pool.setFrame index frame with pageTable := table } contents := by
  have frames : ∀ other, frameAt { pool.setFrame index frame with pageTable := table } other =
      if other = index then frame else pool.frameAt other :=
    frameAt_set inside frame
  have length := length_setFrame pool index frame
  have known : ∀ pageId data, contents pageId = some data →
      pageId < pool.disk.nextPageId ∧ pool.disk.InHeap pageId := by
    intro pageId data here
    by_cases same : pageId = frame.page.pageId
    · subst same
      exact issued data here
    · exact sound.issued pageId data (others pageId same ▸ here)
  refine ⟨sound.positive, fun place below => ?_, fun pageId place found => ?_, fun place below valid => ?_,
    fun pageId place found => ?_, fun pageId data here absent => ?_, known, length.symm ▸ sound.free⟩
  · rw [frames]
    split
    · exact size
    · exact sound.sizes place (length ▸ below)
  · rw [frames, length]
    rcases (lookup pageId place).mp found with ⟨rfl, rfl, -⟩ | ⟨apart, listed⟩
    · rw [if_pos rfl]
      exact ⟨inside, rfl⟩
    · rw [if_neg apart]
      exact sound.listed pageId place listed
  · rw [frames] at valid ⊢
    apply (lookup _ place).mpr
    by_cases here : place = index
    · rw [if_pos here] at valid ⊢
      exact .inl ⟨here, rfl, valid⟩
    · rw [if_neg here] at valid ⊢
      exact .inr ⟨here, sound.resident place (length ▸ below) valid⟩
  · rw [frames]
    rcases (lookup pageId place).mp found with ⟨rfl, rfl, valid⟩ | ⟨apart, listed⟩
    · rw [if_pos rfl]
      exact shown valid
    · rw [if_neg apart, others]
      · exact sound.shown pageId place listed
      · rintro rfl
        have again := (lookup _ index).mpr (.inl ⟨rfl, rfl, (sound.inHeap listed).valid⟩)
        exact apart (some.inj (found.symm.trans again))
  · by_cases same : pageId = frame.page.pageId
    · have again := (lookup pageId index).mpr (.inl ⟨rfl, same, (known pageId data here).2.valid⟩)
      cases absent.symm.trans again
    · exact stored pageId data (others pageId same ▸ here) absent same

theorem Sound.blank (empty : (pool.frameAt index).page.pageId = invalidPageId)
    (invalid : frame.page.pageId = invalidPageId) (size : frame.page.data.length = pool.disk.pageSize) :
    (pool.setFrame index frame).Sound written := by
  apply sound.replace inside size (fun pageId place => ⟨?_, ?_⟩) (fun _ _ => rfl) (absurd invalid)
    (fun pageId data known absent _ => sound.stored pageId data known absent) (sound.issued _)
  · exact fun listed => .inr ⟨sound.ne_of_empty empty listed, listed⟩
  · rintro (⟨-, rfl, valid⟩ | ⟨-, listed⟩)
    · exact absurd invalid valid
    · exact listed

theorem Sound.vacate (valid : (pool.frameAt index).page.pageId ≠ invalidPageId)
    (rewrites : pool.disk.Rewrites disk [((pool.frameAt index).page.pageId, (pool.frameAt index).page.data)])
    (invalid : frame.page.pageId = invalidPageId) (size : frame.page.data.length = pool.disk.pageSize) :
    (setFrame { pool.forget (pool.frameAt index).page.pageId with disk } index frame).Sound written := by
  have here := sound.resident index inside valid
  have shown := (sound.shown _ _ here).1
  have moved := sound.rewritten rewrites (forall_mem_singleton.mpr shown)
  change Sound { setFrame { pool with disk } index frame with pageTable := update pool.pageTable _ none } written
  apply moved.replace inside (size.trans rewrites.pageSize.symm) (fun pageId place => ⟨?_, ?_⟩) (fun _ _ => rfl)
    (absurd invalid) (fun pageId data known absent _ => ?_) (moved.issued _)
  · intro found
    by_cases same : pageId = (pool.frameAt index).page.pageId
    · rw [same, update_self] at found
      cases found
    · rw [update_of_ne same] at found
      refine .inr ⟨?_, found⟩
      rintro rfl
      exact same (sound.listed pageId place found).2.symm
  · rintro (⟨-, rfl, occupied⟩ | ⟨apart, listed⟩)
    · exact absurd invalid occupied
    · rw [update_of_ne]
      · exact listed
      · rintro rfl
        exact apart (some.inj (listed.symm.trans here))
  · by_cases same : pageId = (pool.frameAt index).page.pageId
    · subst same
      rw [some.inj (known.symm.trans shown)]
      exact rewrites.holds _ mem_cons_self
    · rw [update_of_ne same] at absent
      exact moved.stored pageId data known absent

theorem Sound.occupy (empty : (pool.frameAt index).page.pageId = invalidPageId)
    (absent : pool.pageTable pageId = none) (issued : pageId < pool.disk.nextPageId ∧ pool.disk.InHeap pageId)
    (frame : Frame) (named : frame.page.pageId = pageId) (size : frame.page.data.length = pool.disk.pageSize)
    (clean : frame.page.dirty = false → pool.disk.Holds pageId frame.page.data) :
    ((pool.setFrame index frame).remember pageId index).Sound (update written pageId (some frame.page.data)) := by
  subst named
  apply sound.replace inside size (fun other place => ?_) (fun other different => update_of_ne different _ _)
    (fun _ => ⟨update_self _ _ _, clean⟩) (fun other data known missing different => ?_) (fun _ _ => issued)
  · by_cases same : other = frame.page.pageId
    · rw [same, update_self, absent]
      simp only [some.injEq, issued.2.valid, ne_eq, not_false_eq_true, and_true, reduceCtorEq,
        and_false, or_false, eq_comm]
    · rw [update_of_ne same]
      refine ⟨fun listed => .inr ⟨sound.ne_of_empty empty listed, listed⟩, ?_⟩
      rintro (⟨-, here, -⟩ | ⟨-, listed⟩)
      · exact absurd here same
      · exact listed
  · exact sound.stored other data known ((update_of_ne different _ _).symm.trans missing)

end

theorem Sound.setPage (listed : pool.pageTable pageId = some index) (frame : Frame)
    (named : frame.page.pageId = pageId) (size : frame.page.data.length = pool.disk.pageSize)
    (clean : frame.page.dirty = false → pool.disk.Holds pageId frame.page.data) :
    (pool.setFrame index frame).Sound (update written pageId (some frame.page.data)) := by
  subst named
  obtain ⟨inside, here⟩ := sound.listed _ index listed
  apply sound.replace inside size (fun other place => ⟨fun found => ?_, ?_⟩)
    (fun other different => update_of_ne different _ _) (fun _ => ⟨update_self _ _ _, clean⟩)
    (fun other data known missing _ => sound.stored other data known missing)
    (fun _ _ => sound.issued _ _ (sound.shown _ index listed).1)
  · by_cases same : place = index
    · subst same
      exact .inl ⟨rfl, (sound.listed other place found).2.symm.trans here, (sound.inHeap found).valid⟩
    · exact .inr ⟨same, found⟩
  · rintro (⟨rfl, rfl, -⟩ | ⟨-, found⟩)
    · exact listed
    · exact found

end

theorem popFree_spec (pool : BufferPoolManager) (free : List Nat) :
    (pool.popFree free).2 ⊆ free ∧ ∀ index, (pool.popFree free).1 = some index → index ∈ free ∧
      (pool.frameAt index).page.pinCount = 0 ∧ (pool.frameAt index).page.pageId = invalidPageId := by
  induction free with
  | nil => exact ⟨List.Subset.refl _, nofun⟩
  | cons first rest ih =>
    unfold popFree
    dsimp only
    split
    · rename_i unused
      refine ⟨subset_cons_self _ _, fun index found => ?_⟩
      obtain rfl := some.inj found
      exact ⟨mem_cons_self, unused.1, by simpa [Page.isOccupied] using unused.2⟩
    · refine ⟨List.Subset.trans ih.1 (subset_cons_self _ _), fun index found => ?_⟩
      obtain ⟨member, unused⟩ := ih.2 index found
      exact ⟨mem_cons_of_mem _ member, unused⟩

structure Claims (pool after : BufferPoolManager) (index : Nat) : Prop where
  inside : index < pool.frames.length
  unpinned : (pool.frameAt index).page.pinCount = 0
  length : after.frames.length = pool.frames.length
  empty : (after.frameAt index).page.pageId = invalidPageId
  pinned : (after.frameAt index).page.pinCount = 1
  frames : ∀ other, other ≠ index → after.frameAt other = pool.frameAt other
  table : ∀ pageId other, after.pageTable pageId = some other ↔ pool.pageTable pageId = some other ∧ other ≠ index
  pageSize : after.disk.pageSize = pool.disk.pageSize
  nextPageId : after.disk.nextPageId = pool.disk.nextPageId

section

variable (sound : pool.Sound written) (inside : index < pool.frames.length)
  (unpinned : (pool.frameAt index).page.pinCount = 0)
include sound inside unpinned

theorem Sound.claim_empty (empty : (pool.frameAt index).page.pageId = invalidPageId) :
    (pool.claim index (pool.frameAt index).page).Sound written ∧
      pool.Claims (pool.claim index (pool.frameAt index).page) index := by
  refine ⟨sound.blank inside empty empty (sound.sizes index inside), inside, unpinned, length_setFrame _ _ _,
    ?_, ?_, fun other different => ?_, fun pageId other => ?_, rfl, rfl⟩
  · unfold claim
    rw [frameAt_set inside, if_pos rfl]
    exact empty
  · unfold claim
    rw [frameAt_set inside, if_pos rfl]
  · unfold claim
    rw [frameAt_set inside, if_neg different]
  · exact ⟨fun listed => ⟨listed, sound.ne_of_empty empty listed⟩, And.left⟩

theorem Sound.claim_victim (valid : (pool.frameAt index).page.pageId ≠ invalidPageId)
    (rewrites : pool.disk.Rewrites disk [((pool.frameAt index).page.pageId, (pool.frameAt index).page.data)]) :
    let after := claim { pool.forget (pool.frameAt index).page.pageId with disk } index (pool.frameAt index).page.reset
    after.Sound written ∧ pool.Claims after index := by
  intro after
  have frames : ∀ other, after.frameAt other = if other = index then
      ⟨{ (pool.frameAt index).page.reset with pinCount := 1 }, []⟩ else pool.frameAt other := by
    intro other
    rw [← frameAt_disk rewrites.pageSize other]
    apply frameAt_set
    exact inside
  refine ⟨?_, inside, unpinned, length_setFrame _ _ _, ?_, ?_, fun other different => ?_, fun pageId other => ?_,
    rewrites.pageSize, rewrites.nextPageId⟩
  · apply sound.vacate inside valid rewrites rfl
    show (List.replicate _ _).length = _
    rw [length_replicate]
    exact sound.sizes index inside
  · rw [frames, if_pos rfl]
    rfl
  · rw [frames, if_pos rfl]
  · rw [frames, if_neg different]
  · show update pool.pageTable _ none pageId = some other ↔ _
    have here := sound.resident index inside valid
    by_cases same : pageId = (pool.frameAt index).page.pageId
    · rw [same, update_self, here]
      constructor
      · nofun
      · exact fun ⟨found, different⟩ => absurd (some.inj found).symm different
    · rw [update_of_ne same]
      refine ⟨fun listed => ⟨listed, ?_⟩, And.left⟩
      rintro rfl
      exact same (sound.listed pageId other listed).2.symm

end

theorem frameAt_of_getElem? (found : pool.frames[index]? = some frame) :
    index < pool.frames.length ∧ pool.frameAt index = frame := by
  refine ⟨(List.getElem?_eq_some_iff.mp found).1, ?_⟩
  unfold frameAt
  rw [getD_eq_getElem?_getD, found, getD_some]

section

variable (sound : pool.Sound written)
include sound

theorem Sound.evictVictim :
    (∃ error, pool.evictVictim = (pool, .error error)) ∧
        (∀ index < pool.frames.length, 0 < (pool.frameAt index).page.pinCount) ∨
      ∃ after index, pool.evictVictim = (after, .ok index) ∧ after.Sound written ∧ pool.Claims after index := by
  have found := findVictim_found pool.k pool.clock 0 none pool.frames
  unfold BufferPoolManager.evictVictim
  cases chosen : findVictim pool.k pool.clock 0 none pool.frames with
  | free index =>
    rw [chosen] at found
    obtain ⟨offset, frame, place, member, unpinned, unoccupied⟩ := found
    obtain ⟨inside, same⟩ := frameAt_of_getElem? member
    obtain rfl : index = offset := by omega
    rw [← same] at unpinned unoccupied
    obtain ⟨done, claims⟩ := sound.claim_empty inside unpinned (by simpa [Page.isOccupied] using unoccupied)
    exact .inr ⟨_, _, rfl, done, claims⟩
  | best answer =>
    rw [chosen] at found
    cases answer with
    | none =>
      refine .inl ⟨⟨_, rfl⟩, fun index below => ?_⟩
      obtain ⟨-, same⟩ := frameAt_of_getElem? (List.getElem?_eq_getElem below)
      rw [same]
      exact found.2 _ (getElem_mem below)
    | some answer =>
      right
      rcases found with impossible | ⟨offset, frame, place, member, unpinned, occupied⟩
      · cases impossible
      obtain ⟨inside, same⟩ := frameAt_of_getElem? member
      obtain ⟨victim, distance⟩ := answer
      obtain rfl : victim = offset := by
        omega
      rw [← same] at unpinned occupied
      have valid : (pool.frameAt victim).page.pageId ≠ invalidPageId := by simpa [Page.isOccupied] using occupied
      have here := sound.resident victim inside valid
      have inHeap := sound.inHeap here
      dsimp only
      rw [if_pos valid, inHeap.notFileCache]
      cases dirty : (pool.frameAt victim).page.dirty with
      | true =>
        obtain ⟨disk, wrote, rewrites⟩ :=
          DiskManager.writePage_rewrites sound.positive _ inHeap (sound.sizes victim inside)
        have wrote' : (pool.forget (pool.frameAt victim).page.pageId).disk.writePage (pool.frameAt victim).page =
            (disk, .ok ()) := wrote
        rw [wrote']
        obtain ⟨done, claims⟩ := sound.claim_victim inside unpinned valid rewrites
        exact ⟨_, _, rfl, done, claims⟩
      | false =>
        have holds := (sound.shown _ _ here).2 dirty
        have rewrites : pool.disk.Rewrites pool.disk
            [((pool.frameAt victim).page.pageId, (pool.frameAt victim).page.data)] :=
          ⟨rfl, rfl, forall_mem_singleton.mpr holds, fun _ _ _ => id⟩
        obtain ⟨done, claims⟩ := sound.claim_victim inside unpinned valid rewrites
        exact ⟨_, _, rfl, done, claims⟩

theorem Sound.withFree {freeList : List Nat} (subset : freeList ⊆ pool.freeList) :
    Sound { pool with freeList } written :=
  { sound with free := fun index member => sound.free index (subset member) }

theorem Sound.allocateFrame :
    (∃ freeList error, pool.allocateFrame = ({ pool with freeList }, .error error) ∧ freeList ⊆ pool.freeList) ∧
        (∀ index < pool.frames.length, 0 < (pool.frameAt index).page.pinCount) ∨
      ∃ after index, pool.allocateFrame = (after, .ok index) ∧ after.Sound written ∧ pool.Claims after index := by
  obtain ⟨subset, picked⟩ := pool.popFree_spec pool.freeList
  unfold BufferPoolManager.allocateFrame
  generalize pool.popFree pool.freeList = answer at subset picked
  obtain ⟨index, freeList⟩ := answer
  have rest := sound.withFree subset
  cases index with
  | some index =>
    obtain ⟨member, unpinned, empty⟩ := picked index rfl
    obtain ⟨done, claims⟩ := rest.claim_empty (sound.free index member) unpinned empty
    exact .inr ⟨_, _, rfl, done, { claims with }⟩
  | none =>
    rcases rest.evictVictim with ⟨⟨error, failed⟩, pinned⟩ | ⟨after, index, evicted, done, claims⟩
    · exact .inl ⟨⟨freeList, error, failed, subset⟩, pinned⟩
    · exact .inr ⟨after, index, evicted, done, { claims with }⟩

theorem Sound.withClock (clock : Nat) : Sound { pool with clock } written :=
  { sound with }

end

theorem recordAccess_eq (pool : BufferPoolManager) (index : Nat) (frame : Frame) : ∃ history clock,
    pool.recordAccess index frame = { pool.setFrame index ⟨frame.page, history⟩ with clock } :=
  ⟨_, _, rfl⟩

theorem Sound.setMeta (sound : pool.Sound written) (listed : pool.pageTable pageId = some index) (frame : Frame)
    (named : frame.page.pageId = pageId) (data : frame.page.data = (pool.frameAt index).page.data)
    (clean : frame.page.dirty = false → pool.disk.Holds pageId frame.page.data) :
    (pool.setFrame index frame).Sound written := by
  have changed := sound.setPage listed frame named (data ▸ sound.sizes index (sound.listed pageId index listed).1) clean
  rwa [data, ← (sound.shown pageId index listed).1, update_eq_self] at changed

end BufferPoolManager

end Takyonic
