import Takyonic.Buffer.PoolSound

namespace Takyonic

open Foundation List Function BufferPoolManager DiskManager Page PoolSession

namespace BufferPoolManager

variable {pool after : BufferPoolManager} {written : Nat → Option Bytes} {index pageId : Nat}

structure Flushed (pool after : BufferPoolManager) : Prop where
  length : after.frames.length = pool.frames.length
  pins : ∀ index, (after.frameAt index).page.pinCount = (pool.frameAt index).page.pinCount
  table : after.pageTable = pool.pageTable

theorem Sound.flushPage (sound : pool.Sound written) (pageId : Nat) :
    (pool.flushPage pageId).1.Sound written ∧ pool.Flushed (pool.flushPage pageId).1 := by
  unfold BufferPoolManager.flushPage
  cases listed : pool.pageTable pageId with
  | none => exact ⟨sound, rfl, fun _ => rfl, rfl⟩
  | some index =>
    obtain ⟨inside, named⟩ := sound.listed pageId index listed
    dsimp only
    split
    · exact ⟨sound, rfl, fun _ => rfl, rfl⟩
    obtain ⟨disk, wrote, rewrites⟩ := writePage_rewrites sound.positive
      (pool.frameAt index).page (named.symm ▸ sound.inHeap listed) (sound.sizes index inside)
    rw [wrote]
    have shown := (sound.shown pageId index listed).1
    have moved := sound.rewritten rewrites (forall_mem_singleton.mpr (named.symm ▸ shown))
    have same := frameAt_disk rewrites.pageSize
    refine ⟨moved.setMeta listed ⟨{ (pool.frameAt index).page with dirty := false }, _⟩ named ?_ ?_,
      length_setFrame _ _ _, fun other => ?_, rfl⟩
    · rw [same]
    · intro _
      exact named ▸ rewrites.holds _ mem_cons_self
    · rw [frameAt_set (moved.listed pageId index listed).1, same]
      split
      · subst_vars
        rfl
      · rfl

theorem frameAt_clean (pool : BufferPoolManager) (index : Nat) :
    frameAt { pool with
      frames := pool.frames.map fun frame => { frame with page := { frame.page with dirty := false } } } index =
        ⟨{ (pool.frameAt index).page with dirty := false }, (pool.frameAt index).history⟩ := by
  unfold frameAt
  rw [getD_eq_getElem?_getD, getD_eq_getElem?_getD, getElem?_map]
  cases pool.frames[index]? <;> rfl

section

variable (sound : pool.Sound written)
include sound

theorem Sound.clean (saved : ∀ pageId index, pool.pageTable pageId = some index →
    pool.disk.Holds pageId (pool.frameAt index).page.data) :
    Sound { pool with
      frames := pool.frames.map fun frame => { frame with page := { frame.page with dirty := false } } } written := by
  have length : (pool.frames.map fun frame => { frame with page := { frame.page with dirty := false } }).length =
      pool.frames.length := length_map _
  refine ⟨sound.positive, ?_, ?_, ?_, ?_, sound.stored, sound.issued, ?_⟩
  · intro index below
    rw [frameAt_clean]
    exact sound.sizes index (length ▸ below)
  · intro pageId index listed
    rw [frameAt_clean]
    exact length.symm ▸ sound.listed pageId index listed
  · intro index below valid
    rw [frameAt_clean] at valid ⊢
    exact sound.resident index (length ▸ below) valid
  · intro pageId index listed
    rw [frameAt_clean]
    exact ⟨(sound.shown pageId index listed).1, fun _ => saved pageId index listed⟩
  · intro index member
    exact length.symm ▸ sound.free index member

theorem Sound.frames_distinct {first second : Nat} (inFirst : first < pool.frames.length)
    (inSecond : second < pool.frames.length) (valid : (pool.frameAt first).page.pageId ≠ invalidPageId)
    (same : (pool.frameAt first).page.pageId = (pool.frameAt second).page.pageId) : first = second := by
  have left := sound.resident first inFirst valid
  have right := sound.resident second inSecond (same ▸ valid)
  rw [same, right] at left
  exact (Option.some.inj left).symm

theorem Sound.dirty_distinct (chosen : Frame → Bool)
    (occupied : ∀ frame, chosen frame → frame.page.pageId ≠ invalidPageId) :
    (((pool.frames.filter chosen).map fun frame => (frame.page.pageId, frame.page.data)).map Prod.fst).Nodup := by
  rw [map_map, Nodup, pairwise_map, pairwise_filter, pairwise_iff_getElem]
  intro first second inFirst inSecond before here there same
  obtain ⟨-, left⟩ := frameAt_of_getElem? (getElem?_eq_getElem inFirst)
  obtain ⟨-, right⟩ := frameAt_of_getElem? (getElem?_eq_getElem inSecond)
  apply ne_of_lt before
  apply sound.frames_distinct inFirst inSecond
  · rw [left]
    exact occupied _ here
  · rw [left, right]
    exact same

theorem Sound.flushAll : pool.flushAll.1.Sound written ∧ pool.Flushed pool.flushAll.1 := by
  have snapped : ∀ entry ∈ (pool.frames.filter fun frame => frame.page.isOccupied ∧ frame.page.dirty).map
      (fun frame => (frame.page.pageId, frame.page.data)), ∃ index < pool.frames.length,
        pool.pageTable entry.1 = some index ∧ entry.2 = (pool.frameAt index).page.data := by
    intro entry member
    obtain ⟨frame, picked, rfl⟩ := mem_map.mp member
    obtain ⟨inPool, chosen⟩ := mem_filter.mp picked
    obtain ⟨index, below, rfl⟩ := getElem_of_mem inPool
    obtain ⟨-, here⟩ := frameAt_of_getElem? (getElem?_eq_getElem below)
    rw [← here] at chosen ⊢
    have valid : (pool.frameAt index).page.pageId ≠ invalidPageId := by
      simp only [isOccupied, decide_eq_true_eq] at chosen
      exact chosen.1
    exact ⟨index, below, sound.resident index below valid, rfl⟩
  have distinct := sound.dirty_distinct (fun frame => frame.page.isOccupied ∧ frame.page.dirty) (by
    intro frame chosen
    simp only [isOccupied, decide_eq_true_eq] at chosen
    exact chosen.1)
  obtain ⟨disk, wrote, rewrites⟩ := writePageSnapshots_rewrites sound.positive distinct
    (fun entry member => by
      obtain ⟨index, -, listed, -⟩ := snapped entry member
      exact sound.inHeap listed)
    (fun entry member => by
      obtain ⟨index, below, -, bytes⟩ := snapped entry member
      exact bytes ▸ sound.sizes index below)
  have moved := sound.rewritten rewrites (fun entry member => by
    obtain ⟨index, -, listed, bytes⟩ := snapped entry member
    exact bytes ▸ (sound.shown _ _ listed).1)
  have same := frameAt_disk rewrites.pageSize
  unfold BufferPoolManager.flushAll
  dsimp only
  rw [wrote]
  refine ⟨moved.clean fun pageId index listed => ?_, length_map _, fun index => ?_, rfl⟩
  rotate_left
  · exact (congrArg (·.page.pinCount) (frameAt_clean _ index)).trans (congrArg (·.page.pinCount) (same index))
  cases dirty : (pool.frameAt index).page.dirty with
  | false => exact (moved.shown pageId index listed).2 (same index ▸ dirty)
  | true =>
    rw [same]
    obtain ⟨below, named⟩ := sound.listed pageId index listed
    obtain ⟨-, here⟩ := frameAt_of_getElem? (getElem?_eq_getElem below)
    apply rewrites.holds (pageId, (pool.frameAt index).page.data)
    refine mem_map.mpr ⟨pool.frameAt index, mem_filter.mpr ⟨here ▸ getElem_mem below, ?_⟩, ?_⟩
    · have valid := (sound.inHeap listed).valid
      simp only [isOccupied, named, dirty, decide_eq_true_eq]
      exact ⟨valid, trivial⟩
    · rw [named]

end

structure Loads (pool after : BufferPoolManager) (pageId index : Nat) : Prop where
  unpinned : (pool.frameAt index).page.pinCount = 0
  length : after.frames.length = pool.frames.length
  pinned : (after.frameAt index).page.pinCount = 1
  frames : ∀ other, other ≠ index → after.frameAt other = pool.frameAt other
  table : after.pageTable pageId = some index
  others : ∀ other place, other ≠ pageId → pool.pageTable other = some place → place ≠ index →
    after.pageTable other = some place

theorem Claims.loads (claims : pool.Claims after index) (pageId : Nat) (frame : Frame)
    (pinned : frame.page.pinCount = 1)
    (clock : Nat) : pool.Loads { (after.setFrame index frame).remember pageId index with clock } pageId index := by
  have inside : index < after.frames.length := claims.length.symm ▸ claims.inside
  have frames : ∀ other, frameAt { (after.setFrame index frame).remember pageId index with clock } other =
      if other = index then frame else after.frameAt other :=
    frameAt_set inside frame
  refine ⟨claims.unpinned, ?_, ?_, fun other different => ?_, update_self _ _ _, ?_⟩
  · show (after.setFrame index frame).frames.length = _
    rw [length_setFrame, claims.length]
  · rw [frames, if_pos rfl, pinned]
  · rw [frames, if_neg different, claims.frames other different]
  · intro other place different listed apart
    show update after.pageTable pageId (some index) other = some place
    rw [update_of_ne different]
    exact (claims.table other place).mpr ⟨listed, apart⟩

theorem Claims.absent (claims : pool.Claims after index) (absent : pool.pageTable pageId = none) :
    after.pageTable pageId = none := by
  cases listed : after.pageTable pageId with
  | none => rfl
  | some place => exact absurd (absent.symm.trans ((claims.table pageId place).mp listed).1) nofun

def Refuses (pool after : BufferPoolManager) : Prop :=
  (∃ freeList ⊆ pool.freeList, after = { pool with freeList }) ∧
    ∀ index < pool.frames.length, 0 < (pool.frameAt index).page.pinCount

section

variable (sound : pool.Sound written)
include sound

theorem Sound.fetch_absent {data : Bytes} (known : written pageId = some data)
    (absent : pool.pageTable pageId = none) :
    (∃ after error, pool.fetchPage fetchTurns pageId = (after, some (.error error)) ∧ pool.Refuses after) ∨
      ∃ after index, pool.fetchPage fetchTurns pageId = (after, some (.ok ⟨pageId, index⟩)) ∧
        after.Sound written ∧ pool.Loads after pageId index := by
  have inHeap := (sound.issued pageId data known).2
  unfold fetchPage fetchTurns fetchLoop
  rw [if_neg inHeap.valid]
  unfold fetchTurn
  rw [absent]
  rcases sound.allocateFrame with ⟨⟨freeList, error, failed, subset⟩, pinned⟩ | ⟨middle, index, took, kept, claims⟩
  · rw [failed]
    exact .inl ⟨_, error, rfl, ⟨freeList, subset, rfl⟩, pinned⟩
  right
  rw [took]
  dsimp only
  have missing := claims.absent absent
  have inside : index < middle.frames.length := claims.length.symm ▸ claims.inside
  have holds := kept.stored pageId data known missing
  rw [readPage_holds (kept.issued pageId data known).2 holds (kept.sizes index inside)]
  dsimp only
  have table : (middle.recordAccess index ⟨⟨pageId, data, 1, false⟩, []⟩).pageTable pageId = none := missing
  rw [if_neg (by simp [table])]
  have bytes : data.length = middle.disk.pageSize := by rw [← holds.2, SparseFile.length_read]
  obtain ⟨history, clock, recorded⟩ := middle.recordAccess_eq index ⟨⟨pageId, data, 1, false⟩, []⟩
  have filled := kept.occupy inside claims.empty missing (kept.issued pageId data known)
    ⟨⟨pageId, data, 1, false⟩, history⟩ rfl bytes (fun _ => holds)
  rw [← known, update_eq_self] at filled
  rw [recorded]
  exact ⟨_, index, rfl, filled.withClock clock, claims.loads pageId _ rfl clock⟩

theorem Sound.fetch_resident (listed : pool.pageTable pageId = some index) :
    ∃ history clock, pool.fetchPage fetchTurns pageId =
      ({ pool.setFrame index ⟨(pool.frameAt index).page.pin, history⟩ with clock }, some (.ok ⟨pageId, index⟩)) := by
  unfold fetchPage fetchTurns fetchLoop
  rw [if_neg (sound.inHeap listed).valid]
  unfold fetchTurn
  rw [listed]
  dsimp only
  rw [if_neg (not_not.mpr (sound.listed pageId index listed).2)]
  exact ⟨_, _, rfl⟩

theorem Sound.pin (listed : pool.pageTable pageId = some index) (history : List Nat) :
    (pool.setFrame index ⟨(pool.frameAt index).page.pin, history⟩).Sound written := by
  apply sound.setMeta listed ⟨(pool.frameAt index).page.pin, history⟩
  · exact (sound.listed pageId index listed).2
  · rfl
  · exact (sound.shown pageId index listed).2

theorem Sound.allocatePage (inHeap : pool.disk.InHeap pool.disk.nextPageId) :
    Sound { pool with disk := pool.disk.allocatePage.2 } written := by
  have next : (pool.disk.nextPageId + 1) % 2 ^ 64 = pool.disk.nextPageId + 1 := by
    have small := inHeap.1
    omega
  refine { sound with issued := fun pageId data known => ?_ }
  obtain ⟨below, heap⟩ := sound.issued pageId data known
  refine ⟨?_, heap⟩
  show pageId < (pool.disk.nextPageId + 1) % 2 ^ 64
  omega

theorem Sound.newPage (inHeap : pool.disk.InHeap pool.disk.nextPageId) :
    (∃ after error, pool.newPage = (after, .error error) ∧
        Refuses { pool with disk := pool.disk.allocatePage.2 } after) ∨
      ∃ after index, pool.newPage = (after, .ok ⟨pool.disk.nextPageId, index⟩) ∧
        after.Sound (update written pool.disk.nextPageId (some (zeros after.disk.pageSize))) ∧
        pool.Loads after pool.disk.nextPageId index := by
  have next := sound.allocatePage inHeap
  unfold DiskManager.allocatePage at next ⊢
  unfold BufferPoolManager.newPage DiskManager.allocatePage
  dsimp only at next ⊢
  rcases next.allocateFrame with ⟨⟨freeList, error, failed, subset⟩, pinned⟩ | ⟨middle, index, took, kept, claims⟩
  · rw [failed]
    exact .inl ⟨_, error, rfl, ⟨freeList, subset, rfl⟩, pinned⟩
  right
  rw [took]
  dsimp only
  have inside : index < middle.frames.length := claims.length.symm ▸ claims.inside
  have size := kept.sizes index inside
  have issued : pool.disk.nextPageId < middle.disk.nextPageId ∧ middle.disk.InHeap pool.disk.nextPageId := by
    have small := inHeap.1
    unfold InHeap
    rw [claims.nextPageId, claims.pageSize]
    exact ⟨by dsimp only; omega, inHeap⟩
  have zeros : (middle.frameAt index).page.reset.data = zeros middle.disk.pageSize := by
    unfold reset
    rw [size]
  rw [zeros]
  obtain ⟨history, clock, recorded⟩ := middle.recordAccess_eq index
    ⟨⟨pool.disk.nextPageId, Page.zeros middle.disk.pageSize, 1, true⟩, []⟩
  have filled := kept.occupy inside claims.empty (claims.absent sound.unissued) issued
    ⟨⟨pool.disk.nextPageId, Page.zeros middle.disk.pageSize, 1, true⟩, history⟩ rfl length_replicate nofun
  have loads := claims.loads pool.disk.nextPageId
    ⟨⟨pool.disk.nextPageId, Page.zeros middle.disk.pageSize, 1, true⟩, history⟩ rfl clock
  rw [recorded]
  exact ⟨_, index, rfl, filled.withClock clock, { loads with }⟩

theorem Sound.unpin (listed : pool.pageTable pageId = some index) (pinned : 0 < (pool.frameAt index).page.pinCount) :
    ∃ frame, (pool.unpin pageId).1 = pool.setFrame index frame ∧
      (pool.setFrame index frame).Sound written ∧ frame.page.pinCount + 1 = (pool.frameAt index).page.pinCount := by
  obtain ⟨inside, named⟩ := sound.listed pageId index listed
  unfold BufferPoolManager.unpin
  rw [listed]
  dsimp only
  rw [if_neg (not_not.mpr named), if_neg (ne_of_gt pinned)]
  refine ⟨_, rfl, ?_, Nat.sub_add_cancel pinned⟩
  apply sound.setMeta listed
  · exact named
  · rfl
  · exact (sound.shown pageId index listed).2

end

theorem length_mutate (change : Bytes → Bytes) (data : Bytes) : (mutate change data).length = data.length := by
  unfold mutate
  rw [length_append, length_take, length_drop]
  omega

theorem Sound.guardWrite (sound : pool.Sound written) (listed : pool.pageTable pageId = some index)
    (change : Bytes → Bytes) : ∃ frame, (pool.guardWrite ⟨pageId, index⟩ change) = pool.setFrame index frame ∧
      (pool.setFrame index frame).Sound (update written pageId ((written pageId).map (mutate change))) ∧
      frame.page.pinCount = (pool.frameAt index).page.pinCount := by
  obtain ⟨inside, named⟩ := sound.listed pageId index listed
  unfold BufferPoolManager.guardWrite markDirty
  rw [listed]
  dsimp only
  rw [if_pos named, frameAt_set inside, if_pos rfl, (sound.shown pageId index listed).1]
  refine ⟨⟨⟨(pool.frameAt index).page.pageId, mutate change (pool.frameAt index).page.data,
    (pool.frameAt index).page.pinCount, true⟩, (pool.frameAt index).history⟩, ?_, ?_, rfl⟩
  · unfold setFrame
    rw [set_set]
  · apply sound.setPage listed
    · exact named
    · exact (length_mutate _ _).trans (sound.sizes index inside)
    · nofun

end BufferPoolManager

namespace PoolSession

structure Kept (session : PoolSession) : Prop where
  sound : session.pool.Sound session.written
  pins : ∀ index < session.pool.frames.length,
    (session.pool.frameAt index).page.pinCount = session.guards.countP (·.frame = index)
  held : ∀ guard ∈ session.guards, session.pool.pageTable guard.pageId = some guard.frame

variable {session : PoolSession} {pool : BufferPoolManager} {written : Nat → Option Bytes} {pageId index : Nat}

section

variable (kept : session.Kept)
include kept

theorem Kept.pinned {guard : PageGuard} (member : guard ∈ session.guards) :
    0 < (session.pool.frameAt guard.frame).page.pinCount := by
  rw [kept.pins _ (kept.sound.listed _ _ (kept.held guard member)).1, countP_pos_iff]
  exact ⟨guard, member, by simp⟩

theorem Kept.load (loads : session.pool.Loads pool pageId index) (sound : pool.Sound written)
    (absent : session.pool.pageTable pageId = none) :
    Kept ⟨pool, session.guards ++ [⟨pageId, index⟩], written⟩ := by
  have others : ∀ guard ∈ session.guards, guard.frame ≠ index := by
    intro guard member here
    have pinned := kept.pinned member
    rw [here, loads.unpinned] at pinned
    exact lt_irrefl _ pinned
  refine ⟨sound, ?_, ?_⟩
  · intro other below
    rw [countP_append]
    by_cases here : other = index
    · have none : session.guards.countP (·.frame = index) = 0 := by
        rw [countP_eq_zero]
        intro guard member
        simpa using others guard member
      subst here
      rw [none]
      simpa using loads.pinned
    · rw [loads.frames other here, kept.pins other (loads.length ▸ below)]
      simp [Ne.symm here]
  · refine forall_mem_append.mpr ⟨fun guard before => ?_, forall_mem_singleton.mpr loads.table⟩
    have listed := kept.held guard before
    apply loads.others guard.pageId guard.frame _ listed (others guard before)
    intro same
    rw [same, absent] at listed
    cases listed

theorem Kept.setFrame (listed : session.pool.pageTable pageId = some index) {frame : Frame}
    (sound : (session.pool.setFrame index frame).Sound written) {guards : List PageGuard}
    (subset : ∀ guard ∈ guards, guard ∈ session.guards ∨ guard = ⟨pageId, index⟩)
    (pins : frame.page.pinCount = guards.countP (·.frame = index))
    (others : ∀ other, other ≠ index → guards.countP (·.frame = other) = session.guards.countP (·.frame = other)) :
    Kept ⟨session.pool.setFrame index frame, guards, written⟩ := by
  obtain ⟨inside, -⟩ := kept.sound.listed pageId index listed
  refine ⟨sound, ?_, ?_⟩
  · intro other below
    rw [frameAt_set inside]
    split
    · subst_vars
      exact pins
    · rename_i different
      rw [others other different]
      exact kept.pins other (length_setFrame _ _ _ ▸ below)
  · intro guard member
    rcases subset guard member with before | rfl
    · exact kept.held guard before
    · exact listed

theorem Kept.withClock (clock : Nat) : Kept { session with pool := { session.pool with clock } } :=
  ⟨kept.sound.withClock clock, kept.pins, kept.held⟩

theorem Kept.guards_on (listed : session.pool.pageTable pageId = some index) :
    session.guards.countP (·.frame = index) = session.guards.countP (·.pageId = pageId) := by
  apply countP_congr
  intro guard member
  have here := kept.held guard member
  simp only [decide_eq_true_eq]
  constructor
  · intro same
    rw [same] at here
    exact (kept.sound.listed _ _ here).2.symm.trans (kept.sound.listed _ _ listed).2
  · intro same
    rw [same, listed] at here
    exact (Option.some.inj here).symm

theorem Kept.refuse (refuses : session.pool.Refuses pool) : Kept { session with pool } := by
  obtain ⟨⟨freeList, subset, rfl⟩, -⟩ := refuses
  exact ⟨kept.sound.withFree subset, kept.pins, kept.held⟩

end

/-- What the run asks of a step: a new page has a place in the page file, and no page is pinned so often that
    its pin count saturates. Only pages that the pool has given out are fetched. -/
def Allowed (session : PoolSession) : PoolOp → Prop
  | .newPage => session.pool.disk.InHeap session.pool.disk.nextPageId
  | .fetchPage pageId => (session.written pageId).isSome ∧ session.guards.countP (·.pageId = pageId) < 2 ^ 32 - 1
  | _ => True

instance : Decidable (session.Allowed op) := by
  rcases op with ⟨⟩ <;> unfold Allowed <;> infer_instance

section

variable (kept : session.Kept)
include kept

theorem Kept.newPage (inHeap : session.pool.disk.InHeap session.pool.disk.nextPageId) :
    (session.step .newPage).Kept := by
  unfold step
  rcases kept.sound.newPage inHeap with ⟨after, error, failed, refuses⟩ | ⟨after, index, made, sound, loads⟩
  · rw [failed]
    have allocated : Kept { session with pool := { session.pool with disk := session.pool.disk.allocatePage.2 } } :=
      ⟨kept.sound.allocatePage inHeap, kept.pins, kept.held⟩
    exact allocated.refuse refuses
  · rw [made]
    exact kept.load loads sound kept.sound.unissued

theorem Kept.fetchPage {data : Bytes} (known : session.written pageId = some data)
    (room : session.guards.countP (·.pageId = pageId) < 2 ^ 32 - 1) : (session.step (.fetchPage pageId)).Kept := by
  unfold step
  dsimp only
  cases listed : session.pool.pageTable pageId with
  | none =>
    rcases kept.sound.fetch_absent known listed with
      ⟨after, error, failed, refuses⟩ | ⟨after, index, made, sound, loads⟩
    · rw [failed]
      exact kept.refuse refuses
    · rw [made]
      exact kept.load loads sound listed
  | some index =>
    obtain ⟨inside, -⟩ := kept.sound.listed pageId index listed
    obtain ⟨history, clock, made⟩ := kept.sound.fetch_resident listed
    rw [made]
    have pinned : Kept ⟨session.pool.setFrame index ⟨(session.pool.frameAt index).page.pin, history⟩,
        session.guards ++ [⟨pageId, index⟩], session.written⟩ := by
      refine kept.setFrame listed (kept.sound.pin listed history) ?_ ?_ ?_
      · intro guard member
        simpa using member
      · have count := kept.pins index inside
        rw [kept.guards_on listed] at count
        simp only [pin, countP_append, countP_singleton, kept.guards_on listed, decide_true, if_true]
        omega
      · intro other different
        rw [countP_append, countP_singleton, if_neg (by simpa using Ne.symm different), Nat.add_zero]
    exact pinned.withClock clock

theorem Kept.write (index : Nat) (change : Bytes → Bytes) : (session.step (.write index change)).Kept := by
  unfold step
  dsimp only
  cases found : session.guards[index]? with
  | none => exact kept
  | some guard =>
    have listed := kept.held guard (mem_of_getElem? found)
    obtain ⟨inside, -⟩ := kept.sound.listed _ _ listed
    obtain ⟨frame, made, sound, pins⟩ := kept.sound.guardWrite listed change
    dsimp only
    rw [made]
    apply kept.setFrame listed sound
    · exact fun _ => .inl
    · rw [pins, kept.pins _ inside]
    · exact fun _ _ => rfl

theorem Kept.drop (index : Nat) : (session.step (.drop index)).Kept := by
  unfold step
  dsimp only
  cases found : session.guards[index]? with
  | none => exact kept
  | some guard =>
    have member := mem_of_getElem? found
    have listed := kept.held guard member
    obtain ⟨inside, -⟩ := kept.sound.listed _ _ listed
    obtain ⟨frame, made, sound, pins⟩ := kept.sound.unpin listed (kept.pinned member)
    obtain ⟨below, here⟩ := List.getElem?_eq_some_iff.mp found
    have count : ∀ place, session.guards.countP (·.frame = place) =
        (session.guards.eraseIdx index).countP (·.frame = place) + if guard.frame = place then 1 else 0 := by
      intro place
      rw [← (getElem_cons_eraseIdx_perm below).countP_eq, here, countP_cons]
      simp only [decide_eq_true_eq]
    dsimp only
    rw [made]
    apply kept.setFrame listed sound
    · exact fun _ remaining => .inl (mem_of_mem_eraseIdx remaining)
    · have before := kept.pins _ inside
      rw [count, if_pos rfl] at before
      omega
    · intro other different
      rw [count other, if_neg (Ne.symm different), Nat.add_zero]

theorem Kept.flushed (sound : pool.Sound session.written) (flushed : session.pool.Flushed pool) :
    Kept { session with pool } := by
  refine ⟨sound, fun index below => ?_, fun guard member => ?_⟩
  · exact (flushed.pins index).trans (kept.pins index (flushed.length ▸ below))
  · exact (congrFun flushed.table _).trans (kept.held guard member)

theorem Kept.step {op : PoolOp} (allowed : session.Allowed op) : (session.step op).Kept := by
  cases op with
  | newPage => exact kept.newPage allowed
  | fetchPage pageId =>
    obtain ⟨data, known⟩ := Option.isSome_iff_exists.mp allowed.1
    exact kept.fetchPage known allowed.2
  | write index change => exact kept.write index change
  | drop index => exact kept.drop index
  | flushPage pageId =>
    obtain ⟨sound, flushed⟩ := kept.sound.flushPage pageId
    exact kept.flushed sound flushed
  | flushAll =>
    obtain ⟨sound, flushed⟩ := kept.sound.flushAll
    exact kept.flushed sound flushed

end

def Opened (file : SparseFile UInt8) (pageSize poolSize k : Nat) (pool : BufferPoolManager) : Prop :=
  ∃ disk, openLocal file pageSize = .ok disk ∧ new disk poolSize k = .ok pool

theorem start_kept {file : SparseFile UInt8} {pageSize poolSize k : Nat}
    (opened : Opened file pageSize poolSize k pool) : (start pool).Kept := by
  obtain ⟨disk, opens, makes⟩ := opened
  unfold openLocal at opens
  unfold new at makes
  split at opens
  · cases opens
  rename_i proper
  split at makes
  · cases makes
  split at makes
  · cases makes
  cases opens
  cases makes
  have frames : ∀ index, frameAt ⟨⟨pageSize, file, min (file.length / pageSize) (2 ^ 32 - 1), fun _ => none⟩, k,
      replicate poolSize ⟨newAligned pageSize, []⟩, fun _ => none, range poolSize, 1⟩ index =
        ⟨newAligned pageSize, []⟩ := by
    intro index
    unfold frameAt
    rw [getD_eq_getElem?_getD, getElem?_replicate]
    split <;> rfl
  refine ⟨⟨?_, ?_, nofun, ?_, nofun, nofun, nofun, ?_⟩, ?_, nofun⟩
  · show 0 < pageSize
    omega
  · intro index _
    unfold start
    rw [frames]
    exact length_replicate
  · intro index _ valid
    unfold start at valid
    rw [frames] at valid
    exact absurd rfl valid
  · intro index member
    simpa [start] using member
  · intro index _
    unfold start
    rw [frames]
    rfl

def AllPinned (session : PoolSession) : Prop :=
  ∀ index < session.pool.frames.length, ∃ guard ∈ session.guards, guard.frame = index

instance : Decidable session.AllPinned := inferInstanceAs (Decidable (∀ _ < _, _))

theorem Kept.allPinned (kept : session.Kept)
    (pinned : ∀ index < session.pool.frames.length, 0 < (session.pool.frameAt index).page.pinCount) :
    session.AllPinned := by
  intro index below
  have some := pinned index below
  rw [kept.pins index below] at some
  simpa using some

/-- The pool behaves as a store of pages, which refuses only when every frame is in use. -/
structure Refines (session : PoolSession) : Prop where
  resident : ∀ guard ∈ session.guards, (session.pool.frameAt guard.frame).page.pageId = guard.pageId ∧
    session.pool.pageTable guard.pageId = some guard.frame ∧
    session.written guard.pageId = some (session.pool.guardRead guard)
  distinct : ∀ first < session.pool.frames.length, ∀ second < session.pool.frames.length,
    (session.pool.frameAt first).page.isOccupied →
    (session.pool.frameAt first).page.pageId = (session.pool.frameAt second).page.pageId → first = second
  fetched : ∀ pageId, (session.written pageId).isSome → match session.pool.fetchPage fetchTurns pageId with
    | (after, some (.ok guard)) => guard.pageId = pageId ∧ session.written pageId = some (after.guardRead guard)
    | (_, some (.error _)) => session.AllPinned
    | (_, none) => False
  made : session.Allowed .newPage → match session.pool.newPage with
    | (after, .ok guard) => session.written guard.pageId = none ∧
        after.guardRead guard = zeros after.disk.pageSize
    | (_, .error _) => session.AllPinned

theorem Kept.fetched (kept : session.Kept) {data : Bytes} (known : session.written pageId = some data) :
    match session.pool.fetchPage fetchTurns pageId with
    | (after, some (.ok guard)) => guard.pageId = pageId ∧ session.written pageId = some (after.guardRead guard)
    | (_, some (.error _)) => session.AllPinned
    | (_, none) => False := by
  cases listed : session.pool.pageTable pageId with
  | none =>
    rcases kept.sound.fetch_absent known listed with
      ⟨after, error, failed, refuses⟩ | ⟨after, index, made, sound, loads⟩
    · rw [failed]
      exact kept.allPinned refuses.2
    · rw [made]
      exact ⟨rfl, (sound.shown pageId index loads.table).1⟩
  | some index =>
    obtain ⟨history, clock, made⟩ := kept.sound.fetch_resident listed
    rw [made]
    exact ⟨rfl, ((kept.sound.pin listed history).shown pageId index listed).1⟩

theorem Kept.made (kept : session.Kept) (inHeap : session.pool.disk.InHeap session.pool.disk.nextPageId) :
    match session.pool.newPage with
    | (after, .ok guard) => session.written guard.pageId = none ∧
        after.guardRead guard = zeros after.disk.pageSize
    | (_, .error _) => session.AllPinned := by
  rcases kept.sound.newPage inHeap with ⟨after, error, failed, refuses⟩ | ⟨after, index, made, sound, loads⟩
  · rw [failed]
    exact kept.allPinned refuses.2
  rw [made]
  constructor
  · cases known : session.written session.pool.disk.nextPageId with
    | none => rfl
    | some data => exact absurd (kept.sound.issued _ _ known).1 (lt_irrefl _)
  · have shown := (sound.shown _ _ loads.table).1
    rw [update_self] at shown
    exact (Option.some.inj shown).symm

/-- In every run whose steps are all allowed, over any page file and with any number of frames and any K. -/
theorem run_refines {file : SparseFile UInt8} {pageSize poolSize k : Nat} {ops : List PoolOp}
    (opened : Opened file pageSize poolSize k pool) (along : Along step Allowed (start pool) ops) :
    (run step (start pool) ops).Refines := by
  have kept := along.invariant (P := Kept) (start_kept opened) fun _ _ kept allowed => kept.step allowed
  refine ⟨fun guard member => ?_, ?_, fun pageId given => ?_, kept.made⟩
  · have listed := kept.held guard member
    exact ⟨(kept.sound.listed _ _ listed).2, listed, (kept.sound.shown _ _ listed).1⟩
  · intro first inFirst second inSecond occupied same
    exact kept.sound.frames_distinct inFirst inSecond (by simpa [isOccupied] using occupied) same
  · obtain ⟨data, known⟩ := Option.isSome_iff_exists.mp given
    exact kept.fetched known

/-- A pool of two frames over a page file of the given number of pages, each of 512 bytes. -/
def twoFrames (pages : Nat) : BufferPoolManager :=
  ⟨⟨512, ⟨512 * pages, fun _ => 0⟩, min pages (2 ^ 32 - 1), fun _ => none⟩, 1,
    replicate 2 ⟨newAligned 512, []⟩, fun _ => none, range 2, 1⟩

/-- Two pages are made, the second is written and given back, and a third page takes its frame. -/
def evicting : List PoolOp := [.newPage, .newPage, .write 1 fun _ => [7], .drop 1, .newPage, .drop 1]

theorem run_refines_evicted : (run step (start (twoFrames 3)) (evicting ++ [.fetchPage 4])).Refines :=
  have opened : Opened ⟨512 * 3, fun _ => 0⟩ 512 2 1 (twoFrames 3) := ⟨(twoFrames 3).disk, rfl, rfl⟩
  run_refines opened (by decide +kernel)

/-- The second page has an id of more than 32 bits. What was written to it is lost, and it cannot be fetched
    although a frame is free. -/
theorem evicted_page_lost : ∃ file pageSize poolSize k pool error, Opened file pageSize poolSize k pool ∧
    ((run step (start pool) evicting).written (2 ^ 32)).map (·.take 1) = some [7] ∧
    ((run step (start pool) evicting).pool.fetchPage fetchTurns (2 ^ 32)).2 = some (.error error) ∧
    ¬ (run step (start pool) evicting).AllPinned := by
  refine ⟨⟨512 * (2 ^ 32 - 1), fun _ => 0⟩, 512, 2, 1, twoFrames (2 ^ 32 - 1), .engine "unknown disk file id 1",
    ⟨(twoFrames (2 ^ 32 - 1)).disk, rfl, rfl⟩, ?_, ?_, ?_⟩
  · decide +kernel
  · decide +kernel
  · decide +kernel

end PoolSession

end Takyonic
