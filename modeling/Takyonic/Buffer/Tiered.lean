import Takyonic.Buffer.PoolSound

namespace Takyonic

open Foundation List Page

namespace DiskManager

variable {disk : DiskManager} {pageId count : Nat} {data : Bytes}

theorem writePageLocal_hole (positive : 0 < disk.pageSize) (inHeap : disk.InHeap pageId)
    (size : data.length = disk.pageSize) (length : disk.file.length = count * disk.pageSize) (behind : count ≤ pageId) :
    ∃ after, disk.writePageLocal pageId data = .ok after ∧ disk.Rewrites after [(pageId, data)] ∧
      after.file.length = (pageId + 1) * disk.pageSize ∧ ∀ hole, count ≤ hole → hole < pageId →
        after.file.read (hole * disk.pageSize) disk.pageSize = zeros disk.pageSize := by
  obtain ⟨after, written, rewrites⟩ := writePageLocal_rewrites positive inHeap size
  refine ⟨after, written, rewrites, ?_⟩
  have fits := inHeap.offset
  have end_le := Nat.mul_le_mul_right disk.pageSize behind
  unfold writePageLocal at written
  rw [if_neg (by omega)] at written
  dsimp only at written
  rw [if_pos (by omega), ← Nat.succ_mul, aligned_eq positive] at written
  cases written
  refine ⟨?_, fun hole start before => ?_⟩
  · show max (pageId.succ * disk.pageSize) (pageId * disk.pageSize + data.length) = _
    rw [size, ← Nat.succ_mul, Nat.max_self]
  · rw [SparseFile.read_write_apart, SparseFile.read_setLen_behind]
    · rfl
    · rw [length]
      exact Nat.mul_le_mul_right _ start
    · rw [size]
      exact blocks_apart (ne_of_gt before)

end DiskManager

/-- A page file over an object store. `remote` holds the objects of the chunks, by chunk id. -/
structure TieredDisk where
  disk : DiskManager
  chunkSize : Nat
  remote : Nat → Option Bytes

namespace TieredDisk

section

variable (tier : TieredDisk)

def pagesPerChunk : Nat := tier.chunkSize / tier.disk.pageSize

def chunkIdForPage (pageId : Nat) : Nat := pageId / tier.pagesPerChunk

def offsetInChunk (pageId : Nat) : Nat := pageId % tier.pagesPerChunk * tier.disk.pageSize

def readPageRemote (pageId : Nat) : Option Bytes :=
  (tier.remote (tier.chunkIdForPage pageId)).map fun object =>
    (object.drop (tier.offsetInChunk pageId)).take tier.disk.pageSize

def readPage (tier : TieredDisk) (pageId : Nat) (page : Page) : TieredDisk × Except TakyonicError Page :=
  let offset := pageId * tier.disk.pageSize
  -- Neither an error, nor a page of a registered file, nor one the local file reaches to asks the object store.
  if page.data.length ≠ tier.disk.pageSize ∨ isFileCachePage pageId ∨ 2 ^ 64 ≤ offset ∨
      offset + tier.disk.pageSize ≤ tier.disk.file.length then
    (tier, tier.disk.readPage pageId page)
  else
    let bytes := (tier.readPageRemote pageId).getD []
    if bytes = [] then (tier, tier.disk.readPage pageId page)
    else
      let data := bytes ++ zeros (tier.disk.pageSize - bytes.length)
      match tier.disk.writePageLocal pageId data with
      | .error error => (tier, .error error)
      | .ok disk => ({ tier with disk }, .ok { page with pageId, data, dirty := false })

def held (pageId : Nat) : Bytes := (tier.readPageRemote pageId).getD []

def stored (pageId : Nat) : Bytes :=
  tier.held pageId ++ zeros (tier.disk.pageSize - (tier.held pageId).length)

def readPages (reads : List (Nat × Page)) : TieredDisk :=
  reads.foldl (fun tier read => (tier.readPage read.1 read.2).1) tier

def Fits (read : Nat × Page) : Prop :=
  tier.disk.InHeap read.1 ∧ read.2.data.length = tier.disk.pageSize

instance (tier : TieredDisk) (read : Nat × Page) : Decidable (tier.Fits read) := inferInstanceAs (Decidable (_ ∧ _))

/-- Before the page was first read, the reads have fetched no page behind it. -/
def Ahead (reads : List (Nat × Page)) (pageId : Nat) : Prop :=
  ∀ read ∈ reads.takeWhile (fun read => read.1 ≠ pageId), tier.held read.1 ≠ [] → read.1 < pageId

end

instance (tier : TieredDisk) (reads : List (Nat × Page)) (pageId : Nat) : Decidable (tier.Ahead reads pageId) :=
  inferInstanceAs (Decidable (∀ _ ∈ _, _ → _))

variable {cold tier : TieredDisk} {reads : List (Nat × Page)} {read : Nat × Page} {pageId count : Nat} {page : Page}

theorem takeWhile_all (absent : pageId ∉ reads.map Prod.fst) (rest : List (Nat × Page)) :
    (reads ++ rest).takeWhile (fun read => read.1 ≠ pageId) = reads ++ rest.takeWhile fun read => read.1 ≠ pageId := by
  apply takeWhile_append_of_pos
  intro read member
  simp only [decide_eq_true_eq]
  rintro rfl
  exact absent (mem_map_of_mem member)

theorem takeWhile_seen (seen : pageId ∈ reads.map Prod.fst) (rest : List (Nat × Page)) :
    (reads ++ rest).takeWhile (fun read => read.1 ≠ pageId) = reads.takeWhile fun read => read.1 ≠ pageId := by
  obtain ⟨first, member, rfl⟩ := mem_map.mp seen
  obtain ⟨before, after, rfl⟩ := append_of_mem member
  induction before with
  | nil => simp
  | cons other before ih => simp only [cons_append, takeWhile_cons, ih (by simp) (by simp)]

theorem ahead_absent (absent : pageId ∉ reads.map Prod.fst) :
    tier.Ahead reads pageId ↔ ∀ read ∈ reads, tier.held read.1 ≠ [] → read.1 < pageId := by
  have all := takeWhile_all absent []
  rw [takeWhile_nil, append_nil] at all
  rw [Ahead, all]

theorem ahead_snoc (settled : pageId ∈ reads.map Prod.fst ∨ read.1 = pageId ∨ tier.held read.1 = [] ∨
    ¬ tier.Ahead reads pageId) : tier.Ahead (reads ++ [read]) pageId ↔ tier.Ahead reads pageId := by
  by_cases seen : pageId ∈ reads.map Prod.fst
  · rw [Ahead, takeWhile_seen seen, Ahead]
  rw [ahead_absent seen] at settled ⊢
  rw [Ahead, takeWhile_all seen]
  constructor
  · intro all other member
    exact all other (mem_append_left _ member)
  · intro all other member holds
    rcases mem_append.mp member with earlier | last
    · exact all other earlier holds
    obtain ⟨rfl, different⟩ : other = read ∧ read.1 ≠ pageId := by by_cases same : read.1 = pageId <;> simp_all
    rcases settled with present | same | empty | passed
    · exact absurd present seen
    · exact absurd same different
    · exact absurd empty holds
    · exact absurd all passed

theorem length_stored (tier : TieredDisk) (pageId : Nat) : (tier.stored pageId).length = tier.disk.pageSize := by
  have short : (tier.held pageId).length ≤ tier.disk.pageSize := by
    unfold held readPageRemote
    cases tier.remote (tier.chunkIdForPage pageId) <;> simp
  simp only [stored, zeros, length_append, length_replicate]
  omega

/-- The local file reaches to the last page fetched, with zeros where the fetches jumped over a page. -/
structure Hydrated (cold tier : TieredDisk) (reads : List (Nat × Page)) (count : Nat) : Prop where
  pageSize : tier.disk.pageSize = cold.disk.pageSize
  held : tier.held = cold.held
  length : tier.disk.file.length = count * cold.disk.pageSize
  reaches : ∀ pageId, pageId < count ↔ ∃ read ∈ reads, cold.held read.1 ≠ [] ∧ pageId ≤ read.1
  pages : ∀ pageId < count, tier.disk.file.read (pageId * cold.disk.pageSize) cold.disk.pageSize =
    if cold.Ahead reads pageId then cold.stored pageId else zeros cold.disk.pageSize

section

variable (hydrated : Hydrated cold tier reads count)
include hydrated

theorem Hydrated.ahead (behind : count ≤ pageId) : cold.Ahead reads pageId := by
  intro read member holds
  have fetched := (hydrated.reaches read.1).mpr ⟨read, (takeWhile_sublist _).mem member, holds, le_rfl⟩
  omega

theorem Hydrated.seen (inside : pageId < count) (ahead : cold.Ahead reads pageId) :
    pageId ∈ reads.map Prod.fst := by
  by_contra absent
  rw [ahead_absent absent] at ahead
  obtain ⟨read, member, holds, reached⟩ := (hydrated.reaches pageId).mp inside
  have before := ahead read member holds
  omega

theorem Hydrated.ahead_snoc_iff (inside : pageId < count) :
    cold.Ahead (reads ++ [read]) pageId ↔ cold.Ahead reads pageId := by
  apply ahead_snoc
  by_cases ahead : cold.Ahead reads pageId
  · exact .inl (hydrated.seen inside ahead)
  · exact .inr (.inr (.inr ahead))

theorem Hydrated.snoc (idle : cold.held read.1 ≠ [] → read.1 < count) :
    Hydrated cold tier (reads ++ [read]) count where
  pageSize := hydrated.pageSize
  held := hydrated.held
  length := hydrated.length
  reaches pageId := by
    rw [hydrated.reaches]
    constructor
    · rintro ⟨other, member, fetched⟩
      exact ⟨other, mem_append_left _ member, fetched⟩
    · rintro ⟨other, member, holds, reached⟩
      rcases mem_append.mp member with earlier | last
      · exact ⟨other, earlier, holds, reached⟩
      · rw [mem_singleton.mp last] at holds reached
        obtain ⟨other, member, holds, further⟩ := (hydrated.reaches read.1).mp (idle holds)
        exact ⟨other, member, holds, le_trans reached further⟩
  pages pageId inside := by
    rw [hydrated.pages _ inside]
    simp only [hydrated.ahead_snoc_iff inside]

theorem Hydrated.stored_hole (behind : count ≤ pageId) (hole : pageId < read.1) (holds : cold.held read.1 ≠ [])
    (ahead : cold.Ahead (reads ++ [read]) pageId) : cold.stored pageId = zeros cold.disk.pageSize := by
  by_cases seen : pageId ∈ reads.map Prod.fst
  · obtain ⟨other, member, rfl⟩ := mem_map.mp seen
    have nothing : cold.held other.1 = [] := by
      by_contra fetched
      have inside := (hydrated.reaches other.1).mpr ⟨other, member, fetched, le_rfl⟩
      omega
    simp [stored, nothing]
  · have absent : pageId ∉ (reads ++ [read]).map Prod.fst := by
      simp only [map_append, mem_append, map_singleton, mem_singleton, not_or]
      exact ⟨seen, ne_of_lt hole⟩
    have before := (ahead_absent absent).mp ahead read (by simp) holds
    omega

theorem Hydrated.fetch (positive : 0 < cold.disk.pageSize) (inHeap : tier.disk.InHeap read.1)
    (holds : cold.held read.1 ≠ []) (behind : count ≤ read.1) :
    ∃ disk, tier.disk.writePageLocal read.1 (cold.stored read.1) = .ok disk ∧
      Hydrated cold { tier with disk } (reads ++ [read]) (read.1 + 1) := by
  have size := cold.length_stored read.1
  have length := hydrated.length
  rw [← hydrated.pageSize] at positive size length
  obtain ⟨disk, written, rewrites, grown, holes⟩ :=
    DiskManager.writePageLocal_hole positive inHeap size length behind
  have same := rewrites.pageSize
  rw [hydrated.pageSize] at grown holes same
  refine ⟨disk, written, same, ?_, grown, fun pageId => ?_, fun pageId inside => ?_⟩
  · rw [← hydrated.held]
    unfold TieredDisk.held readPageRemote chunkIdForPage offsetInChunk pagesPerChunk
    simp only [rewrites.pageSize]
  · rw [Nat.lt_succ_iff]
    constructor
    · intro reached
      exact ⟨read, by simp, holds, reached⟩
    · rintro ⟨other, member, fetched, reached⟩
      rcases mem_append.mp member with earlier | last
      · have before := (hydrated.reaches other.1).mpr ⟨other, earlier, fetched, le_rfl⟩
        omega
      · rwa [mem_singleton.mp last] at reached
  · rcases lt_or_ge pageId count with old | new
    · have kept := rewrites.others pageId _ (by simp; omega) ⟨by rw [length]; exact Nat.mul_le_mul_right _ old, rfl⟩
      have bytes := kept.2
      rw [same, hydrated.pageSize, hydrated.pages _ old] at bytes
      rw [bytes]
      simp only [hydrated.ahead_snoc_iff old]
    · rcases lt_or_ge pageId read.1 with hole | last
      · rw [holes pageId new hole]
        split
        · rename_i ahead
          rw [hydrated.stored_hole new hole holds ahead]
        · rfl
      · obtain rfl : pageId = read.1 := by omega
        have bytes := (rewrites.holds _ (mem_singleton_self _)).2
        rw [same] at bytes
        rw [bytes, if_pos ((ahead_snoc (.inr (.inl rfl))).mpr (hydrated.ahead behind))]

theorem Hydrated.readPage (positive : 0 < cold.disk.pageSize) (fits : cold.Fits read) :
    (tier.readPage read.1 read.2).2 = .ok { read.2 with
      pageId := read.1
      data := if cold.Ahead reads read.1 then cold.stored read.1 else zeros cold.disk.pageSize
      dirty := false } ∧
    ∃ count, Hydrated cold (tier.readPage read.1 read.2).1 (reads ++ [read]) count := by
  obtain ⟨inHeap, size⟩ := fits
  have inHeap : tier.disk.InHeap read.1 := by rwa [DiskManager.InHeap, hydrated.pageSize]
  have bounds := inHeap.offset
  have notCached := inHeap.notFileCache
  have held : (tier.readPageRemote read.1).getD [] = cold.held read.1 := congrFun hydrated.held read.1
  rw [← hydrated.pageSize] at size
  have length := hydrated.length
  rw [← hydrated.pageSize] at length
  by_cases inside : read.1 < count
  · have reached : read.1 * tier.disk.pageSize + tier.disk.pageSize ≤ tier.disk.file.length := by
      rw [length, ← Nat.succ_mul]
      exact Nat.mul_le_mul_right _ inside
    have result : tier.readPage read.1 read.2 = (tier, tier.disk.readPage read.1 read.2) :=
      if_pos (.inr (.inr (.inr reached)))
    rw [result]
    refine ⟨?_, count, hydrated.snoc fun _ => inside⟩
    simp only [DiskManager.readPage, size, notCached, ne_eq, not_true_eq_false, if_false, Bool.false_eq_true]
    rw [if_neg (by omega), if_pos reached, ← hydrated.pages _ inside, hydrated.pageSize]
  · have missing : ¬ read.1 * tier.disk.pageSize + tier.disk.pageSize ≤ tier.disk.file.length := by
      have order := Nat.mul_le_mul_right tier.disk.pageSize (Nat.ge_of_not_lt inside)
      rw [← hydrated.pageSize] at positive
      omega
    rw [if_pos (hydrated.ahead (Nat.ge_of_not_lt inside))]
    simp only [TieredDisk.readPage, size, notCached, held, ne_eq, not_true_eq_false, Bool.false_eq_true, false_or]
    rw [if_neg (by omega)]
    by_cases empty : cold.held read.1 = []
    · rw [if_pos empty]
      refine ⟨?_, count, hydrated.snoc fun holds => absurd empty holds⟩
      simp only [DiskManager.readPage, size, notCached, ne_eq, not_true_eq_false, if_false, Bool.false_eq_true]
      rw [if_neg (by omega), if_neg missing, stored, empty, hydrated.pageSize]
      rfl
    · rw [if_neg empty, hydrated.pageSize]
      obtain ⟨disk, written, fetched⟩ := hydrated.fetch positive inHeap empty (Nat.ge_of_not_lt inside)
      rw [← stored, written]
      exact ⟨rfl, _, fetched⟩

end

theorem Hydrated.readPages (positive : 0 < cold.disk.pageSize) (empty : cold.disk.file.length = 0)
    (reads : List (Nat × Page)) (fits : ∀ read ∈ reads, cold.Fits read) :
    ∃ count, Hydrated cold (cold.readPages reads) reads count := by
  induction reads using List.reverseRecOn with
  | nil => exact ⟨0, rfl, rfl, by simp [TieredDisk.readPages, empty], by simp, nofun⟩
  | append_singleton reads read ih =>
    obtain ⟨count, hydrated⟩ := ih fun read member => fits read (mem_append_left _ member)
    unfold TieredDisk.readPages
    rw [foldl_append]
    exact (hydrated.readPage positive (fits read (by simp))).2

theorem readPage_stored_iff (cold : TieredDisk) (positive : 0 < cold.disk.pageSize)
    (empty : cold.disk.file.length = 0) (reads : List (Nat × Page)) (fits : ∀ read ∈ reads, cold.Fits read)
    (pageId : Nat) (page : Page) (last : cold.Fits (pageId, page)) :
    (∃ result, ((cold.readPages reads).readPage pageId page).2 = .ok result ∧ result.data = cold.stored pageId) ↔
      cold.Ahead reads pageId ∨ cold.stored pageId = zeros cold.disk.pageSize := by
  obtain ⟨count, hydrated⟩ := Hydrated.readPages positive empty reads fits
  obtain ⟨result, -⟩ := hydrated.readPage positive last
  rw [result]
  by_cases ahead : cold.Ahead reads pageId
  · simp [ahead]
  · simp [ahead, eq_comm]

def twoPages : TieredDisk where
  disk := ⟨2, ⟨0, fun _ => 0⟩, 0, fun _ => none⟩
  chunkSize := 4
  remote chunkId := if chunkId = 0 then some [1, 2, 3, 4] else none

def frame : Page := ⟨0, zeros 2, 0, false⟩

theorem readPage_stored_twoPages : ∃ result, ((twoPages.readPages [(0, frame)]).readPage 1 frame).2 = .ok result ∧
    result.data = [3, 4] :=
  (readPage_stored_iff twoPages (by decide) rfl [(0, frame)] (by decide) 1 frame (by decide)).mpr (.inl (by decide))

theorem readPage_behind_zeros : twoPages.stored 0 = [1, 2] ∧
    ((twoPages.readPages [(1, frame)]).readPage 0 frame).2.toOption.map data = some [0, 0] := by
  decide

end TieredDisk

open Function

theorem DiskManager.writePageSnapshots_sized (disk : DiskManager) (pages : List (Nat × Bytes)) :
    (disk.writePageSnapshots pages).1.pageSize = disk.pageSize ∧ ((disk.writePageSnapshots pages).2 = .ok () →
      ∀ page ∈ pages, isFileCachePage page.1 = false → page.2.length = disk.pageSize) := by
  fun_induction writePageSnapshots disk pages with
  | case6 disk pageId data rest _ _ _ after written ih =>
    have same : after.pageSize = disk.pageSize := by grind [writePageLocal]
    grind
  | _ => grind

namespace TieredDisk

/-- The chunks whose objects the store fails to read and to write during a call, which does each at most once. -/
structure Outages where
  read : Nat → Bool
  write : Nat → Bool

variable (tier : TieredDisk) (outages : Outages) (pages : List (Nat × Bytes))

def overlay (blob : Bytes) (page : Nat × Bytes) : Bytes :=
  let offset := tier.offsetInChunk page.1
  let need := offset + tier.disk.pageSize
  let blob := blob ++ Page.zeros (need - blob.length)
  blob.take offset ++ (page.2 ++ blob.drop need)

def uploadChunkWithOverlays (remote : Nat → Option Bytes) :
    List (Nat × Bytes) → (Nat → Option Bytes) × Except TakyonicError Unit
  | [] => (remote, .ok ())
  | first :: rest =>
    let chunkId := tier.chunkIdForPage first.1
    -- An object that cannot be read counts as one that is not there.
    let blob := if outages.read chunkId then [] else (remote chunkId).getD []
    if outages.write chunkId then (remote, .error .io)
    else (update remote chunkId (some ((first :: rest).foldl tier.overlay blob)), .ok ())

def uploadChunks (remote : Nat → Option Bytes) :
    List (List (Nat × Bytes)) → (Nat → Option Bytes) × Except TakyonicError Unit
  | [] => (remote, .ok ())
  | overlays :: rest =>
    match tier.uploadChunkWithOverlays outages remote overlays with
    | (remote, .ok ()) => uploadChunks remote rest
    | failed => failed

def overlaysOf (chunkId : Nat) : List (Nat × Bytes) :=
  pages.filter fun page => !isFileCachePage page.1 && tier.chunkIdForPage page.1 = chunkId

def touched : List Nat :=
  ((pages.filter fun page => !isFileCachePage page.1).map fun page => tier.chunkIdForPage page.1).dedup.insertionSort
    (· ≤ ·)

def writePageSnapshotsCoalesced : TieredDisk × Except TakyonicError Unit :=
  let (disk, written) := tier.disk.writePageSnapshots pages
  let tier := { tier with disk }
  match written with
  | .error error => (tier, .error error)
  | .ok () =>
    let (remote, uploaded) := tier.uploadChunks outages tier.remote ((tier.touched pages).map (tier.overlaysOf pages))
    ({ tier with remote }, uploaded)

def contents (blob : Bytes) : SparseFile UInt8 := ⟨blob.length, fun index => blob.getD index 0⟩

def slot (blob : Bytes) (pageId : Nat) : Bytes :=
  (contents blob).read (tier.offsetInChunk pageId) tier.disk.pageSize

/-- The call uploads the chunk: the local file takes all pages, and no upload of an earlier chunk fails. -/
structure Uploads (chunkId : Nat) : Prop where
  written : (tier.disk.writePageSnapshots pages).2 = .ok ()
  touched : chunkId ∈ tier.touched pages
  reached : ∀ earlier ∈ tier.touched pages, earlier ≤ chunkId → outages.write earlier = false

theorem stored_eq (pageId : Nat) :
    tier.stored pageId = tier.slot ((tier.remote (tier.chunkIdForPage pageId)).getD []) pageId := by
  have held : tier.held pageId = (((tier.remote (tier.chunkIdForPage pageId)).getD []).drop
      (tier.offsetInChunk pageId)).take tier.disk.pageSize := by
    unfold TieredDisk.held readPageRemote
    cases tier.remote (tier.chunkIdForPage pageId) <;> simp
  apply ext_getElem
  · rw [length_stored, slot, SparseFile.length_read]
  · simp only [stored, slot, contents, SparseFile.read, Page.zeros]
    grind

variable {tier outages pages} {page : Nat × Bytes} {chunkId pageId : Nat}

theorem mem_touched : chunkId ∈ tier.touched pages ↔ tier.overlaysOf pages chunkId ≠ [] := by
  simp [touched, overlaysOf, and_assoc]

theorem getElem?_padded (blob : Bytes) (count index : Nat) :
    (blob ++ replicate count 0)[index]?.getD 0 = blob[index]?.getD 0 := by
  rw [getElem?_append]
  split
  · rfl
  · simp only [getElem?_replicate]
    rw [getElem?_eq_none (by omega)]
    split <;> rfl

theorem contents_overlay (size : page.2.length = tier.disk.pageSize) (blob : Bytes) :
    contents (tier.overlay blob page) = (contents blob).write (tier.offsetInChunk page.1) page.2 := by
  simp only [contents, overlay, SparseFile.write, SparseFile.mk.injEq, Page.zeros]
  constructor
  · simp
    omega
  · funext index
    generalize room : tier.offsetInChunk page.1 + tier.disk.pageSize - blob.length = count
    simp only [getD_eq_getElem?_getD, ← getElem?_padded blob count]
    have long : (blob ++ replicate count (0 : UInt8)).length = blob.length + count := by simp
    generalize blob ++ replicate count (0 : UInt8) = padded at long ⊢
    grind

theorem slot_overlay (size : page.2.length = tier.disk.pageSize)
    (here : tier.chunkIdForPage pageId = tier.chunkIdForPage page.1) (blob : Bytes) :
    tier.slot (tier.overlay blob page) pageId = if pageId = page.1 then page.2 else tier.slot blob pageId := by
  rw [slot, contents_overlay size]
  split
  · rename_i same
    rw [same, ← size, SparseFile.read_write]
  rename_i different
  rw [SparseFile.read_write_apart, slot]
  rw [size]
  apply DiskManager.blocks_apart
  -- Two pages at one offset of a chunk are one page.
  intro same
  apply different
  rw [← Nat.div_add_mod pageId tier.pagesPerChunk, ← Nat.div_add_mod page.1 tier.pagesPerChunk, same]
  exact congrArg (tier.pagesPerChunk * · + _) here

theorem slot_overlays (sized : ∀ page ∈ pages, page.2.length = tier.disk.pageSize)
    (together : ∀ page ∈ pages, tier.chunkIdForPage page.1 = tier.chunkIdForPage pageId) (blob : Bytes) :
    (pageId ∉ pages.map Prod.fst → tier.slot (pages.foldl tier.overlay blob) pageId = tier.slot blob pageId) ∧
      ((pages.map Prod.fst).Nodup → ∀ data, (pageId, data) ∈ pages →
        tier.slot (pages.foldl tier.overlay blob) pageId = data) := by
  induction pages generalizing blob with
  | nil => simp
  | cons first rest ih =>
    simp only [map_cons, nodup_cons, forall_mem_cons, foldl_cons] at sized together ⊢
    obtain ⟨others, written⟩ := ih sized.2 together.2 (tier.overlay blob first)
    have own := slot_overlay sized.1 together.1.symm blob
    constructor
    · intro absent
      simp only [mem_cons, not_or] at absent
      rw [others absent.2, own, if_neg absent.1]
    · rintro ⟨absent, distinct⟩ data member
      rcases mem_cons.mp member with rfl | later
      · rw [others absent, own, if_pos rfl]
      · exact written distinct data later

theorem uploadChunks_eq {ids : List Nat} (distinct : ids.Nodup) (touched : ∀ id ∈ ids, id ∈ tier.touched pages)
    (remote : Nat → Option Bytes) :
    let done := ids.takeWhile (!outages.write ·)
    let result := tier.uploadChunks outages remote (ids.map (tier.overlaysOf pages))
    (∀ id, result.1 id = if id ∈ done then
      some ((tier.overlaysOf pages id).foldl tier.overlay (if outages.read id then [] else (remote id).getD []))
      else remote id) ∧ (result.2 = .ok () → done = ids) := by
  induction ids generalizing remote with
  | nil => exact ⟨fun _ => rfl, fun _ => rfl⟩
  | cons id rest ih =>
    rw [nodup_cons] at distinct
    rw [forall_mem_cons, mem_touched] at touched
    obtain ⟨first, others, overlays⟩ := exists_cons_of_ne_nil touched.1
    have chunk : tier.chunkIdForPage first.1 = id := by
      have member : first ∈ tier.overlaysOf pages id := by simp [overlays]
      simp only [overlaysOf, mem_filter, Bool.and_eq_true, decide_eq_true_eq] at member
      exact member.2.2
    rw [map_cons, uploadChunks, overlays, uploadChunkWithOverlays, chunk, ← overlays, takeWhile_cons]
    cases failed : outages.write id with
    | true => simp
    | false =>
      obtain ⟨objects, finished⟩ := ih distinct.2 touched.2 (update remote id _)
      refine ⟨fun other => (objects other).trans ?_, fun all => congrArg _ (finished all)⟩
      by_cases own : other = id
      · subst own
        have behind : other ∉ rest.takeWhile (!outages.write ·) := fun member => distinct.1 (takeWhile_subset _ member)
        simp [behind]
      · simp [own]

theorem mem_takeWhile_touched : chunkId ∈ (tier.touched pages).takeWhile (!outages.write ·) ↔
    chunkId ∈ tier.touched pages ∧
      ∀ earlier ∈ tier.touched pages, earlier ≤ chunkId → outages.write earlier = false := by
  have sorted : (tier.touched pages).Pairwise (· ≤ ·) := pairwise_insertionSort _ _
  generalize tier.touched pages = ids at sorted
  induction ids with
  | nil => simp
  | cons id rest ih =>
    rw [pairwise_cons] at sorted
    rw [takeWhile_cons]
    cases failed : outages.write id
    · have behind := ih sorted.2
      grind
    · have behind := sorted.1 chunkId
      simp only [Bool.not_true, Bool.false_eq_true, if_false, not_mem_nil, mem_cons, false_iff, not_and, not_forall]
      intro member
      exact ⟨id, .inl rfl, by grind, by simp [failed]⟩

theorem slot_nil : tier.slot [] pageId = Page.zeros tier.disk.pageSize := by
  apply ext_getElem
  · rw [slot, SparseFile.length_read, Page.zeros, length_replicate]
  · simp [slot, contents, SparseFile.read, Page.zeros]

theorem stored_uploadChunks
    (sized : ∀ page ∈ pages, isFileCachePage page.1 = false → page.2.length = tier.disk.pageSize)
    (distinct : (pages.map Prod.fst).Nodup) :
    let result := tier.uploadChunks outages tier.remote ((tier.touched pages).map (tier.overlaysOf pages))
    let after := { tier with remote := result.1 }
    (∀ pageId ∉ pages.map Prod.fst, after.stored pageId =
      if tier.chunkIdForPage pageId ∈ (tier.touched pages).takeWhile (!outages.write ·) ∧
          outages.read (tier.chunkIdForPage pageId) = true
        then Page.zeros tier.disk.pageSize else tier.stored pageId) ∧
      (result.2 = .ok () → ∀ page ∈ pages, isFileCachePage page.1 = false → after.stored page.1 = page.2) := by
  intro result after
  obtain ⟨objects, all⟩ := @uploadChunks_eq tier outages pages (tier.touched pages)
    ((perm_insertionSort _ _).nodup_iff.mpr (nodup_dedup _)) (fun _ member => member) tier.remote
  have overlaid (pageId : Nat) := @slot_overlays tier (tier.overlaysOf pages (tier.chunkIdForPage pageId)) pageId
    (by
      intro page member
      simp only [overlaysOf, mem_filter, Bool.and_eq_true, Bool.not_eq_true'] at member
      exact sized page member.1 member.2.1)
    (by
      intro page member
      simp only [overlaysOf, mem_filter, Bool.and_eq_true, decide_eq_true_eq] at member
      exact member.2.2)
  have held (pageId : Nat) : after.stored pageId = tier.slot ((result.1 (tier.chunkIdForPage pageId)).getD []) pageId :=
    after.stored_eq pageId
  constructor
  · intro pageId absent
    have absentHere : pageId ∉ (tier.overlaysOf pages (tier.chunkIdForPage pageId)).map Prod.fst :=
      fun member => absent ((filter_sublist.map _).subset member)
    rw [held, objects, stored_eq]
    by_cases done : tier.chunkIdForPage pageId ∈ (tier.touched pages).takeWhile (!outages.write ·)
    · rw [if_pos done, Option.getD_some, (overlaid pageId _).1 absentHere, apply_ite (tier.slot · pageId), slot_nil]
      simp only [done, true_and]
    · rw [if_neg done, if_neg (fun both => done both.1)]
  · intro finished page member primary
    have mine : page ∈ tier.overlaysOf pages (tier.chunkIdForPage page.1) := by simp [overlaysOf, member, primary]
    rw [held, objects, all finished, if_pos (mem_touched.mpr (ne_nil_of_mem mine))]
    exact (overlaid page.1 _).2 (distinct.sublist (filter_sublist.map _)) page.2 mine

/-- The primary pages of a call that succeeds are in the object store. The other pages stay as they are exactly if they
    are zero wherever a chunk is uploaded that could not be read. -/
theorem writePageSnapshotsCoalesced_stored_iff (tier : TieredDisk) (outages : Outages) (pages : List (Nat × Bytes))
    (distinct : (pages.map Prod.fst).Nodup) :
    let result := tier.writePageSnapshotsCoalesced outages pages
    (∀ pageId ∉ pages.map Prod.fst, result.1.stored pageId = tier.stored pageId) ∧
      (result.2 = .ok () → ∀ page ∈ pages, isFileCachePage page.1 = false → result.1.stored page.1 = page.2) ↔
    ∀ pageId ∉ pages.map Prod.fst, tier.Uploads outages pages (tier.chunkIdForPage pageId) →
      outages.read (tier.chunkIdForPage pageId) = true → tier.stored pageId = Page.zeros tier.disk.pageSize := by
  obtain ⟨size, sized⟩ := tier.disk.writePageSnapshots_sized pages
  generalize locally : { tier with disk := (tier.disk.writePageSnapshots pages).1 } = written
  have kept : written.stored = tier.stored := by
    subst locally
    unfold stored held readPageRemote chunkIdForPage offsetInChunk pagesPerChunk
    simp only [size]
  have chunks : written.chunkIdForPage = tier.chunkIdForPage := by
    subst locally
    unfold chunkIdForPage pagesPerChunk
    simp only [size]
  have touches : written.touched pages = tier.touched pages := by rw [touched, touched, chunks]
  have same : written.disk.pageSize = tier.disk.pageSize := by rw [← locally, size]
  rw [← same] at sized ⊢
  rw [← kept, ← chunks, writePageSnapshotsCoalesced]
  cases ran : (tier.disk.writePageSnapshots pages).2 with
  | error error =>
    dsimp only
    rw [ran, locally]
    refine iff_of_true ⟨fun _ _ => rfl, fun ok => by cases ok⟩ fun _ _ uploads => ?_
    simp [uploads.written] at ran
  | ok _ =>
    dsimp only
    rw [ran, show tier.remote = written.remote by rw [← locally],
      show tier.chunkSize = written.chunkSize by rw [← locally],
      show (tier.disk.writePageSnapshots pages).1 = written.disk by rw [← locally]]
    have uploads (chunkId : Nat) : tier.Uploads outages pages chunkId ↔
        chunkId ∈ (written.touched pages).takeWhile (!outages.write ·) := by
      rw [mem_takeWhile_touched, touches]
      exact ⟨fun uploads => ⟨uploads.touched, uploads.reached⟩, fun both => ⟨ran, both.1, both.2⟩⟩
    obtain ⟨others, own⟩ := @stored_uploadChunks written outages pages (sized ran) distinct
    simp only [uploads]
    constructor
    · rintro ⟨same, -⟩ pageId absent done unread
      rw [← same pageId absent, others pageId absent, if_pos ⟨done, unread⟩]
    · intro zero
      refine ⟨fun pageId absent => (others pageId absent).trans ?_, own⟩
      split
      · rename_i both
        exact (zero pageId absent both.1 both.2).symm
      · rfl

theorem writePageSnapshotsCoalesced_stored_iff_unread :
    let result := twoPages.writePageSnapshotsCoalesced ⟨(· == 1), fun _ => false⟩ [(3, [7, 8]), (0, [5, 6])]
    result.2 = .ok () ∧ result.1.stored 1 = [3, 4] ∧ result.1.stored 0 = [5, 6] ∧ result.1.stored 3 = [7, 8] := by
  have ran :
      (twoPages.writePageSnapshotsCoalesced ⟨(· == 1), fun _ => false⟩ [(3, [7, 8]), (0, [5, 6])]).2 = .ok () := by
    decide +kernel
  obtain ⟨others, own⟩ := (writePageSnapshotsCoalesced_stored_iff twoPages ⟨(· == 1), fun _ => false⟩
    [(3, [7, 8]), (0, [5, 6])] (by decide)).mpr (by
      intro pageId absent _ unread
      obtain rfl : pageId = 2 := by
        have chunk : pageId / 2 = 1 := beq_iff_eq.mp unread
        simp only [map_cons, map_nil, mem_cons, not_mem_nil] at absent
        omega
      decide)
  exact ⟨ran, others 1 (by decide), own ran (0, [5, 6]) (by decide) (by decide), own ran (3, [7, 8]) (by decide)
    (by decide)⟩

theorem neighbour_zeroed :
    let result := twoPages.writePageSnapshotsCoalesced ⟨fun _ => true, fun _ => false⟩ [(0, [5, 6])]
    twoPages.stored 1 = [3, 4] ∧ result.2 = .ok () ∧ result.1.stored 1 = [0, 0] := by
  decide +kernel

end TieredDisk

end Takyonic
