import Takyonic.Buffer.Pool

/-! Blocks of an SST file, put together from its pages in the buffer pool. -/

namespace Takyonic.DiskManager

open Foundation SparseFile List Page

variable (disk : DiskManager) (file : SparseFile UInt8) (fileId start len : Nat)

/-- A turn of the loop of `data_block_bytes`. The index of the page is cut to 32 bits. -/
def copyPage (buf : Bytes) (pi : Nat) : Except TakyonicError Bytes := do
  let page ← disk.readRegisteredPage fileId (pi % 2 ^ 32) (newAligned disk.pageSize)
  let pageOff := pi * disk.pageSize
  let copyStart := max start pageOff
  let copyEnd := min (start + len) (pageOff + disk.pageSize)
  let n := copyEnd - copyStart
  let dst := copyStart - start
  let src := copyStart - pageOff
  pure (buf.take dst ++ (page.data.drop src).take n ++ buf.drop (dst + n))

def dataBlockBytes : Except TakyonicError Bytes :=
  let first := start / disk.pageSize
  let last := (start + len - 1) / disk.pageSize
  (range' first (last + 1 - first)).foldlM (disk.copyPage fileId start len) (zeros len)

def seen : SparseFile UInt8 := ⟨file.length, fun place => file.bytes (place % (2 ^ 32 * disk.pageSize))⟩

def copied (count : Nat) : Bytes :=
  let done := min len (count - start)
  (seen disk file).read start done ++ zeros (len - done)

variable {disk file fileId start len}

theorem read_seen {pi skip more : Nat} (within : skip + more ≤ disk.pageSize) :
    (seen disk file).read (pi * disk.pageSize + skip) more = file.read (pi % 2 ^ 32 * disk.pageSize + skip) more := by
  apply map_congr_left
  intro index member
  have small : skip + index < disk.pageSize := by
    rw [mem_range] at member
    omega
  show file.bytes (_ % _) = _
  rw [Nat.mul_comm (2 ^ 32), Nat.mod_mul, Nat.add_assoc, Nat.mul_comm pi, Nat.mul_add_mod, Nat.mod_eq_of_lt small,
    Nat.mul_add_div (by omega), Nat.div_eq_of_lt small, Nat.add_zero, Nat.add_comm, Nat.mul_comm, ← Nat.add_assoc]

variable (registered : disk.files fileId = some file) (inside : start + len ≤ file.length)
include registered inside

theorem copyPage_copied {pi : Nat} (reached : start < (pi + 1) * disk.pageSize)
    (short : pi * disk.pageSize ≤ start + len) :
    disk.copyPage fileId start len (copied disk file start len (pi * disk.pageSize)) pi =
      .ok (copied disk file start len ((pi + 1) * disk.pageSize)) := by
  have earlier := Nat.mul_le_mul_right disk.pageSize (Nat.mod_le pi (2 ^ 32))
  rw [copyPage, readRegisteredPage, registered]
  simp only [bind, Except.bind, pure, Except.pure, copied]
  rw [Nat.succ_mul] at reached ⊢
  rw [read_slice (by omega), ← read_seen (by omega)]
  generalize pi * disk.pageSize = offset at *
  have dst : max start offset - start = min len (offset - start) := by omega
  have src : offset + (max start offset - offset) = start + min len (offset - start) := by omega
  rw [dst, src]
  generalize size : min (start + len) (offset + disk.pageSize) - max start offset = n
  have total : min len (offset + disk.pageSize - start) = min len (offset - start) + n := by omega
  have behind := (seen disk file).length_read start (min len (offset - start))
  rw [total, read_add, ← Nat.sub_sub, take_left' behind, ← drop_drop, drop_left' behind]
  simp [zeros]

/-- A block that the file holds is read as it stands there exactly if its bytes behind the first 2 ^ 32 pages are the
    bytes of the pages that their indexes are cut to. -/
theorem dataBlockBytes_eq_iff (positive : 0 < disk.pageSize) (ends : 0 < start + len) :
    disk.dataBlockBytes fileId start len = .ok (file.read start len) ↔
      ∀ place, start ≤ place → place < start + len →
        file.bytes (place % (2 ^ 32 * disk.pageSize)) = file.bytes place := by
  have whole (place : Nat) : place < (place / disk.pageSize + 1) * disk.pageSize := by
    simpa only [Nat.succ_mul] using Nat.lt_div_mul_add positive
  have loop : ∀ count, start / disk.pageSize + count ≤ (start + len - 1) / disk.pageSize + 1 →
      (range' (start / disk.pageSize) count).foldlM (disk.copyPage fileId start len) (zeros len) =
        .ok (copied disk file start len ((start / disk.pageSize + count) * disk.pageSize)) := by
    intro count pages
    induction count with
    | zero => simp [copied, Nat.sub_eq_zero_of_le (Nat.div_mul_le_self ..), SparseFile.read, pure, Except.pure]
    | succ count ih =>
      have reached := (whole start).trans_le
        (Nat.mul_le_mul_right _ (by omega : _ ≤ start / disk.pageSize + count + 1))
      have short : (start / disk.pageSize + count) * disk.pageSize ≤ start + len - 1 :=
        (Nat.le_div_iff_mul_le positive).mp (by omega)
      rw [range'_1_concat, foldlM_append, ih (by omega)]
      simp [bind, Except.bind, pure, Except.pure, copyPage_copied registered inside reached (by omega), Nat.add_assoc]
  have forward : start / disk.pageSize ≤ (start + len - 1) / disk.pageSize + 1 := by
    rw [← Nat.add_div_right _ positive]
    exact Nat.div_le_div_right (by omega)
  have last := whole (start + len - 1)
  have read : disk.dataBlockBytes fileId start len = .ok ((seen disk file).read start len) := by
    rw [dataBlockBytes, loop _ (by omega), Nat.add_sub_cancel' forward, copied, Nat.min_eq_left (by omega)]
    simp [zeros]
  rw [read, Except.ok.injEq, SparseFile.read, SparseFile.read, map_inj_left]
  constructor
  · intro same place least most
    have here := same (place - start) (by rw [mem_range]; omega)
    rwa [Nat.add_sub_cancel' least] at here
  · intro same index member
    rw [mem_range] at member
    exact same _ (by omega) (by omega)

omit registered inside

theorem dataBlockBytes_eq_iff_unaligned :
    DiskManager.dataBlockBytes ⟨4, ⟨0, fun _ => 0⟩, 0, fun _ => some ⟨10, .ofNat⟩⟩ 1 3 6 =
      .ok (SparseFile.read ⟨10, .ofNat⟩ 3 6) := by
  refine (dataBlockBytes_eq_iff rfl (by decide) (by decide) (by decide)).mpr fun place _ most => ?_
  rw [Nat.mod_eq_of_lt (most.trans (by decide))]

theorem page_index_wraps :
    let file : SparseFile UInt8 := ⟨2 ^ 35 + 8, fun index => if index < 8 then 0 else 1⟩
    DiskManager.dataBlockBytes ⟨8, file, 0, fun _ => some file⟩ 1 (2 ^ 35) 8 = .ok (replicate 8 0) ∧
      file.read (2 ^ 35) 8 = replicate 8 1 := by
  decide

end Takyonic.DiskManager
