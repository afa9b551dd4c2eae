import Mathlib

namespace Foundation

open List

abbrev Bytes := List UInt8

def littleEndian : Nat → Nat → Bytes
  | 0, _ => []
  | width + 1, number => UInt8.ofNat number :: littleEndian width (number / 256)

def fromLittleEndian : Bytes → Nat
  | [] => 0
  | byte :: rest => byte.toNat + 256 * fromLittleEndian rest

def bigEndian (width number : Nat) : Bytes := (littleEndian width number).reverse

@[simp] theorem littleEndian_length (width number : Nat) :
    (littleEndian width number).length = width := by
  induction width generalizing number with
  | zero => rfl
  | succ width ih => simp [littleEndian, ih]

theorem fromLittleEndian_littleEndian (width number : Nat) :
    fromLittleEndian (littleEndian width number) = number % 256 ^ width := by
  induction width generalizing number with
  | zero => simp [littleEndian, fromLittleEndian, Nat.mod_one]
  | succ width ih =>
    have byte : (UInt8.ofNat number).toNat = number % 256 := by simp
    have split : 256 ^ (width + 1) = 256 * 256 ^ width := Nat.pow_succ'
    simp only [littleEndian, fromLittleEndian, ih, byte]
    rw [split, Nat.mod_mul]

theorem fromLittleEndian_of_lt {width number : Nat} (bound : number < 256 ^ width) :
    fromLittleEndian (littleEndian width number) = number := by
  rw [fromLittleEndian_littleEndian, Nat.mod_eq_of_lt bound]

theorem littleEndian_take (width number : Nat) (rest : Bytes) :
    (littleEndian width number ++ rest).take width = littleEndian width number := by
  rw [take_append_of_le_length (by simp), take_of_length_le (by simp)]

theorem littleEndian_drop (width number : Nat) (rest : Bytes) :
    (littleEndian width number ++ rest).drop width = rest := by
  rw [drop_append_of_le_length (by simp), drop_of_length_le (by simp), nil_append]

/-- A part of a block that starts with the length of its body and ends with a checksum. -/
theorem frame_take {body : Bytes} {number count : Nat} (small : body.length < 256 ^ 4)
    (short : count < (littleEndian 4 body.length ++ (body ++ littleEndian 8 number)).length) :
    let piece := (littleEndian 4 body.length ++ (body ++ littleEndian 8 number)).take count
    piece.length < 4 ∨ piece.length < 4 + fromLittleEndian (piece.take 4) + 8 := by
  intro piece
  have taken : piece.length = count := length_take_of_le (le_of_lt short)
  by_cases less : count < 4
  · exact .inl (by omega)
  · right
    have field : piece.take 4 = littleEndian 4 body.length := by
      rw [take_take, min_eq_left (le_of_not_gt less), littleEndian_take]
    rw [taken, field, fromLittleEndian_of_lt small]
    simpa [Nat.add_assoc] using short

/-! Files of bytes that may be longer than anything written to them, and the blocks of a fixed size in them. -/

structure SparseFile (β : Type*) where
  length : ℕ
  bytes : ℕ → β

namespace SparseFile

variable {β : Type*} (file : SparseFile β)

def read (offset count : ℕ) : List β := (List.range count).map fun index => file.bytes (offset + index)

def setLen (zero : β) (length : ℕ) : SparseFile β :=
  ⟨length, fun index => if index < file.length then file.bytes index else zero⟩

def write (offset : ℕ) (data : List β) : SparseFile β where
  length := max file.length (offset + data.length)
  bytes index := if offset ≤ index then data.getD (index - offset) (file.bytes index) else file.bytes index

theorem length_read (offset count : ℕ) : (file.read offset count).length = count := by
  simp [read]

variable {file} {offset other count length : ℕ}

theorem read_add (more : ℕ) :
    file.read offset (count + more) = file.read offset count ++ file.read (offset + count) more := by
  simp [read, range_add, Nat.add_assoc]

theorem read_slice {skip more : ℕ} (inside : skip + more ≤ count) (rest : List β) :
    ((file.read offset count ++ rest).drop skip).take more = file.read (offset + skip) more := by
  obtain ⟨behind, rfl⟩ := Nat.exists_eq_add_of_le inside
  simp [read_add, length_read]

theorem read_write (offset : ℕ) (data : List β) : (file.write offset data).read offset data.length = data := by
  apply ext_getElem
  · simp [length_read]
  · intro index first second
    simp [read, write, second]

theorem read_write_apart {data : List β} (apart : other + count ≤ offset ∨ offset + data.length ≤ other) :
    (file.write offset data).read other count = file.read other count := by
  apply map_congr_left
  intro index member
  have below := mem_range.mp member
  simp only [write]
  split
  · rw [getD_eq_getElem?_getD, List.getElem?_eq_none (by omega), Option.getD_none]
  · rfl

theorem read_setLen {zero : β} (inside : offset + count ≤ file.length) :
    (file.setLen zero length).read offset count = file.read offset count := by
  apply map_congr_left
  intro index member
  have below := mem_range.mp member
  simp only [setLen]
  rw [if_pos (by omega)]

theorem read_setLen_behind {zero : β} (behind : file.length ≤ offset) :
    (file.setLen zero length).read offset count = List.replicate count zero := by
  rw [eq_replicate_iff]
  refine ⟨length_read _ _ _, fun byte member => ?_⟩
  obtain ⟨index, -, rfl⟩ := mem_map.mp member
  exact if_neg (by omega)

end SparseFile

/-! Items written one after the other, each as a block of its own, into a file that may be cut anywhere. -/

variable {α β : Type*} (encode : α → List β)

def fitting (room : ℕ) : List α → List α
  | [] => []
  | item :: rest => if (encode item).length ≤ room then item :: fitting (room - (encode item).length) rest else []

def tornPiece (room : ℕ) : List α → List β
  | [] => []
  | item :: rest =>
    if (encode item).length ≤ room then tornPiece (room - (encode item).length) rest else (encode item).take room

theorem fitting_isPrefix (room : ℕ) (items : List α) : fitting encode room items <+: items := by
  induction items generalizing room with
  | nil => exact prefix_refl _
  | cons item rest ih =>
    unfold fitting
    split
    · exact cons_prefix_cons.mpr ⟨rfl, ih _⟩
    · exact nil_prefix

theorem take_flatMap (room : ℕ) (items : List α) :
    (items.flatMap encode).take room = (fitting encode room items).flatMap encode ++ tornPiece encode room items := by
  induction items generalizing room with
  | nil => simp [fitting, tornPiece]
  | cons item rest ih =>
    unfold fitting tornPiece
    split
    · next fits =>
      rw [flatMap_cons, flatMap_cons, take_append, take_of_length_le fits, ih, append_assoc]
    · next long =>
      rw [flatMap_cons, take_append_of_le_length (Nat.le_of_not_le long)]
      rfl

theorem tornPiece_cases (room : ℕ) (items : List α) :
    tornPiece encode room items = [] ∨ ∃ next ∈ items, ∃ count < (encode next).length,
      tornPiece encode room items = (encode next).take count := by
  induction items generalizing room with
  | nil => exact .inl rfl
  | cons item rest ih =>
    unfold tornPiece
    split
    · rcases ih (room - (encode item).length) with none | ⟨next, member, count, short, torn⟩
      · exact .inl none
      · exact .inr ⟨next, mem_cons_of_mem _ member, count, short, torn⟩
    · next long => exact .inr ⟨item, mem_cons_self, room, Nat.lt_of_not_le long, rfl⟩

theorem length_le_flatMap {items : List α} (filled : ∀ item ∈ items, 0 < (encode item).length) :
    items.length ≤ (items.flatMap encode).length := by
  induction items with
  | nil => exact Nat.le_refl 0
  | cons item rest ih =>
    have later := ih fun other member => filled other (mem_cons_of_mem _ member)
    have first := filled item mem_cons_self
    simp only [flatMap_cons, length_append, length_cons]
    omega

theorem le_length_fitting (room : ℕ) (items : List α) {count : ℕ} (inside : count ≤ items.length) :
    count ≤ (fitting encode room items).length ↔ ((items.take count).flatMap encode).length ≤ room := by
  induction items generalizing room count with
  | nil =>
    obtain rfl : count = 0 := Nat.le_zero.mp inside
    simp
  | cons item rest ih =>
    cases count with
    | zero => simp
    | succ count =>
      have later := ih (room - (encode item).length) (Nat.le_of_succ_le_succ inside)
      rw [take_succ_cons, flatMap_cons, length_append]
      unfold fitting
      split
      · rw [length_cons, Nat.succ_le_succ_iff]
        omega
      · rw [length_nil]
        omega

def utf8 (text : String) : Bytes := text.toUTF8.data.toList

theorem fromUTF8?_utf8 (text : String) : String.fromUTF8? ⟨(utf8 text).toArray⟩ = some text := by
  exact dif_pos text.isValidUTF8

end Foundation
