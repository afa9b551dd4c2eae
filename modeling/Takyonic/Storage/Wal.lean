import Takyonic.Types

namespace Takyonic

open Foundation List

namespace Wal

def magic : Bytes := [84, 75, 89, 87]

def version : UInt8 := 1

def flagTombstone : UInt8 := 1

def maxBody : Nat := 64 * 1024 * 1024

def encodeBody (entry : Entry) : Bytes :=
  (if entry.tombstone then flagTombstone else 0) :: (littleEndian 8 entry.seq ++
    (littleEndian 4 entry.key.bytes.length ++ (entry.key.bytes ++
      match entry.value, entry.tombstone with
      | some value, false => littleEndian 4 value.bytes.length ++ value.bytes
      | _, _ => littleEndian 4 0)))

def decodeBody : Bytes → Except TakyonicError Entry
  | [] => .error (.integrity "WAL body empty")
  | flags :: body =>
    if body.length < 8 + 4 then .error (.integrity "WAL body truncated (seq/key_len)")
    else
      let seq := fromLittleEndian (body.take 8)
      let body := body.drop 8
      let keyLen := fromLittleEndian (body.take 4)
      let body := body.drop 4
      if body.length < keyLen + 4 then .error (.integrity "WAL body truncated (key)")
      else
        let key : Key := ⟨body.take keyLen⟩
        let body := body.drop keyLen
        let valLen := fromLittleEndian (body.take 4)
        let body := body.drop 4
        if body.length ≠ valLen then .error (.integrity "WAL body truncated (value)")
        else if flags &&& flagTombstone ≠ 0 then
          if valLen ≠ 0 then .error (.integrity "WAL tombstone with non-empty value")
          else .ok (.delete key seq)
        else .ok (.put key ⟨body⟩ seq)

/-- What `WalWriter::create` writes. -/
def header : Bytes := magic ++ [version]

/-- `WalWriter::append`; the checksum `xxh3` is any function. -/
def encodeRecord (xxh3 : Bytes → UInt64) (entry : Entry) : Bytes :=
  littleEndian 4 (encodeBody entry).length ++ (encodeBody entry ++ littleEndian 8 (xxh3 (encodeBody entry)).toNat)

def segment (xxh3 : Bytes → UInt64) (entries : List Entry) : Bytes :=
  header ++ entries.flatMap (encodeRecord xxh3)

def Storable (entry : Entry) : Prop :=
  entry.seq < 2 ^ 64 ∧ (entry.tombstone = true ↔ entry.value = none) ∧
    (encodeBody entry).length ≤ maxBody

instance : Decidable (Storable entry) := inferInstanceAs (Decidable (_ ∧ (_ ↔ _) ∧ _))

theorem decodeBody_fields (flags : UInt8) {seq : Nat} {key value : Bytes} (seqFits : seq < 2 ^ 64)
    (keyFits : key.length < 2 ^ 32) (valueFits : value.length < 2 ^ 32) :
    decodeBody (flags :: (littleEndian 8 seq ++ (littleEndian 4 key.length ++ (key ++
        (littleEndian 4 value.length ++ value))))) =
      if flags &&& flagTombstone ≠ 0 then
        if value.length ≠ 0 then .error (.integrity "WAL tombstone with non-empty value")
        else .ok (.delete ⟨key⟩ seq)
      else .ok (.put ⟨key⟩ ⟨value⟩ seq) := by
  have keyLength : fromLittleEndian (littleEndian 4 key.length) = key.length := fromLittleEndian_of_lt keyFits
  have valueLength : fromLittleEndian (littleEndian 4 value.length) = value.length :=
    fromLittleEndian_of_lt valueFits
  have seqRead : fromLittleEndian (littleEndian 8 seq) = seq := fromLittleEndian_of_lt seqFits
  have long : ¬ (littleEndian 8 seq ++ (littleEndian 4 key.length ++ (key ++
      (littleEndian 4 value.length ++ value)))).length < 8 + 4 := by
    simp only [length_append, littleEndian_length]
    omega
  have longKey : ¬ (key ++ (littleEndian 4 value.length ++ value)).length < key.length + 4 := by
    simp only [length_append, littleEndian_length]
    omega
  simp only [decodeBody]
  rw [if_neg long, littleEndian_take, littleEndian_drop, littleEndian_take, littleEndian_drop, keyLength,
    seqRead, if_neg longKey, take_left, drop_left, littleEndian_take, littleEndian_drop,
    valueLength, if_neg (not_not.mpr rfl)]

theorem decodeBody_encodeBody {entry : Entry} (storable : Storable entry) :
    decodeBody (encodeBody entry) = .ok entry := by
  obtain ⟨⟨key⟩, value, seq, tombstone⟩ := entry
  obtain ⟨seqFits, marked, fits⟩ := storable
  cases value with
  | none =>
    obtain rfl : tombstone = true := marked.mpr rfl
    have keyFits : key.length < 2 ^ 32 := by
      simp [encodeBody, maxBody] at fits
      omega
    have shape : encodeBody ⟨⟨key⟩, none, seq, true⟩ = flagTombstone :: (littleEndian 8 seq ++
        (littleEndian 4 key.length ++ (key ++ (littleEndian 4 ([] : Bytes).length ++ [])))) := by
      simp [encodeBody]
    rw [shape, decodeBody_fields flagTombstone seqFits keyFits (by decide), if_pos (by decide), if_neg (by decide)]
    rfl
  | some value =>
    obtain rfl : tombstone = false := by
      cases tombstone with
      | false => rfl
      | true => cases marked.mp rfl
    have bounds : key.length < 2 ^ 32 ∧ value.bytes.length < 2 ^ 32 := by
      simp [encodeBody, maxBody] at fits
      omega
    have shape : encodeBody ⟨⟨key⟩, some value, seq, false⟩ = 0 :: (littleEndian 8 seq ++
        (littleEndian 4 key.length ++ (key ++ (littleEndian 4 value.bytes.length ++ value.bytes)))) := rfl
    rw [shape, decodeBody_fields 0 seqFits bounds.1 bounds.2, if_neg (by decide)]
    rfl

def hexadecimal (number : Nat) : String := "0x" ++ String.ofList (Nat.toDigits 16 number)

end Wal

/-- `rest` are the bytes not read yet. -/
structure WalReader where
  rest : Bytes
  fileLen : Nat
  lastValidOffset : Nat
  tornTail : Bool
  deriving DecidableEq, Repr

namespace WalReader

open Wal

def openSegment (path : String) (file : Bytes) : Except TakyonicError WalReader :=
  if file.length < 4 then .error .io
  else if file.take 4 ≠ magic then .error (.integrity s!"bad WAL magic in {path}")
  else match file.drop 4 with
    | [] => .error .io
    | found :: rest =>
      if found ≠ version then .error (.integrity s!"unsupported WAL version {found} in {path}")
      else .ok ⟨rest, file.length, 5, false⟩

def torn (reader : WalReader) : WalReader := { reader with tornTail := true }

def readNext (xxh3 : Bytes → UInt64) (reader : WalReader) :
    WalReader × Except TakyonicError (Option Entry) :=
  if reader.rest.isEmpty then (reader, .ok none)
  else if reader.rest.length < 4 then (reader.torn, .ok none)
  else
    let bodyLen := fromLittleEndian (reader.rest.take 4)
    let rest := reader.rest.drop 4
    if reader.fileLen < reader.lastValidOffset + 4 + bodyLen + 8 then (reader.torn, .ok none)
    else if maxBody < bodyLen then
      (reader, .error (.integrity s!"WAL record too large: {bodyLen} bytes"))
    else if rest.length < bodyLen then (reader.torn, .ok none)
    else
      let body := rest.take bodyLen
      let rest := rest.drop bodyLen
      if rest.length < 8 then (reader.torn, .ok none)
      else
        let expected := fromLittleEndian (rest.take 8)
        let actual := (xxh3 body).toNat
        if expected ≠ actual then
          let wanted := hexadecimal expected
          let got := hexadecimal actual
          (reader, .error (.integrity s!"WAL checksum mismatch: expected {wanted}, got {got}"))
        else match decodeBody body with
          | .error error => (reader, .error error)
          | .ok entry =>
            ({ reader with
                rest := rest.drop 8
                lastValidOffset := reader.lastValidOffset + 4 + bodyLen + 8 }, .ok (some entry))

def replayLoop (xxh3 : Bytes → UInt64) :
    Nat → WalReader → List Entry → WalReader × List Entry × Except TakyonicError Nat
  | 0, reader, applied => (reader, applied, .ok applied.length)
  | fuel + 1, reader, applied =>
    match reader.readNext xxh3 with
    | (reader, .error error) => (reader, applied, .error error)
    | (reader, .ok none) => (reader, applied, .ok applied.length)
    | (reader, .ok (some entry)) => replayLoop xxh3 fuel reader (applied ++ [entry])

def replay (xxh3 : Bytes → UInt64) (reader : WalReader) :
    WalReader × List Entry × Except TakyonicError Nat :=
  replayLoop xxh3 (reader.rest.length + 1) reader []

theorem encodeRecord_length (xxh3 : Bytes → UInt64) (entry : Entry) :
    (encodeRecord xxh3 entry).length = 4 + (encodeBody entry).length + 8 := by
  simp only [encodeRecord, length_append, littleEndian_length]
  omega

theorem readNext_record (xxh3 : Bytes → UInt64) {entry : Entry} (storable : Storable entry) {rest : Bytes}
    {fileLen offset : Nat} {tornTail : Bool} (inside : offset + (encodeRecord xxh3 entry).length ≤ fileLen) :
    readNext xxh3 ⟨encodeRecord xxh3 entry ++ rest, fileLen, offset, tornTail⟩ =
      (⟨rest, fileLen, offset + (encodeRecord xxh3 entry).length, tornTail⟩, .ok (some entry)) := by
  have fits := storable.2.2
  simp only [maxBody] at fits
  rw [encodeRecord_length] at inside ⊢
  rw [encodeRecord, append_assoc, append_assoc]
  unfold readNext
  dsimp only
  rw [if_neg (by simp [littleEndian]), if_neg (by simp), littleEndian_take, littleEndian_drop,
    fromLittleEndian_of_lt (by omega), if_neg (by omega), if_neg (by simp only [maxBody]; omega), if_neg (by simp),
    take_left, drop_left, if_neg (by simp), littleEndian_take, littleEndian_drop,
    fromLittleEndian_of_lt (UInt64.toNat_lt _), if_neg (not_not.mpr rfl),
    decodeBody_encodeBody storable]
  simp only [Nat.add_assoc]

theorem decodeBody_sound {body : Bytes} {entry : Entry} (decoded : decodeBody body = .ok entry) :
    entry.WellFormed ∧ (encodeBody entry).length = body.length := by
  cases body with
  | nil => cases decoded
  | cons flags body =>
    dsimp only [decodeBody] at decoded
    split at decoded
    · cases decoded
    next longEnough =>
    split at decoded
    · cases decoded
    next keyFits =>
    split at decoded
    · cases decoded
    next exact =>
    simp only [not_not, length_drop] at exact longEnough keyFits
    split at decoded
    · split at decoded
      · cases decoded
      · cases decoded
        simp [encodeBody, Entry.delete, Entry.WellFormed]
        omega
    · cases decoded
      simp [encodeBody, Entry.put, Entry.WellFormed]
      omega

theorem readNext_sound {xxh3 : Bytes → UInt64} {reader after : WalReader} {entry : Entry}
    (read : reader.readNext xxh3 = (after, .ok (some entry))) :
    entry.WellFormed ∧ (encodeBody entry).length ≤ maxBody := by
  unfold readNext at read
  dsimp only at read
  split at read
  · cases read
  split at read
  · cases read
  split at read
  · cases read
  split at read
  · cases read
  next short =>
  split at read
  · cases read
  split at read
  · cases read
  split at read
  · cases read
  split at read
  · cases read
  next decoded =>
  cases read
  obtain ⟨wellFormed, length⟩ := decodeBody_sound decoded
  rw [length, length_take]
  exact ⟨wellFormed, by omega⟩

theorem replay_sound (xxh3 : Bytes → UInt64) (reader : WalReader) :
    ∀ entry ∈ (reader.replay xxh3).2.1, entry.WellFormed ∧ (encodeBody entry).length ≤ maxBody := by
  unfold replay
  have before : ∀ entry ∈ ([] : List Entry), entry.WellFormed ∧ (encodeBody entry).length ≤ maxBody := nofun
  generalize ([] : List Entry) = applied at before
  generalize reader.rest.length + 1 = fuel
  induction fuel generalizing reader applied with
  | zero => exact before
  | succ fuel ih =>
    unfold replayLoop
    split
    · exact before
    · exact before
    · next after next read =>
      apply ih
      exact forall_mem_append.mpr ⟨before, forall_mem_singleton.mpr (readNext_sound read)⟩

/-! A log segment that is cut off anywhere, its repair and further appends to it. -/

variable (xxh3 : Bytes → UInt64)

theorem replayLoop_append {entries : List Entry} (storable : ∀ entry ∈ entries, Storable entry) {rest : Bytes}
    {fileLen offset : Nat} (inside : offset + (entries.flatMap (encodeRecord xxh3)).length ≤ fileLen)
    (applied : List Entry) (fuel : Nat) :
    replayLoop xxh3 (entries.length + fuel) ⟨entries.flatMap (encodeRecord xxh3) ++ rest, fileLen, offset, false⟩
        applied =
      replayLoop xxh3 fuel ⟨rest, fileLen, offset + (entries.flatMap (encodeRecord xxh3)).length, false⟩
        (applied ++ entries) := by
  induction entries generalizing offset applied with
  | nil => simp
  | cons entry later ih =>
    simp only [flatMap_cons, length_append] at inside ⊢
    have room : offset + (encodeRecord xxh3 entry).length + (later.flatMap (encodeRecord xxh3)).length ≤ fileLen := by
      omega
    have next := ih (fun other member => storable other (mem_cons_of_mem _ member)) room (applied ++ [entry])
    have turns : (entry :: later).length + fuel = (later.length + fuel) + 1 := by
      simp only [length_cons]
      omega
    rw [turns, replayLoop, append_assoc, readNext_record xxh3 (storable entry mem_cons_self) (by omega)]
    simp only [next, append_assoc, singleton_append, Nat.add_assoc]

def Torn (piece : Bytes) : Prop := piece.length < 4 ∨ piece.length < 4 + fromLittleEndian (piece.take 4) + 8

theorem torn_nil : Torn [] := .inl (by decide)

theorem torn_take {entry : Entry} (storable : Storable entry) {count : Nat}
    (short : count < (encodeRecord xxh3 entry).length) : Torn ((encodeRecord xxh3 entry).take count) := by
  have fits := storable.2.2
  simp only [maxBody] at fits
  exact frame_take (by omega) short

variable {piece : Bytes} {cut count : Nat} {generation : Generation}

theorem readNext_torn (torn : Torn piece) (offset : Nat) :
    ∃ tornTail, readNext xxh3 ⟨piece, offset + piece.length, offset, false⟩ =
      (⟨piece, offset + piece.length, offset, tornTail⟩, .ok none) ∧ (tornTail = false → piece = []) := by
  unfold readNext
  split
  · next empty => exact ⟨false, rfl, fun _ => isEmpty_iff.mp empty⟩
  exists true
  split
  · exact ⟨rfl, nofun⟩
  next long =>
  have beyond : offset + piece.length < offset + 4 + fromLittleEndian (piece.take 4) + 8 := by
    rcases torn with short | short
    · exact absurd short long
    · omega
  rw [if_pos beyond]
  exact ⟨rfl, nofun⟩

theorem segment_length (entries : List Entry) :
    (segment xxh3 entries).length = 5 + (entries.flatMap (encodeRecord xxh3)).length := by
  simp [Wal.segment, header, magic]
  omega

theorem segment_append (entries more : List Entry) :
    segment xxh3 (entries ++ more) = segment xxh3 entries ++ more.flatMap (encodeRecord xxh3) := by
  simp [Wal.segment]

theorem openSegment_header (path : String) (rest : Bytes) :
    openSegment path (header ++ rest) = .ok ⟨rest, 5 + rest.length, 5, false⟩ := by
  have length : (header ++ rest).length = 5 + rest.length := by
    simp [header, magic]
    omega
  unfold openSegment
  rw [if_neg (by omega), length]
  rfl

def surviving (cut : Nat) (entries : List Entry) : List Entry := fitting (encodeRecord xxh3) (cut - 5) entries

theorem le_length_surviving {entries : List Entry} (behind : 5 ≤ cut) (inside : count ≤ entries.length) :
    count ≤ (surviving xxh3 cut entries).length ↔ (segment xxh3 (entries.take count)).length ≤ cut := by
  rw [surviving, le_length_fitting _ _ _ inside, segment_length]
  omega

theorem surviving_isPrefix (cut : Nat) (entries : List Entry) : surviving xxh3 cut entries <+: entries :=
  fitting_isPrefix _ _ _

theorem segment_take (behind : 5 ≤ cut) (entries : List Entry) :
    (segment xxh3 entries).take cut =
      segment xxh3 (surviving xxh3 cut entries) ++ tornPiece (encodeRecord xxh3) (cut - 5) entries := by
  have length : header.length = 5 := rfl
  have front : header.take cut = header := take_of_length_le (by omega)
  rw [Wal.segment, take_append, front, length, take_flatMap, Wal.segment, append_assoc]
  rfl

theorem replay_torn (path : String) {kept : List Entry} (storable : ∀ entry ∈ kept, Storable entry)
    (torn : Torn piece) :
    ∃ reader, openSegment path (segment xxh3 kept ++ piece) = .ok reader ∧
      (reader.replay xxh3).2 = (kept, .ok kept.length) ∧
      (reader.replay xxh3).1.lastValidOffset = (segment xxh3 kept).length ∧
      ((reader.replay xxh3).1.tornTail = false → piece = []) := by
  have short : kept.length ≤ _ := length_le_flatMap (encodeRecord xxh3) (by simp [encodeRecord_length])
  rw [segment_length, Wal.segment, append_assoc, openSegment_header, length_append]
  generalize records : (kept.flatMap (encodeRecord xxh3)).length = length at short ⊢
  obtain ⟨tornTail, stop, clean⟩ := readNext_torn xxh3 torn (5 + length)
  have turns : length + piece.length + 1 = kept.length + (length - kept.length + piece.length + 1) := by omega
  have inside : 5 + (kept.flatMap (encodeRecord xxh3)).length ≤ 5 + length + piece.length := by omega
  have front := @replayLoop_append xxh3 kept storable piece _ _ inside [] (length - kept.length + piece.length + 1)
  have replayed : replay xxh3 ⟨kept.flatMap (encodeRecord xxh3) ++ piece, 5 + (length + piece.length), 5, false⟩ =
      (⟨piece, 5 + length + piece.length, 5 + length, tornTail⟩, kept, .ok kept.length) := by
    unfold replay
    rw [length_append, records, ← Nat.add_assoc 5, turns, front, records, replayLoop, stop, nil_append]
  exists ⟨kept.flatMap (encodeRecord xxh3) ++ piece, 5 + (length + piece.length), 5, false⟩
  rw [replayed]
  exact ⟨rfl, rfl, rfl, clean⟩

def reopen (path : String) (file : Bytes) : Except TakyonicError (List Entry × Bytes) := do
  let reader ← openSegment path file
  match reader.replay xxh3 with
  | (_, _, .error error) => .error error
  | (reader, entries, .ok _) => .ok (entries, if reader.tornTail then file.take reader.lastValidOffset else file)

theorem reopen_torn (path : String) {kept : List Entry} (storable : ∀ entry ∈ kept, Storable entry)
    (torn : Torn piece) : reopen xxh3 path (segment xxh3 kept ++ piece) = .ok (kept, segment xxh3 kept) := by
  obtain ⟨reader, opened, replayed, offset, clean⟩ := replay_torn xxh3 path storable torn
  rw [reopen, opened]
  dsimp only [bind, Except.bind]
  generalize reader.replay xxh3 = outcome at replayed offset clean
  obtain ⟨⟨rest, fileLen, lastValidOffset, tornTail⟩, applied, result⟩ := outcome
  cases replayed
  subst offset
  cases tornTail with
  | false => simp [clean rfl]
  | true => simp

/-- A life of the segment: it was cut off somewhere, is repaired, and more entries are appended. -/
structure Generation where
  cut : Nat
  more : List Entry
  deriving DecidableEq, Repr

def Generation.file (path : String) (file : Bytes) (generation : Generation) : Except TakyonicError Bytes := do
  let (_, repaired) ← reopen xxh3 path (file.take generation.cut)
  pure (repaired ++ generation.more.flatMap (encodeRecord xxh3))

def Generation.entries (entries : List Entry) (generation : Generation) : List Entry :=
  surviving xxh3 generation.cut entries ++ generation.more

def Generation.Sound (generation : Generation) : Prop :=
  5 ≤ generation.cut ∧ ∀ entry ∈ generation.more, Storable entry

instance (generation : Generation) : Decidable generation.Sound :=
  inferInstanceAs (Decidable (_ ∧ _))

section

variable (path : String) {entries : List Entry} (storable : ∀ entry ∈ entries, Storable entry)
include storable

theorem storable_surviving (cut : Nat) : ∀ entry ∈ surviving xxh3 cut entries, Storable entry :=
  fun entry member => storable entry ((surviving_isPrefix xxh3 cut entries).subset member)

theorem replay_segment : ∃ reader, openSegment path (segment xxh3 entries) = .ok reader ∧
    (reader.replay xxh3).2 = (entries, .ok entries.length) := by
  obtain ⟨reader, opened, replayed, _⟩ := replay_torn xxh3 path storable torn_nil
  rw [append_nil] at opened
  exact ⟨reader, opened, replayed⟩

theorem torn_tornPiece (room : Nat) : Torn (tornPiece (encodeRecord xxh3) room entries) := by
  rcases tornPiece_cases (encodeRecord xxh3) room entries with none | ⟨next, member, count, short, piece⟩
  · rw [none]
    exact torn_nil
  · rw [piece]
    exact torn_take xxh3 (storable next member) short

theorem reopen_cut (behind : 5 ≤ cut) : reopen xxh3 path ((segment xxh3 entries).take cut) =
    .ok (surviving xxh3 cut entries, segment xxh3 (surviving xxh3 cut entries)) := by
  rw [segment_take xxh3 behind]
  exact reopen_torn xxh3 path (storable_surviving xxh3 storable cut) (torn_tornPiece xxh3 storable _)

theorem Generation.Sound.entries_storable (sound : generation.Sound) :
    ∀ entry ∈ generation.entries xxh3 entries, Storable entry := by
  exact forall_mem_append.mpr ⟨storable_surviving xxh3 storable _, sound.2⟩

theorem Generation.Sound.file_segment (sound : generation.Sound) :
    generation.file xxh3 path (segment xxh3 entries) = .ok (segment xxh3 (generation.entries xxh3 entries)) := by
  rw [Generation.file, reopen_cut xxh3 path storable sound.1, Generation.entries, segment_append]
  rfl

theorem foldlM_generations {generations : List Generation} (sound : ∀ generation ∈ generations, generation.Sound) :
    generations.foldlM (Generation.file xxh3 path) (segment xxh3 entries) =
        .ok (segment xxh3 (generations.foldl (Generation.entries xxh3) entries)) ∧
      ∀ entry ∈ generations.foldl (Generation.entries xxh3) entries, Storable entry := by
  induction generations generalizing entries with
  | nil => exact ⟨rfl, storable⟩
  | cons generation later ih =>
    have first := sound generation mem_cons_self
    rw [foldlM_cons, first.file_segment xxh3 path storable]
    exact ih (first.entries_storable xxh3 storable) fun other member => sound other (mem_cons_of_mem _ member)

/-- A segment cut anywhere behind its header is replayed as far as its records are whole, and stays usable through
    any number of cuts, repairs and further appends. -/
theorem torn_tail_recovery :
    (∀ cut, 5 ≤ cut → ∃ reader kept,
      openSegment path ((segment xxh3 entries).take cut) = .ok reader ∧
        (reader.replay xxh3).2 = (kept, .ok kept.length) ∧ kept <+: entries ∧
        (∀ count ≤ entries.length, count ≤ kept.length ↔ (segment xxh3 (entries.take count)).length ≤ cut) ∧
        (reader.replay xxh3).1.lastValidOffset = (segment xxh3 kept).length) ∧
      ∀ generations : List Generation, (∀ generation ∈ generations, generation.Sound) →
        ∃ file reader, generations.foldlM (Generation.file xxh3 path) (segment xxh3 entries) = .ok file ∧
          openSegment path file = .ok reader ∧
          (reader.replay xxh3).2 = (generations.foldl (Generation.entries xxh3) entries,
            .ok (generations.foldl (Generation.entries xxh3) entries).length) := by
  constructor
  · intro cut behind
    obtain ⟨reader, opened, replayed, offset, _⟩ := replay_torn xxh3 path (storable_surviving xxh3 storable cut)
      (torn_tornPiece xxh3 storable (cut - 5))
    rw [← segment_take xxh3 behind] at opened
    exact ⟨reader, surviving xxh3 cut entries, opened, replayed, surviving_isPrefix xxh3 cut entries,
      fun count inside => le_length_surviving xxh3 behind inside, offset⟩
  · intro generations sound
    obtain ⟨written, readable⟩ := foldlM_generations xxh3 path storable sound
    obtain ⟨reader, opened, replayed⟩ := replay_segment xxh3 path readable
    exact ⟨_, reader, written, opened, replayed⟩

end

theorem torn_tail_recovery_two :
    (∃ reader kept, openSegment "000001.wal" ((segment (fun _ => 7) [.put ⟨[97]⟩ ⟨[49]⟩ 1, .delete ⟨[97]⟩ 2]).take 40) =
        .ok reader ∧ (reader.replay fun _ => 7).2 = (kept, .ok kept.length) ∧
      kept <+: [.put ⟨[97]⟩ ⟨[49]⟩ 1, .delete ⟨[97]⟩ 2]) ∧
      ∃ file reader, [(⟨40, [.put ⟨[98]⟩ ⟨[50]⟩ 3]⟩ : Generation), ⟨60, []⟩].foldlM
          (Generation.file (fun _ => 7) "000001.wal")
          (segment (fun _ => 7) [.put ⟨[97]⟩ ⟨[49]⟩ 1, .delete ⟨[97]⟩ 2]) = .ok file ∧
        openSegment "000001.wal" file = .ok reader ∧
        (reader.replay fun _ => 7).2.1 = [.put ⟨[97]⟩ ⟨[49]⟩ 1] := by
  obtain ⟨cuts, generations⟩ := torn_tail_recovery (fun _ => 7) "000001.wal"
    (show ∀ entry ∈ [Entry.put ⟨[97]⟩ ⟨[49]⟩ 1, .delete ⟨[97]⟩ 2], Storable entry by decide)
  constructor
  · obtain ⟨reader, kept, opened, replayed, inside, _⟩ := cuts 40 (by decide)
    exact ⟨reader, kept, opened, replayed, inside⟩
  · obtain ⟨file, reader, written, opened, replayed⟩ := generations [⟨40, [.put ⟨[98]⟩ ⟨[50]⟩ 3]⟩, ⟨60, []⟩] (by decide)
    exact ⟨file, reader, written, opened, (congrArg Prod.fst replayed).trans (by decide)⟩

end WalReader

end Takyonic
