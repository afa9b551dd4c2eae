import Takyonic.Storage.Losers

/-! Both logs write records of any size, and their readers take none above a cap. -/

namespace Takyonic

open Foundation List WalRecord WalReader RaftCommand

namespace WalReader

open Wal

variable (xxh3 : Bytes → UInt64)

def Returned (path : String) (entries : List Entry) : Prop :=
  ∃ reader, openSegment path (segment xxh3 entries) = .ok reader ∧
    (reader.replay xxh3).2 = (entries, .ok entries.length)

theorem Returned.short {path : String} {entries : List Entry} (returned : Returned xxh3 path entries) :
    ∀ entry ∈ entries, (encodeBody entry).length ≤ maxBody := by
  obtain ⟨reader, _, replayed⟩ := returned
  have sound := replay_sound xxh3 reader
  rw [replayed] at sound
  exact fun entry member => (sound entry member).2

end WalReader

namespace WalRecord

theorem takeBytes_length {body payload rest : Bytes} (taken : takeBytes body = .ok (payload, rest)) :
    body.length = 4 + payload.length + rest.length := by
  unfold takeBytes at taken
  dsimp only at taken
  split at taken
  · cases taken
  split at taken
  · cases taken
  cases taken
  simp only [length_drop, length_take] at *
  omega

theorem bytesToString_length {bytes : Bytes} {text : String} (decoded : bytesToString bytes = .ok text) :
    (utf8 text).length = bytes.length := by
  unfold bytesToString String.fromUTF8? at decoded
  split at decoded
  · next valid =>
    split at valid
    · cases valid
      cases decoded
      rfl
    · cases valid
  · cases decoded

theorem putBytes_length (bytes : Bytes) : (putBytes bytes).length = 4 + bytes.length := by
  rw [putBytes, length_append, littleEndian_length]

theorem payloads_length {body table key value rest rest' : Bytes} {text : String}
    (tableTaken : takeBytes body = .ok (table, rest)) (keyTaken : takeBytes rest = .ok (key, rest'))
    (valueTaken : takeBytes rest' = .ok (value, [])) (decoded : bytesToString table = .ok text) :
    (putBytes (utf8 text) ++ (putBytes key ++ putBytes value)).length = body.length := by
  rw [takeBytes_length tableTaken, takeBytes_length keyTaken, takeBytes_length valueTaken]
  simp only [length_append, putBytes_length, bytesToString_length decoded, length_nil]
  omega

theorem decodeBody_length {body : Bytes} {record : WalRecord} (decoded : decodeBody body = .ok record) :
    record.encodeBody.length = body.length := by
  cases body with
  | nil => cases decoded
  | cons tag body =>
    dsimp only [decodeBody] at decoded
    split at decoded
    iterate 2
      obtain ⟨⟨table, rest⟩, tableTaken, decoded⟩ := bind_eq_ok decoded
      obtain ⟨⟨key, rest'⟩, keyTaken, decoded⟩ := bind_eq_ok decoded
      obtain ⟨⟨value, last⟩, valueTaken, decoded⟩ := bind_eq_ok decoded
      split at decoded
      · cases decoded
      · next ended =>
        obtain ⟨text, utf8, decoded⟩ := bind_eq_ok decoded
        obtain rfl : last = [] := not_not.mp ended
        cases decoded
        exact congrArg (· + 1) (payloads_length tableTaken keyTaken valueTaken utf8)
    · obtain ⟨⟨table, rest⟩, tableTaken, decoded⟩ := bind_eq_ok decoded
      obtain ⟨⟨key, last⟩, keyTaken, decoded⟩ := bind_eq_ok decoded
      split at decoded
      · cases decoded
      next ended =>
      obtain ⟨text, utf8, decoded⟩ := bind_eq_ok decoded
      obtain rfl : last = [] := not_not.mp ended
      cases decoded
      rw [length_cons, takeBytes_length tableTaken, takeBytes_length keyTaken]
      simp only [encodeBody, length_cons, length_append, putBytes_length, bytesToString_length utf8, length_nil]
      omega
    · split at decoded
      · cases decoded
      · next eight =>
        cases decoded
        simp only [encodeBody, length_cons, littleEndian_length]
        omega
    · cases decoded

end WalRecord

namespace TxnWal

variable (xxh3 : Bytes → UInt64)

def Scan.ops (scan : Scan) : List WalRecord := scan.committed.flatMap Prod.snd ++ scan.pending

theorem Scan.ops_add (scan : Scan) (record : WalRecord) (length : Nat) :
    ∀ op ∈ (scan.add record length).ops, op ∈ scan.ops ∨ op = record := by
  intro op member
  cases record with
  | commit txnId => exact .inl (by simpa [Scan.ops, Scan.add] using member)
  | _ => simpa [Scan.ops, Scan.add, or_assoc] using member

theorem scanRecords_short {fuel : Nat} {rest : Bytes} {scan after : Scan}
    (scanned : scanRecords xxh3 fuel rest scan = .ok after)
    (before : ∀ op ∈ scan.ops, op.encodeBody.length ≤ maxBody) :
    ∀ op ∈ after.ops, op.encodeBody.length ≤ maxBody := by
  induction fuel generalizing rest scan with
  | zero =>
    cases scanned
    exact before
  | succ fuel ih =>
    unfold scanRecords at scanned
    dsimp only at scanned
    split at scanned
    · cases scanned
      exact before
    split at scanned
    · cases scanned
      exact before
    next short =>
    split at scanned
    · cases scanned
      exact before
    split at scanned
    · cases scanned
      exact before
    split at scanned
    · cases scanned
      exact before
    split at scanned
    · cases scanned
    next record decoded =>
    apply ih scanned
    intro op member
    rcases Scan.ops_add _ _ _ op member with old | rfl
    · exact before op old
    · rw [WalRecord.decodeBody_length decoded, length_take]
      omega

def Returned (txns : List (Nat × List WalRecord)) : Prop :=
  ∃ file, recoverCommitted xxh3 (some (log xxh3 txns)) = .ok (txns, file)

theorem Returned.short {txns : List (Nat × List WalRecord)} (returned : Returned xxh3 txns) :
    ∀ txn ∈ txns, ∀ op ∈ txn.2, op.encodeBody.length ≤ maxBody := by
  obtain ⟨file, recovered⟩ := returned
  unfold recoverCommitted at recovered
  dsimp only at recovered
  split at recovered
  · cases recovered
    exact nofun
  split at recovered
  · cases recovered
  split at recovered
  · cases recovered
  split at recovered
  · cases recovered
  obtain ⟨scan, scanned, recovered⟩ := bind_eq_ok recovered
  cases recovered
  intro txn inTxns op inOps
  apply scanRecords_short xxh3 scanned nofun
  exact mem_append_left _ (mem_flatMap.mpr ⟨txn, inTxns, inOps⟩)

end TxnWal

def Entry.recordBytes (entry : Entry) : Nat :=
  17 + entry.key.bytes.length + (entry.value.map fun value => value.bytes.length).getD 0

theorem Wal.encodeBody_length {entry : Entry} (wellFormed : entry.WellFormed) :
    (encodeBody entry).length = entry.recordBytes := by
  obtain ⟨key, value, seq, tombstone⟩ := entry
  cases value with
  | none => simp [encodeBody, Entry.recordBytes, littleEndian_length]; omega
  | some value =>
    cases tombstone with
    | false => simp [encodeBody, Entry.recordBytes, littleEndian_length]; omega
    | true => cases wellFormed.mp rfl

def WalRecord.recordBytes : WalRecord → Nat
  | insert table key value | update table key value => 13 + (utf8 table).length + key.length + value.length
  | delete table key => 9 + (utf8 table).length + key.length
  | commit _ => 9

theorem WalRecord.encodeBody_length (record : WalRecord) : record.encodeBody.length = record.recordBytes := by
  cases record with
  | commit txnId => simp [encodeBody, recordBytes]
  | _ =>
    simp only [encodeBody, recordBytes, length_cons, length_append, putBytes_length]
    omega

/-- Exactly the records of at most 64 MiB come back from the two logs. -/
theorem logs_returned_iff (xxh3 : Bytes → UInt64) :
    (∀ (path : String) (entries : List Entry), (∀ entry ∈ entries, entry.seq < 2 ^ 64 ∧ entry.WellFormed) →
      (Returned xxh3 path entries ↔ ∀ entry ∈ entries, entry.recordBytes ≤ 64 * 1024 * 1024)) ∧
      ∀ txns : List (Nat × List WalRecord),
        (∀ txn ∈ txns, txn.1 < 2 ^ 64 ∧ ∀ op ∈ txn.2, ∀ txnId, op ≠ .commit txnId) →
        (TxnWal.Returned xxh3 txns ↔ ∀ txn ∈ txns, ∀ op ∈ txn.2, op.recordBytes ≤ 64 * 1024 * 1024) := by
  constructor
  · intro path entries sound
    constructor
    · intro returned entry member
      rw [← Wal.encodeBody_length (sound entry member).2]
      exact returned.short xxh3 entry member
    · intro small
      have storable : ∀ entry ∈ entries, Wal.Storable entry := by
        intro entry member
        have bound := small entry member
        rw [← Wal.encodeBody_length (sound entry member).2] at bound
        exact ⟨(sound entry member).1, (sound entry member).2, bound⟩
      obtain ⟨reader, opened, replayed⟩ := replay_segment xxh3 path storable
      exact ⟨reader, opened, replayed⟩
  · intro txns sound
    constructor
    · intro returned txn inTxns op inOps
      rw [← op.encodeBody_length]
      exact returned.short xxh3 txn inTxns op inOps
    · intro small
      have readable : TxnWal.Readable txns := by
        intro txn inTxns
        apply And.intro (sound txn inTxns).1
        intro op inOps
        have plain := (sound txn inTxns).2 op inOps
        have bound := small txn inTxns op inOps
        rw [← op.encodeBody_length] at bound
        apply And.intro _ plain
        cases op with
        | commit txnId => exact absurd rfl (plain txnId)
        | _ => exact bound
      exact ⟨_, TxnWal.recoverCommitted_log xxh3 readable⟩

theorem logs_returned_small :
    Returned (fun _ => 7) "000001.wal" [.put ⟨[97]⟩ ⟨[49]⟩ 1] ∧
      TxnWal.Returned (fun _ => 7) [(1, [.delete "t" [97]])] := by
  constructor
  · apply ((logs_returned_iff fun _ => 7).1 "000001.wal" [.put ⟨[97]⟩ ⟨[49]⟩ 1] (by decide)).mpr
    decide
  · apply ((logs_returned_iff fun _ => 7).2 [(1, [.delete "t" [97]])] (by simp)).mpr
    decide

theorem WalReader.not_returned_put {value : Bytes} (large : 64 * 1024 * 1024 ≤ value.length) :
    ¬ Returned xxh3 path [.put key ⟨value⟩ seq] := by
  intro returned
  have short := returned.short xxh3 _ mem_cons_self
  rw [Wal.encodeBody_length (by simp [Entry.WellFormed, Entry.put])] at short
  simp only [Entry.recordBytes, Entry.put, Wal.maxBody, Option.map_some, Option.getD_some] at short
  omega

theorem TxnWal.not_returned_insert {value : Bytes} (large : 64 * 1024 * 1024 ≤ value.length) :
    ¬ TxnWal.Returned xxh3 [(txnId, [.insert table key value])] := by
  intro returned
  have short := returned.short xxh3 _ mem_cons_self _ mem_cons_self
  rw [WalRecord.encodeBody_length] at short
  simp only [WalRecord.recordBytes, TxnWal.maxBody] at short
  omega

/-- A value of 64 MiB is written to both logs and comes back from neither. -/
theorem logs_large_value_lost :
    ¬ Returned (fun _ => 7) "000001.wal" [.put ⟨[97]⟩ ⟨List.replicate (64 * 1024 * 1024) 0⟩ 1] ∧
      ¬ TxnWal.Returned (fun _ => 7) [(1, [.insert "t" [97] (List.replicate (64 * 1024 * 1024) 0)])] := by
  have large := le_of_eq (length_replicate (n := 64 * 1024 * 1024) (a := (0 : UInt8))).symm
  exact ⟨not_returned_put large, TxnWal.not_returned_insert large⟩

end Takyonic
