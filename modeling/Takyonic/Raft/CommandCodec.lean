import Takyonic.Storage.Schema

/-! Every command that can be encoded is decoded again. -/

namespace Takyonic

open Foundation List

namespace RaftCommand

theorem fields_drop (first second : Nat) (rest : Bytes) :
    (littleEndian 4 first ++ (littleEndian 4 second ++ rest)).drop 8 = rest := by
  rw [show 8 = 4 + 4 from rfl, ← drop_drop, littleEndian_drop, littleEndian_drop]

variable {key value encoded : Bytes} {ops : List (Key × Option Value)}

theorem decode_encodeKv {opcode : UInt8} (built : encodeKv opcode key value = .ok encoded) :
    key.length < 2 ^ 32 ∧ value.length < 2 ^ 32 ∧ decode encoded = decodePayload opcode key value := by
  unfold encodeKv at built
  split at built
  · cases built
  split at built
  · cases built
  next keyFits valueFits =>
  cases built
  have keyLen : fromLittleEndian (littleEndian 4 key.length) = key.length :=
    fromLittleEndian_of_lt (lt_of_not_ge keyFits)
  have valueLen : fromLittleEndian (littleEndian 4 value.length) = value.length :=
    fromLittleEndian_of_lt (lt_of_not_ge valueFits)
  refine ⟨lt_of_not_ge keyFits, lt_of_not_ge valueFits, ?_⟩
  unfold decode
  simp only [append_assoc]
  rw [if_neg (by simp; omega), if_neg (not_not.mpr rfl), littleEndian_take, littleEndian_drop, littleEndian_take,
    keyLen, valueLen]
  rw [fields_drop, if_neg (by simp), take_left, drop_left]

theorem encodeOp_length (op : Key × Option Value) : 9 ≤ (encodeOp op).length := by
  obtain ⟨key, value⟩ := op
  cases value with
  | none | some _ =>
    simp only [encodeOp, length_cons, length_append, littleEndian_length]
    omega

theorem decodeOps_cons (keyFits : key.length < 2 ^ 32) (valueFits : value.length < 2 ^ 32) (kind : UInt8)
    (count : Nat) (rest : Bytes) :
    decodeOps (count + 1)
        (kind :: (littleEndian 4 key.length ++ (littleEndian 4 value.length ++ (key ++ (value ++ rest))))) =
      (do
        let op ← match kind.toNat with
          | 1 => pure (Key.mk key, some (Value.mk value))
          | 2 => if value.length = 0 then pure (Key.mk key, none) else throw (.raft s!"unknown op kind {kind}")
          | _ => throw (.raft s!"unknown op kind {kind}")
        let ops ← decodeOps count rest
        pure (op :: ops)) := by
  have keyLen : fromLittleEndian (littleEndian 4 key.length) = key.length := fromLittleEndian_of_lt keyFits
  have valueLen : fromLittleEndian (littleEndian 4 value.length) = value.length := fromLittleEndian_of_lt valueFits
  have after : (key ++ (value ++ rest)).drop (key.length + value.length) = rest := by
    rw [← drop_drop, drop_left, drop_left]
  conv_lhs => unfold decodeOps
  rewrite [if_neg (by simp; omega), littleEndian_take, littleEndian_drop, littleEndian_take, fields_drop, keyLen,
    valueLen, if_neg (by simp), take_left, drop_left, take_left, after]
  rfl

theorem decodeOps_encode (fits : (ops.flatMap encodeOp).length < 2 ^ 32) (rest : Bytes) :
    decodeOps ops.length (ops.flatMap encodeOp ++ rest) = .ok ops := by
  induction ops with
  | nil => rfl
  | cons op later ih =>
    rw [flatMap_cons, length_append] at fits
    have next := ih (by omega)
    obtain ⟨⟨key⟩, value⟩ := op
    rw [flatMap_cons, length_cons]
    cases value with
    | none =>
      have keyFits : key.length < 2 ^ 32 := by
        simp [encodeOp] at fits
        omega
      have step := @decodeOps_cons key [] keyFits (by decide) 2 later.length (later.flatMap encodeOp ++ rest)
      simp only [encodeOp, cons_append, append_assoc]
      rw [length_nil, nil_append] at step
      rw [step, next]
      rfl
    | some value =>
      have bounds : key.length < 2 ^ 32 ∧ value.bytes.length < 2 ^ 32 := by
        simp [encodeOp] at fits
        omega
      have step := decodeOps_cons bounds.1 bounds.2 1 later.length (later.flatMap encodeOp ++ rest)
      simp only [encodeOp, cons_append, append_assoc]
      rw [step, next]
      rfl

theorem decodeOpsBody_encode (fits : (encodeOpsBody ops).length < 2 ^ 32) :
    decodeOpsBody (encodeOpsBody ops) = .ok ops := by
  have few : ops.length ≤ (ops.flatMap encodeOp).length := by
    clear fits
    induction ops with
    | nil => exact le_rfl
    | cons op later ih =>
      have long := encodeOp_length op
      rw [flatMap_cons, length_append, length_cons]
      omega
  rw [encodeOpsBody, length_append] at fits
  have count : fromLittleEndian (littleEndian 4 ops.length) = ops.length := fromLittleEndian_of_lt (by omega)
  have body := @decodeOps_encode ops (by omega) []
  rw [append_nil] at body
  unfold decodeOpsBody encodeOpsBody
  rw [if_neg (by simp), littleEndian_take, littleEndian_drop, count, body]

theorem fromUtf8_utf8 (text what : String) : fromUtf8 (utf8 text) what = .ok text := by
  rw [fromUtf8, fromUTF8?_utf8]

/-- The node ids, transaction ids and timestamps of a command: each is a `u64`. -/
def words : RaftCommand → List Nat
  | addNode id _ | removeNode id | txnAbort id => [id]
  | txnPrepare txnId ts _ | txnCommit txnId ts _ => [txnId, ts]
  | _ => []

variable {command : RaftCommand}

theorem decode_encode (built : command.encode = .ok encoded) :
    ∃ read, decode encoded = .ok read ∧ ((∀ word ∈ command.words, word < 2 ^ 64) → read = command) := by
  cases command with
  | addNode id address | catalogUpsert table schema | catalogDrop table | removeNode id | txnAbort txnId =>
    rw [(decode_encodeKv built).2.2]
    simp +contextual [opcode, decodePayload, fromUtf8_utf8, words, fromLittleEndian_littleEndian, Nat.mod_eq_of_lt]
  | txnBatch ops | txnPrepare txnId readTs ops | txnCommit txnId commitTs ops =>
    obtain ⟨_, fits, decoded⟩ := decode_encodeKv built
    rw [decoded]
    simp +contextual [opcode, decodePayload, decodeOpsBody_encode fits, words, fromLittleEndian_littleEndian,
      Nat.mod_eq_of_lt]
  | _ =>
    rw [(decode_encodeKv built).2.2]
    exact ⟨_, rfl, fun _ => rfl⟩

theorem decode_of_encode (built : command.encode = .ok encoded) : ∃ read, decode encoded = .ok read :=
  (decode_encode built).imp fun _ => And.left

theorem decode_inverts_encode (words : ∀ word ∈ command.words, word < 2 ^ 64)
    (built : command.encode = .ok encoded) : decode encoded = .ok command := by
  obtain ⟨read, decoded, same⟩ := decode_encode built
  rw [decoded, same words]

theorem decode_inverts_encode_prepare :
    decode [1, 7, 16, 0, 0, 0, 25, 0, 0, 0, 7, 0, 0, 0, 0, 0, 0, 0, 3, 0, 0, 0, 0, 0, 0, 0, 2, 0, 0, 0, 1, 1, 0, 0, 0,
        1, 0, 0, 0, 97, 49, 2, 1, 0, 0, 0, 0, 0, 0, 0, 98] =
      .ok (txnPrepare 7 3 [(⟨[97]⟩, some ⟨[49]⟩), (⟨[98]⟩, none)]) :=
  decode_inverts_encode (by decide) (by decide)

end RaftCommand

end Takyonic
