import Takyonic.Types

namespace Takyonic

open Foundation

inductive RaftCommand where
  | put (key : Key) (value : Value)
  | delete (key : Key)
  | addNode (id : Nat) (address : String)
  | removeNode (id : Nat)
  | noop
  | txnBatch (ops : List (Key × Option Value))
  | txnPrepare (txnId readTs : Nat) (ops : List (Key × Option Value))
  | txnCommit (txnId commitTs : Nat) (ops : List (Key × Option Value))
  | txnAbort (txnId : Nat)
  | catalogUpsert (table : String) (schema : Bytes)
  | catalogDrop (table : String)
  | authReplace (blob : Bytes)
  | statsReplace (blob : Bytes)
  | commentsReplace (blob : Bytes)
  deriving DecidableEq, Repr

namespace RaftCommand

def isConfigChange : RaftCommand → Bool
  | addNode _ _ | removeNode _ => true
  | _ => false

def isMeta (command : RaftCommand) : Bool :=
  command.isConfigChange || match command with
    | noop | txnPrepare _ _ _ | txnAbort _ | catalogUpsert _ _ | catalogDrop _ | authReplace _
    | statsReplace _ | commentsReplace _ => true
    | _ => false

def opEntry (commitTs : Nat) : Key × Option Value → Entry
  | (key, some value) => .put key value commitTs
  | (key, none) => .delete key commitTs

def toEntries (commitTs : Nat) : RaftCommand → Except TakyonicError (List Entry)
  | put key value => .ok [.put key value commitTs]
  | delete key => .ok [.delete key commitTs]
  | txnBatch ops => .ok (ops.map (opEntry commitTs))
  | txnCommit _ globalTs ops => .ok (ops.map (opEntry globalTs))
  | _ => .error (.raft "meta command cannot become LSM entries")

def commandVersion : UInt8 := 1

def opcode : RaftCommand → UInt8
  | put _ _ => 1
  | delete _ => 2
  | addNode _ _ => 3
  | removeNode _ => 4
  | noop => 5
  | txnBatch _ => 6
  | txnPrepare _ _ _ => 7
  | txnCommit _ _ _ => 8
  | txnAbort _ => 9
  | catalogUpsert _ _ => 10
  | catalogDrop _ => 11
  | authReplace _ => 12
  | statsReplace _ => 13
  | commentsReplace _ => 14

def fromUtf8 (bytes : Bytes) (what : String) : Except TakyonicError String :=
  match String.fromUTF8? ⟨bytes.toArray⟩ with
  | some text => .ok text
  | none => .error (.raft what)

def encodeOp : Key × Option Value → Bytes
  | (key, some value) => 1 :: (littleEndian 4 key.bytes.length ++
      littleEndian 4 value.bytes.length ++ key.bytes ++ value.bytes)
  | (key, none) => 2 :: (littleEndian 4 key.bytes.length ++ littleEndian 4 0 ++ key.bytes)

def encodeOpsBody (ops : List (Key × Option Value)) : Bytes :=
  littleEndian 4 ops.length ++ ops.flatMap encodeOp

def encodeKv (opcode : UInt8) (key value : Bytes) : Except TakyonicError Bytes :=
  if 2 ^ 32 ≤ key.length then .error (.raft "Raft command key exceeds u32")
  else if 2 ^ 32 ≤ value.length then .error (.raft "Raft command value exceeds u32")
  else .ok (commandVersion :: opcode :: (littleEndian 4 key.length ++ littleEndian 4 value.length ++ key ++ value))

def encode (command : RaftCommand) : Except TakyonicError Bytes :=
  match command with
  | put key value => encodeKv command.opcode key.bytes value.bytes
  | delete key => encodeKv command.opcode key.bytes []
  | addNode id address => encodeKv command.opcode (utf8 address) (littleEndian 8 id)
  | removeNode id => encodeKv command.opcode [] (littleEndian 8 id)
  | noop => encodeKv command.opcode [] []
  | txnBatch ops => encodeKv command.opcode [] (encodeOpsBody ops)
  | txnPrepare txnId readTs ops =>
    encodeKv command.opcode (littleEndian 8 txnId ++ littleEndian 8 readTs) (encodeOpsBody ops)
  | txnCommit txnId commitTs ops =>
    encodeKv command.opcode (littleEndian 8 txnId ++ littleEndian 8 commitTs) (encodeOpsBody ops)
  | txnAbort txnId => encodeKv command.opcode (littleEndian 8 txnId) []
  | catalogUpsert table schema => encodeKv command.opcode (utf8 table) schema
  | catalogDrop table => encodeKv command.opcode (utf8 table) []
  | authReplace blob => encodeKv command.opcode (utf8 "AUTH") blob
  | statsReplace blob => encodeKv command.opcode (utf8 "STATS") blob
  | commentsReplace blob => encodeKv command.opcode (utf8 "COMMENTS") blob

/-- The loop of `decode_ops_body`: `count` operations read off the front of `body`. -/
def decodeOps : Nat → Bytes → Except TakyonicError (List (Key × Option Value))
  | 0, _ => .ok []
  | _ + 1, [] => .error (.raft "ops body op truncated")
  | count + 1, kind :: body => do
    if body.length < 8 then throw (.raft "ops body lengths truncated")
    let klen := fromLittleEndian (body.take 4)
    let vlen := fromLittleEndian ((body.drop 4).take 4)
    let payload := body.drop 8
    if payload.length < klen + vlen then throw (.raft "ops body payload truncated")
    let key : Key := ⟨payload.take klen⟩
    let value : Bytes := (payload.drop klen).take vlen
    let op ← match kind.toNat with
      | 1 => pure (key, some (Value.mk value))
      | 2 => if vlen = 0 then pure (key, none) else throw (.raft s!"unknown op kind {kind}")
      | _ => throw (.raft s!"unknown op kind {kind}")
    let rest ← decodeOps count (payload.drop (klen + vlen))
    pure (op :: rest)

def decodeOpsBody (body : Bytes) : Except TakyonicError (List (Key × Option Value)) :=
  if body.length < 4 then .error (.raft "ops body truncated")
  else decodeOps (fromLittleEndian (body.take 4)) (body.drop 4)

def decodePayload (opcode : UInt8) (key value : Bytes) : Except TakyonicError RaftCommand :=
  match opcode.toNat with
  | 1 => .ok (put ⟨key⟩ ⟨value⟩)
  | 2 =>
    if value.length = 0 then .ok (delete ⟨key⟩)
    else .error (.raft "Raft delete command contains a value")
  | 3 =>
    if value.length ≠ 8 then .error (.raft "AddNode command requires 8-byte node id")
    else do
      let address ← fromUtf8 key "AddNode address utf8"
      pure (addNode (fromLittleEndian value) address)
  | 4 =>
    if key.length ≠ 0 ∨ value.length ≠ 8 then
      .error (.raft "RemoveNode command requires empty key and 8-byte id")
    else .ok (removeNode (fromLittleEndian value))
  | 5 =>
    if key.length = 0 ∧ value.length = 0 then .ok noop
    else .error (.raft "Noop command must have empty key and value")
  | 6 =>
    if key.length = 0 then do
      let ops ← decodeOpsBody value
      pure (txnBatch ops)
    else .error (.raft "TxnBatch must have empty key framing")
  | 7 =>
    if key.length = 16 then do
      let ops ← decodeOpsBody value
      pure (txnPrepare (fromLittleEndian (key.take 8)) (fromLittleEndian (key.drop 8)) ops)
    else .error (.raft "TxnPrepare requires 16-byte txn_id+read_ts key")
  | 8 =>
    if key.length = 16 then do
      let ops ← decodeOpsBody value
      pure (txnCommit (fromLittleEndian (key.take 8)) (fromLittleEndian (key.drop 8)) ops)
    else .error (.raft "TxnCommit requires 16-byte txn_id+commit_ts key")
  | 9 =>
    if key.length = 8 ∧ value.length = 0 then .ok (txnAbort (fromLittleEndian key))
    else .error (.raft "TxnAbort requires 8-byte txn_id and empty value")
  | 10 => do
    let table ← fromUtf8 key "CatalogUpsert table utf8"
    pure (catalogUpsert table value)
  | 11 =>
    if value.length = 0 then do
      let table ← fromUtf8 key "CatalogDrop table utf8"
      pure (catalogDrop table)
    else .error (.raft "CatalogDrop must have empty value")
  | 12 => .ok (authReplace value)
  | 13 => .ok (statsReplace value)
  | 14 => .ok (commentsReplace value)
  | _ => .error (.raft s!"unknown Raft command opcode {opcode}")

def decode (encoded : Bytes) : Except TakyonicError RaftCommand :=
  match encoded with
  | version :: opcode :: framing =>
    if encoded.length < 10 then .error (.raft "Raft command is truncated")
    else if version ≠ commandVersion then
      .error (.raft s!"unsupported Raft command version {version}")
    else
      let keyLen := fromLittleEndian (framing.take 4)
      let valueLen := fromLittleEndian ((framing.drop 4).take 4)
      let payload := framing.drop 8
      if payload.length ≠ keyLen + valueLen then
        .error (.raft "Raft command payload length mismatch")
      else decodePayload opcode (payload.take keyLen) (payload.drop keyLen)
  | _ => .error (.raft "Raft command is truncated")

def changesConfig (encoded : Bytes) : Bool :=
  match decode encoded with
  | .ok command => command.isConfigChange
  | .error _ => false

variable {encoded key value : Bytes} {command : RaftCommand} {opcode : UInt8}

theorem encodeKv_framing (built : encodeKv opcode key value = .ok encoded) :
    ∃ framing, encoded = commandVersion :: opcode :: framing := by
  unfold encodeKv at built
  split at built
  · cases built
  split at built
  · cases built
  · cases built
    exact ⟨_, rfl⟩

theorem encode_framing (built : command.encode = .ok encoded) :
    ∃ framing, encoded = commandVersion :: command.opcode :: framing := by
  unfold encode at built
  split at built <;> exact encodeKv_framing built

theorem decodePayload_opcode (decoded : decodePayload opcode key value = .ok command) : command.opcode = opcode := by
  have code : UInt8.ofNat opcode.toNat = opcode := by simp
  rw [← code]
  unfold decodePayload at decoded
  generalize opcode.toNat = number at decoded
  split at decoded
  all_goals try split at decoded
  all_goals first
    | (cases decoded; rfl)
    | (obtain ⟨_, _, built⟩ := bind_eq_ok decoded
       cases built
       rfl)
    | cases decoded

theorem isConfigChange_opcode (command : RaftCommand) :
    command.isConfigChange = decide (command.opcode = 3 ∨ command.opcode = 4) := by
  cases command <;> rfl

theorem changesConfig_encode (built : command.encode = .ok encoded) (changes : changesConfig encoded = true) :
    command.isConfigChange = true := by
  obtain ⟨framing, rfl⟩ := encode_framing built
  unfold changesConfig at changes
  split at changes
  · rename_i decoded read
    unfold decode at read
    simp only at read
    split at read
    · cases read
    split at read
    · cases read
    split at read
    · cases read
    · rw [isConfigChange_opcode, decodePayload_opcode read] at changes
      rw [isConfigChange_opcode, changes]
  · cases changes

end RaftCommand

end Takyonic
