import Takyonic.Storage.Memtable
import Takyonic.Storage.Schema

namespace Takyonic

open Foundation List RaftCommand

inductive WalRecord where
  | insert (table : String) (key value : Bytes)
  | update (table : String) (key value : Bytes)
  | delete (table : String) (key : Bytes)
  | commit (txnId : Nat)
  deriving DecidableEq, Repr

open WalRecord

variable (xxh3 : Bytes → UInt64)

namespace WalRecord

def putBytes (bytes : Bytes) : Bytes := littleEndian 4 bytes.length ++ bytes

def encodeBody : WalRecord → Bytes
  | insert table key value => 1 :: (putBytes (utf8 table) ++ (putBytes key ++ putBytes value))
  | update table key value => 2 :: (putBytes (utf8 table) ++ (putBytes key ++ putBytes value))
  | delete table key => 3 :: (putBytes (utf8 table) ++ putBytes key)
  | commit txnId => 4 :: littleEndian 8 txnId

def takeBytes (body : Bytes) : Except TakyonicError (Bytes × Bytes) :=
  if body.length < 4 then .error (.integrity "txn WAL truncated length prefix")
  else
    let len := fromLittleEndian (body.take 4)
    let rest := body.drop 4
    if rest.length < len then .error (.integrity "txn WAL truncated payload")
    else .ok (rest.take len, rest.drop len)

def bytesToString (bytes : Bytes) : Except TakyonicError String :=
  match String.fromUTF8? ⟨bytes.toArray⟩ with
  | some text => .ok text
  | none => .error (.integrity "txn WAL non-utf8 table")

def decodeBody : Bytes → Except TakyonicError WalRecord
  | [] => .error (.integrity "txn WAL body empty")
  | tag :: body =>
    match tag.toNat with
    | 1 => do
      let (table, rest) ← takeBytes body
      let (key, rest) ← takeBytes rest
      let (value, rest) ← takeBytes rest
      if rest ≠ [] then throw (.integrity "txn WAL Insert has trailing bytes")
      let table ← bytesToString table
      pure (insert table key value)
    | 2 => do
      let (table, rest) ← takeBytes body
      let (key, rest) ← takeBytes rest
      let (value, rest) ← takeBytes rest
      if rest ≠ [] then throw (.integrity "txn WAL Update has trailing bytes")
      let table ← bytesToString table
      pure (update table key value)
    | 3 => do
      let (table, rest) ← takeBytes body
      let (key, rest) ← takeBytes rest
      if rest ≠ [] then throw (.integrity "txn WAL Delete has trailing bytes")
      let table ← bytesToString table
      pure (delete table key)
    | 4 =>
      if body.length ≠ 8 then .error (.integrity "txn WAL Commit must be 8 bytes")
      else .ok (commit (fromLittleEndian body))
    | other => .error (.integrity s!"unknown txn WAL tag {other}")

def encodeFramed (record : WalRecord) : Bytes :=
  littleEndian 4 record.encodeBody.length ++ (record.encodeBody ++ littleEndian 8 (xxh3 record.encodeBody).toNat)

def redo (seq : Nat) : WalRecord → Option Entry
  | insert _ key value | update _ key value => some (.put ⟨key⟩ ⟨value⟩ seq)
  | delete _ key => some (.delete ⟨key⟩ seq)
  | commit _ => none

/-- `records_from_writes` for one write of the set. -/
def ofWrite (library : Library) : Key × Option Value → WalRecord
  | (key, some value) => insert ((Schema.tableFromUserKey library key).getD "") key.bytes value.bytes
  | (key, none) => delete ((Schema.tableFromUserKey library key).getD "") key.bytes

end WalRecord

namespace TxnWal

def magic : Bytes := [84, 75, 89, 65]

def version : UInt8 := 1

def header : Bytes := magic ++ [version]

def maxBody : Nat := 64 * 1024 * 1024

/-- `append_committed_txn` -/
def committedTxn (txn : Nat × List WalRecord) : Bytes :=
  (txn.2 ++ [commit txn.1]).flatMap (encodeFramed xxh3)

/-- What a scan has found: the committed batches, the operations after the last commit mark, the end of the
    last good record, and whether the scan stopped at a torn one. -/
structure Scan where
  committed : List (Nat × List WalRecord)
  pending : List WalRecord
  validEnd : Nat
  torn : Bool

def Scan.add (scan : Scan) (record : WalRecord) (length : Nat) : Scan :=
  let scan := { scan with validEnd := scan.validEnd + 4 + length + 8 }
  match record with
  | .commit txnId => { scan with committed := scan.committed ++ [(txnId, scan.pending)], pending := [] }
  | other => { scan with pending := scan.pending ++ [other] }

/-- The loop of `recover_committed`; every round takes at least the length field. -/
def scanRecords (xxh3 : Bytes → UInt64) : Nat → Bytes → Scan → Except TakyonicError Scan
  | 0, _, scan => .ok scan
  | fuel + 1, rest, scan =>
    if rest.length < 4 then .ok scan
    else
      let bodyLen := fromLittleEndian (rest.take 4)
      let rest := rest.drop 4
      if maxBody < bodyLen then .ok { scan with torn := true }
      else if rest.length < bodyLen then .ok { scan with torn := true }
      else
        let body := rest.take bodyLen
        let rest := rest.drop bodyLen
        if rest.length < 8 then .ok { scan with torn := true }
        else if fromLittleEndian (rest.take 8) ≠ (xxh3 body).toNat then .ok { scan with torn := true }
        else match decodeBody body with
          | .error error => .error error
          | .ok record => scanRecords xxh3 fuel (rest.drop 8) (scan.add record bodyLen)

def recoverCommitted :
    Option Bytes → Except TakyonicError (List (Nat × List WalRecord) × Option Bytes)
  | none => .ok ([], none)
  | some file =>
    if file.length < 4 then .ok ([], some file)
    else if file.take 4 ≠ magic then .error (.integrity "txn WAL bad magic on recover")
    else match file.drop 4 with
      | [] => .error .io
      | found :: rest =>
        if found ≠ version then .error (.integrity s!"txn WAL unsupported version {found}")
        else do
          let scan ← scanRecords xxh3 (rest.length + 1) rest ⟨[], [], 5, false⟩
          .ok (scan.committed, some (if scan.torn then file.take scan.validEnd else file))

/-- `WalManager::open`: the file to append to. -/
def openLog : Option Bytes → Except TakyonicError Bytes
  | none => .ok header
  | some file =>
    if file.length < 4 then .error .io
    else if file.take 4 ≠ magic then .error (.integrity "bad txn WAL magic at TXN_WAL")
    else match file.drop 4 with
      | [] => .error .io
      | found :: _ =>
        if found ≠ version then .error (.integrity s!"unsupported txn WAL version {found}")
        else .ok file

def redoEntries (seq : Nat) : List WalRecord → List Entry
  | [] => []
  | record :: rest => (record.redo seq).toList ++ redoEntries (seq + 1) rest

end TxnWal

namespace WalRecord

def Fits : WalRecord → Prop
  | commit txnId => txnId < 2 ^ 64
  | record => record.encodeBody.length ≤ TxnWal.maxBody

theorem takeBytes_putBytes {bytes : Bytes} (fits : bytes.length < 2 ^ 32) (rest : Bytes) :
    takeBytes (putBytes bytes ++ rest) = .ok (bytes, rest) := by
  have length : fromLittleEndian (littleEndian 4 bytes.length) = bytes.length := fromLittleEndian_of_lt fits
  have long : ¬ (littleEndian 4 bytes.length ++ (bytes ++ rest)).length < 4 := by
    simp only [length_append, littleEndian_length]
    omega
  unfold takeBytes putBytes
  rw [append_assoc, if_neg long, littleEndian_take, littleEndian_drop, length]
  rw [if_neg (by simp), take_left, drop_left]

theorem bytesToString_utf8 (text : String) : bytesToString (utf8 text) = .ok text := by
  rw [bytesToString, fromUTF8?_utf8]

theorem decodeBody_encodeBody {record : WalRecord} (fits : record.Fits) :
    decodeBody record.encodeBody = .ok record := by
  cases record with
  | insert table key value | update table key value =>
    have lengths : (utf8 table).length < 2 ^ 32 ∧ key.length < 2 ^ 32 ∧ value.length < 2 ^ 32 := by
      simp only [Fits, encodeBody, putBytes, TxnWal.maxBody, length_cons, length_append, littleEndian_length] at fits
      omega
    have last := takeBytes_putBytes lengths.2.2 []
    rw [append_nil] at last
    simp only [encodeBody, decodeBody, UInt8.toNat_ofNat, Nat.reduceMod, Nat.reducePow, bind, Except.bind,
      takeBytes_putBytes lengths.1, takeBytes_putBytes lengths.2.1, last, bytesToString_utf8]
    rfl
  | delete table key =>
    have lengths : (utf8 table).length < 2 ^ 32 ∧ key.length < 2 ^ 32 := by
      simp only [Fits, encodeBody, putBytes, TxnWal.maxBody, length_cons, length_append, littleEndian_length] at fits
      omega
    have last := takeBytes_putBytes lengths.2 []
    rw [append_nil] at last
    simp only [encodeBody, decodeBody, UInt8.toNat_ofNat, Nat.reduceMod, Nat.reducePow, bind, Except.bind,
      takeBytes_putBytes lengths.1, last, bytesToString_utf8]
    rfl
  | commit txnId =>
    have number : fromLittleEndian (littleEndian 8 txnId) = txnId := fromLittleEndian_of_lt fits
    simp [encodeBody, decodeBody, number]

theorem Fits.length {record : WalRecord} (fits : record.Fits) : record.encodeBody.length ≤ TxnWal.maxBody := by
  cases record with
  | commit txnId => simp [encodeBody, TxnWal.maxBody]
  | _ => exact fits

end WalRecord

namespace TxnWal

theorem encodeFramed_length (record : WalRecord) :
    (record.encodeFramed xxh3).length = 4 + record.encodeBody.length + 8 := by
  simp only [encodeFramed, length_append, littleEndian_length]
  omega

theorem scanRecords_framed {record : WalRecord} (fits : record.Fits) (rest : Bytes) (fuel : Nat) (scan : Scan) :
    scanRecords xxh3 (fuel + 1) (record.encodeFramed xxh3 ++ rest) scan =
      scanRecords xxh3 fuel rest (scan.add record record.encodeBody.length) := by
  have short := fits.length
  simp only [maxBody] at short
  rw [encodeFramed, append_assoc, append_assoc]
  conv_lhs => unfold scanRecords
  rw [if_neg (by simp), littleEndian_take, littleEndian_drop, fromLittleEndian_of_lt (by omega),
    if_neg (by simp only [maxBody]; omega), if_neg (by simp), take_left, drop_left, if_neg (by simp), littleEndian_take,
    littleEndian_drop, fromLittleEndian_of_lt (UInt64.toNat_lt _), if_neg (not_not.mpr rfl),
    decodeBody_encodeBody fits]

theorem Scan.add_commit_committed (scan : Scan) (txnId length : Nat) :
    (scan.add (.commit txnId) length).committed = scan.committed ++ [(txnId, scan.pending)] := rfl

theorem add_foldl_torn (records : List WalRecord) (scan : Scan) :
    (records.foldl (fun scan record => scan.add record record.encodeBody.length) scan).torn = scan.torn := by
  induction records generalizing scan with
  | nil => rfl
  | cons record records ih =>
    rw [foldl_cons, ih]
    cases record with
    | commit _ | insert _ _ _ | update _ _ _ | delete _ _ => rfl

theorem add_foldl_ops {ops : List WalRecord} (plain : ∀ op ∈ ops, ∀ txnId, op ≠ .commit txnId) (scan : Scan) :
    (ops.foldl (fun scan record => scan.add record record.encodeBody.length) scan).committed = scan.committed ∧
      (ops.foldl (fun scan record => scan.add record record.encodeBody.length) scan).pending = scan.pending ++ ops := by
  induction ops generalizing scan with
  | nil => simp
  | cons op ops ih =>
    obtain ⟨committed, pending⟩ := ih (fun other member => plain other (mem_cons_of_mem _ member))
      (scan.add op op.encodeBody.length)
    rw [foldl_cons, committed, pending]
    cases op with
    | commit txnId => exact absurd rfl (plain _ mem_cons_self txnId)
    | _ => simp [Scan.add]

def log (txns : List (Nat × List WalRecord)) : Bytes :=
  header ++ txns.flatMap (committedTxn xxh3)

def Readable (txns : List (Nat × List WalRecord)) : Prop :=
  ∀ txn ∈ txns, txn.1 < 2 ^ 64 ∧ ∀ op ∈ txn.2, op.Fits ∧ ∀ txnId, op ≠ .commit txnId

theorem add_foldl_txns {txns : List (Nat × List WalRecord)} (readable : Readable txns) (scan : Scan)
    (start : scan.pending = []) :
    ((txns.flatMap fun txn => txn.2 ++ [commit txn.1]).foldl
      (fun scan record => scan.add record record.encodeBody.length) scan).committed = scan.committed ++ txns := by
  induction txns generalizing scan with
  | nil => simp
  | cons txn txns ih =>
    obtain ⟨txnId, ops⟩ := txn
    obtain ⟨committed, pending⟩ := add_foldl_ops (fun op member => ((readable _ mem_cons_self).2 op member).2) scan
    simp only [flatMap_cons, foldl_append, foldl_cons, foldl_nil]
    rw [ih (fun other member => readable other (mem_cons_of_mem _ member)) _ rfl]
    rw [Scan.add_commit_committed, committed, pending, start, nil_append, append_assoc, singleton_append]

end TxnWal

end Takyonic
