import Takyonic.Raft.Command

namespace Takyonic

open Foundation RaftCommand List

inductive StorageEngineKind where
  | lsm
  | bTree
  deriving DecidableEq, Repr

structure IndexDef where
  name : String
  column : String
  isVector : Bool
  deriving DecidableEq, Repr

inductive PartitioningStrategy where
  | none
  | hash (column : String) (bucketCount : Nat)
  | range (column : String) (bounds : List String)
  deriving DecidableEq, Repr

structure TableSchema where
  name : String
  primaryKey : String
  indexes : List IndexDef
  storageEngine : StorageEngineKind
  partitioning : PartitioningStrategy := .none
  /-- The node that owns each partition. -/
  partitionMap : List Nat := []
  deriving DecidableEq, Repr

namespace Schema

def dataPrefix : Bytes := [68, 97, 116, 97, 95]

def idxPrefix : Bytes := [73, 100, 120, 95]

def sep : UInt8 := 95

def stripPrefix (start bytes : Bytes) : Option Bytes :=
  if start.isPrefixOf bytes then some (bytes.drop start.length) else none

def tableFromUserKey (library : Library) (key : Key) : Option String :=
  match (stripPrefix dataPrefix key.bytes).orElse fun _ => stripPrefix idxPrefix key.bytes with
  | some rest => if sep ∈ rest then some (library.utf8Lossy (rest.takeWhile (· ≠ sep))) else none
  | none => none

def dataTablePrefix (table : String) : Bytes := dataPrefix ++ utf8 table ++ [sep]

def indexTablePrefix (table : String) : Bytes := idxPrefix ++ utf8 table ++ [sep]

def dataKey (table pk : String) : Key := ⟨dataTablePrefix table ++ utf8 pk⟩

def indexKey (table index value pk : String) : Key :=
  ⟨indexTablePrefix table ++ utf8 index ++ [sep] ++ utf8 value ++ [sep] ++ utf8 pk⟩

/-- `str::parse::<i64>` -/
def parseI64 (text : String) : Option Int :=
  let (negative, digits) := match text.toList with
    | '-' :: rest => (true, rest)
    | '+' :: rest => (false, rest)
    | rest => (false, rest)
  if digits = [] ∨ ¬ digits.all Char.isDigit then none
  else
    let magnitude : Int := digits.foldl (fun value digit => 10 * value + (digit.toNat - 48 : Nat)) 0
    let value := if negative then -magnitude else magnitude
    if -(2 ^ 63) ≤ value ∧ value < 2 ^ 63 then some value else none

def encodeSortableInt (value : Int) : String :=
  let digits := Nat.toDigits 10 (value + 2 ^ 63).toNat
  String.ofList (List.replicate (20 - digits.length) '0' ++ digits)

def indexStoreValue (raw : String) : String :=
  match parseI64 raw with
  | some value => encodeSortableInt value
  | none => raw

end Schema

/-- A record: field names with their values, ascending in the names. -/
structure Record where
  fields : List (String × String)
  deriving DecidableEq, Repr

namespace Record

def get (record : Record) (field : String) : Option String := record.fields.lookup field

def insertField (name value : String) : List (String × String) → List (String × String)
  | [] => [(name, value)]
  | (first, kept) :: rest =>
    if name < first then (name, value) :: (first, kept) :: rest
    else if name = first then (name, value) :: rest
    else (first, kept) :: insertField name value rest

def encodeText (text : String) : Bytes :=
  littleEndian 4 (utf8 text).length ++ utf8 text

def encode (record : Record) : Value :=
  ⟨littleEndian 4 record.fields.length ++ record.fields.flatMap fun (name, value) =>
    encodeText name ++ encodeText value⟩

def fromUtf8 (bytes : Bytes) (what : String) : Except TakyonicError String :=
  match String.fromUTF8? ⟨bytes.toArray⟩ with
  | some text => .ok text
  | none => .error (.engine what)

def decodeFields : Nat → Bytes → List (String × String) → Except TakyonicError (List (String × String))
  | 0, _, fields => .ok fields
  | count + 1, data, fields => do
    if data.length < 4 then throw (.engine "record key len truncated")
    let keyLen := fromLittleEndian (data.take 4)
    let data := data.drop 4
    if data.length < keyLen + 4 then throw (.engine "record key truncated")
    let key ← fromUtf8 (data.take keyLen) "record key utf8"
    let data := data.drop keyLen
    let valueLen := fromLittleEndian (data.take 4)
    let data := data.drop 4
    if data.length < valueLen then throw (.engine "record value truncated")
    let value ← fromUtf8 (data.take valueLen) "record value utf8"
    decodeFields count (data.drop valueLen) (insertField key value fields)

def decode (value : Value) : Except TakyonicError Record :=
  if value.bytes.length < 4 then .error (.engine "record truncated")
  else do
    let fields ← decodeFields (fromLittleEndian (value.bytes.take 4)) (value.bytes.drop 4) []
    pure ⟨fields⟩

/-- `&data[..count]` and `&data[count..]`: a count outside `data` panics. -/
def sliceAt (data : Bytes) (count : Nat) : ExceptT TakyonicError Option (Bytes × Bytes) :=
  if count ≤ data.length then pure (data.take count, data.drop count) else ExceptT.mk none

/-- `decodeFields` with every slice taken through its bounds check. -/
def decodeFieldsChecked : Nat → Bytes → List (String × String) → ExceptT TakyonicError Option (List (String × String))
  | 0, _, fields => pure fields
  | count + 1, data, fields => do
    if data.length < 4 then throw (.engine "record key len truncated")
    let (keyLen, data) ← sliceAt data 4
    if data.length < fromLittleEndian keyLen + 4 then throw (.engine "record key truncated")
    let (key, data) ← sliceAt data (fromLittleEndian keyLen)
    let key ← ExceptT.mk (some (fromUtf8 key "record key utf8"))
    let (valueLen, data) ← sliceAt data 4
    if data.length < fromLittleEndian valueLen then throw (.engine "record value truncated")
    let (value, data) ← sliceAt data (fromLittleEndian valueLen)
    let value ← ExceptT.mk (some (fromUtf8 value "record value utf8"))
    decodeFieldsChecked count data (insertField key value fields)

def decodeChecked (value : Value) : ExceptT TakyonicError Option Record := do
  if value.bytes.length < 4 then throw (.engine "record truncated")
  let (count, data) ← sliceAt value.bytes 4
  let fields ← decodeFieldsChecked (fromLittleEndian count) data []
  pure ⟨fields⟩

theorem sliceAt_bind {data : Bytes} {count : Nat} {next : Bytes × Bytes → ExceptT TakyonicError Option α}
    (inside : count ≤ data.length) : (sliceAt data count >>= next) = next (data.take count, data.drop count) := by
  rw [sliceAt, if_pos inside, pure_bind]

theorem returns_bind {result : Except ε α} {next : α → ExceptT ε Option β} {next' : α → Except ε β}
    (returns : ∀ read, next read = ExceptT.mk (some (next' read))) :
    (ExceptT.mk (some result) >>= next) = ExceptT.mk (some (result >>= next')) := by
  cases result with
  | error => rfl
  | ok read => exact returns read

theorem decodeFields_returns (count : Nat) (data : Bytes) (fields : List (String × String)) :
    decodeFieldsChecked count data fields = ExceptT.mk (some (decodeFields count data fields)) := by
  induction count generalizing data fields with
  | zero => rfl
  | succ count ih =>
    unfold decodeFieldsChecked decodeFields
    split
    · rfl
    rw [sliceAt_bind (by omega)]
    dsimp only
    split
    · rfl
    rw [sliceAt_bind (by omega)]
    refine returns_bind fun key => ?_
    -- the check of the key has covered the length of the value too
    rw [sliceAt_bind (by rw [length_drop]; omega)]
    split
    · rfl
    rw [sliceAt_bind (by omega)]
    exact returns_bind fun value => ih _ _

theorem decode_returns (value : Value) : decodeChecked value = ExceptT.mk (some (decode value)) := by
  unfold decodeChecked decode
  split
  · rfl
  rw [sliceAt_bind (by omega)]
  dsimp only
  rw [decodeFields_returns]
  exact returns_bind fun fields => rfl

theorem insertField_last {name : String} {fields : List (String × String)} (value : String)
    (below : ∀ field ∈ fields, field.1 < name) : insertField name value fields = fields ++ [(name, value)] := by
  induction fields with
  | nil => rfl
  | cons field rest ih =>
    have first := below field mem_cons_self
    have differ : name ≠ field.1 := fun same => String.lt_irrefl _ (same ▸ first)
    rw [insertField, if_neg (String.lt_asymm first), if_neg differ, ih fun other later => below other (.tail _ later)]
    rfl

theorem decodeFields_cons {name value : String} (nameFits : (utf8 name).length < 2 ^ 32)
    (valueFits : (utf8 value).length < 2 ^ 32) (count : Nat) (rest : Bytes) (fields : List (String × String)) :
    decodeFields (count + 1) (encodeText name ++ (encodeText value ++ rest)) fields =
      decodeFields count rest (insertField name value fields) := by
  have nameLen := @fromLittleEndian_of_lt 4 _ nameFits
  have valueLen := @fromLittleEndian_of_lt 4 _ valueFits
  conv_lhs => unfold decodeFields encodeText
  simp only [append_assoc, littleEndian_take, littleEndian_drop, nameLen, valueLen, take_left,
    drop_left, fromUtf8, fromUTF8?_utf8]
  rw [if_neg (by simp), if_neg (by simp)]
  exact if_neg (by simp)

theorem decodeFields_encode {before later : List (String × String)} (ascending : (before ++ later).Pairwise (·.1 < ·.1))
    (short : ∀ field ∈ later, (utf8 field.1).length < 2 ^ 32 ∧ (utf8 field.2).length < 2 ^ 32) (rest : Bytes) :
    decodeFields later.length
        (later.flatMap (fun (name, value) => encodeText name ++ encodeText value) ++ rest) before =
      .ok (before ++ later) := by
  induction later generalizing before with
  | nil => rw [append_nil]; rfl
  | cons field later ih =>
    obtain ⟨fits, short⟩ := forall_mem_cons.mp short
    have below := fun other earlier => (pairwise_append.mp ascending).2.2 other earlier field mem_cons_self
    rw [append_cons] at ascending
    rw [flatMap_cons, length_cons, append_assoc, append_assoc, decodeFields_cons fits.1 fits.2,
      insertField_last _ below, ih ascending short, append_assoc]
    rfl

theorem decode_inverts_record {record : Record} (ascending : record.fields.Pairwise (·.1 < ·.1))
    (few : record.fields.length < 2 ^ 32)
    (short : ∀ field ∈ record.fields, (utf8 field.1).length < 2 ^ 32 ∧ (utf8 field.2).length < 2 ^ 32) :
    decode record.encode = .ok record ∧ ∀ value, decodeChecked value = ExceptT.mk (some (decode value)) := by
  refine ⟨?_, decode_returns⟩
  have count := @fromLittleEndian_of_lt 4 _ few
  have fields := @decodeFields_encode [] record.fields ascending short []
  rw [append_nil] at fields
  unfold decode encode
  rw [littleEndian_take, littleEndian_drop, count, fields]
  rfl

theorem decode_inverts_record_two :
    decode (encode ⟨[("id", "7"), ("name", "")]⟩) = .ok ⟨[("id", "7"), ("name", "")]⟩ :=
  (decode_inverts_record (by decide) (by decide) (by decide)).1

end Record

/-! Rows as maps from names to texts. -/

open Record

namespace Record

def empty : Record := ⟨[]⟩

variable (record : Record)

def set (name value : String) : Record := ⟨insertField name value record.fields⟩

def Distinct : Prop := (record.fields.map Prod.fst).Nodup

theorem lookup_cons_ite (name value wanted : String) (fields : List (String × String)) :
    ((name, value) :: fields).lookup wanted = if wanted = name then some value else fields.lookup wanted := by
  by_cases here : wanted = name
  · simp [here]
  · rw [lookup_cons, beq_false_of_ne here, if_neg here]

theorem lookup_insertField (name value wanted : String) (fields : List (String × String)) :
    (insertField name value fields).lookup wanted = if wanted = name then some value else fields.lookup wanted := by
  induction fields with
  | nil => exact lookup_cons_ite name value wanted []
  | cons field rest ih =>
    obtain ⟨first, kept⟩ := field
    unfold insertField
    split
    · rw [lookup_cons_ite]
    · split
      · grind
      · grind

@[simp] theorem get_set (name value wanted : String) :
    (record.set name value).get wanted = if wanted = name then some value else record.get wanted :=
  lookup_insertField name value wanted record.fields

def setAll (fields : List (String × String)) : Record :=
  fields.foldl (fun out field => out.set field.1 field.2) record

theorem get_setAll (fields : List (String × String)) (distinct : (fields.map Prod.fst).Nodup) (record : Record)
    (wanted : String) : (record.setAll fields).get wanted = (fields.lookup wanted).or (record.get wanted) := by
  induction fields generalizing record with
  | nil => rfl
  | cons field rest ih =>
    obtain ⟨name, value⟩ := field
    rw [map_cons, nodup_cons] at distinct
    have later := ih distinct.2 (record.set name value)
    unfold setAll at later ⊢
    rw [foldl_cons, later, get_set, lookup_cons_ite]
    by_cases here : wanted = name
    · have absent : rest.lookup wanted = none := by
        apply lookup_eq_none_iff.mpr
        intro other member
        have differs : wanted ≠ other.1 := by
          intro same
          apply distinct.1
          exact mem_map.mpr ⟨other, member, same.symm.trans here⟩
        simpa using differs
      rw [if_pos here, absent, if_pos here]
      rfl
    · rw [if_neg here, if_neg here]

def Ascending (fields : List (String × String)) : Prop := fields.Pairwise fun field field' => field.1 < field'.1

theorem ascending_insertField {fields : List (String × String)} (ascending : Ascending fields) (name value : String) :
    Ascending (insertField name value fields) ∧
      ∀ field ∈ insertField name value fields, field.1 = name ∨ field ∈ fields := by
  induction fields with
  | nil => simp [insertField, Ascending]
  | cons field rest ih =>
    obtain ⟨first, kept⟩ := field
    obtain ⟨above, later⟩ := pairwise_cons.mp ascending
    obtain ⟨sorted, members⟩ := ih later
    unfold insertField
    split
    · rename_i below
      refine ⟨pairwise_cons.mpr ⟨?_, ascending⟩, by grind⟩
      intro other member
      rcases mem_cons.mp member with rfl | member
      · exact below
      · exact String.lt_trans below (above other member)
    · rename_i notBelow
      split
      · rename_i same
        subst same
        exact ⟨pairwise_cons.mpr ⟨above, later⟩, by grind⟩
      · rename_i differ
        refine ⟨pairwise_cons.mpr ⟨fun other member => ?_, sorted⟩, by grind⟩
        rcases members other member with same | member
        · rw [same]
          exact String.not_le.mp fun low => differ (String.le_antisymm low (String.not_lt.mp notBelow)) 
        · exact above other member

theorem ascending_setAll (fields : List (String × String)) {record : Record} (ascending : Ascending record.fields) :
    Ascending (record.setAll fields).fields := by
  induction fields generalizing record with
  | nil => exact ascending
  | cons field rest ih => exact ih (ascending_insertField ascending field.1 field.2).1

theorem lookup_of_above {name : String} {fields : List (String × String)} (above : ∀ field ∈ fields, name < field.1) :
    fields.lookup name = none :=
  lookup_eq_none_iff.mpr fun field member => by simpa using (String.ne_of_lt (above field member))

theorem eq_of_lookup {fields fields' : List (String × String)} (ascending : Ascending fields)
    (ascending' : Ascending fields') (same : ∀ name, fields.lookup name = fields'.lookup name) : fields = fields' := by
  induction fields generalizing fields' with
  | nil =>
    cases fields' with
    | nil => rfl
    | cons field _ =>
      obtain ⟨first, value⟩ := field
      simpa [lookup_cons_ite] using same first
  | cons field rest ih =>
    cases fields' with
    | nil => simpa using same field.1
    | cons field' rest' =>
      obtain ⟨first, value⟩ := field
      obtain ⟨first', value'⟩ := field'
      obtain ⟨above, later⟩ := pairwise_cons.mp ascending
      obtain ⟨above', later'⟩ := pairwise_cons.mp ascending'
      have here := same first
      have there := same first'
      simp only [lookup_cons_ite] at same here there
      have notBelow : ¬ first < first' := fun below => by
        have absent := lookup_of_above fun field member => String.lt_trans below (above' field member)
        simp [String.ne_of_lt below, absent] at here
      have notAbove : ¬ first' < first := fun below => by
        have absent := lookup_of_above fun field member => String.lt_trans below (above field member)
        simp [String.ne_of_lt below, absent] at there
      obtain rfl := String.le_antisymm (String.not_lt.mp notAbove) (String.not_lt.mp notBelow)
      obtain rfl : value = value' := by simpa using here
      rw [ih later later' fun name => ?_]
      by_cases own : name = first
      · rw [own, lookup_of_above above, lookup_of_above above']
      · simpa [own] using same name

end Record

end Takyonic
