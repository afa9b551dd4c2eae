import Takyonic.Foundation.Bytes
import Takyonic.Foundation.Versions

namespace Takyonic

open Foundation OrderDual

/-- The error values the modelled paths return, with the texts of the source. -/
inductive TakyonicError where
  | raft (message : String)
  | notLeader (leaderAddress : Option String)
  | integrity (message : String)
  | engine (message : String)
  | compaction (message : String)
  | admission (message : String)
  | conflict (message : String)
  | network (message : String)
  | sql (message : String)
  | config (message : String)
  | permissionDenied (message : String)
  | io
  deriving DecidableEq, Repr

/-- Library functions that the model leaves open: the checksum, the lossy decoding of UTF-8, which is exact
    on what is UTF-8, and the debug form of a text. -/
structure Library where
  xxh3 : Bytes → UInt64
  utf8Lossy : Bytes → String
  debug : String → String
  exact : ∀ text, utf8Lossy (utf8 text) = text

def Library.plain : Library where
  xxh3 _ := 0
  utf8Lossy bytes := (String.fromUTF8? ⟨bytes.toArray⟩).getD ""
  debug text := text
  exact text := by rw [fromUTF8?_utf8, Option.getD_some]

structure Key where
  bytes : Bytes
  deriving DecidableEq, Repr

instance Key.linearOrder : LinearOrder Key :=
  LinearOrder.lift' (fun key : Key => key.bytes.map UInt8.toNat) (by
    rintro ⟨first⟩ ⟨second⟩ same
    have injective : Function.Injective UInt8.toNat := fun _ _ same => UInt8.toNat.inj same
    exact congrArg Key.mk (List.map_injective_iff.mpr injective same))

structure Value where
  bytes : Bytes
  deriving DecidableEq, Repr

/-- A put or a tombstone delete of `key` at commit timestamp `seq`. -/
structure Entry where
  key : Key
  value : Option Value
  seq : Nat
  tombstone : Bool
  deriving DecidableEq, Repr

def Entry.put (key : Key) (value : Value) (seq : Nat) : Entry := ⟨key, some value, seq, false⟩

def Entry.delete (key : Key) (seq : Nat) : Entry := ⟨key, none, seq, true⟩

def Entry.WellFormed (entry : Entry) : Prop := entry.tombstone = true ↔ entry.value = none

instance (entry : Entry) : Decidable entry.WellFormed := inferInstanceAs (Decidable (_ ↔ _))

def Entry.stamp : Stamp Entry Key := ⟨Entry.key, Entry.seq⟩

structure InternalKey where
  userKey : Key
  commitTs : Nat
  deriving DecidableEq, Repr

instance InternalKey.linearOrder : LinearOrder InternalKey :=
  LinearOrder.lift' (fun key : InternalKey => toLex (key.userKey, toDual key.commitTs)) (by
    rintro ⟨key, ts⟩ ⟨key', ts'⟩ same
    obtain ⟨rfl, rfl⟩ := Prod.mk.inj (toLex.injective same)
    rfl)

theorem InternalKey.lt_iff {first second : InternalKey} :
    first < second ↔ first.userKey < second.userKey ∨
      first.userKey = second.userKey ∧ second.commitTs < first.commitTs := by
  show toLex (first.userKey, toDual first.commitTs) < toLex (second.userKey, toDual second.commitTs) ↔ _
  rw [Prod.Lex.toLex_lt_toLex]
  simp

theorem InternalKey.le_iff {first second : InternalKey} :
    first ≤ second ↔ first.userKey < second.userKey ∨
      first.userKey = second.userKey ∧ second.commitTs ≤ first.commitTs := by
  show toLex (first.userKey, toDual first.commitTs) ≤ toLex (second.userKey, toDual second.commitTs) ↔ _
  rw [Prod.Lex.toLex_le_toLex]
  simp

def Entry.internalKey (entry : Entry) : InternalKey := ⟨entry.key, entry.seq⟩

theorem Entry.internalKey_lt {first second : Entry} : first.internalKey < second.internalKey ↔
    first.key < second.key ∨ first.key = second.key ∧ second.seq < first.seq := InternalKey.lt_iff

theorem Entry.le_internalKey {key : Key} {readTs : Nat} {entry : Entry} :
    (⟨key, readTs⟩ : InternalKey) ≤ entry.internalKey ↔ key < entry.key ∨ key = entry.key ∧ entry.seq ≤ readTs :=
  InternalKey.le_iff

theorem Entry.internalKey_inj {first second : Entry} : first.internalKey = second.internalKey ↔
    first.key = second.key ∧ first.seq = second.seq := InternalKey.mk.injEq .. ▸ Iff.rfl

theorem bind_eq_ok {α β : Type} {first : Except TakyonicError α} {next : α → Except TakyonicError β}
    {result : β} (bound : first >>= next = .ok result) :
    ∃ value, first = .ok value ∧ next value = .ok result := by
  cases first with
  | error error => cases bound
  | ok value => exact ⟨value, rfl, bound⟩

end Takyonic
