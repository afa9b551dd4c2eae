import Std.Data.TreeMap.Lemmas
import Takyonic.Storage.Schema

namespace Takyonic

abbrev WriteOp := Key × Option Value

inductive TwopcState where
  | preparing
  | prepared
  | committed
  | aborted
  deriving DecidableEq, Repr

/-- The part of a distributed transaction destined for one shard. -/
structure ShardBranch where
  shardId : Nat
  writes : List WriteOp
  reads : List (Key × Nat)
  deriving DecidableEq, Repr

structure DistTxnRequest where
  readTs : Nat
  branches : List ShardBranch
  deriving DecidableEq, Repr

structure ShardParticipant (σ : Type) where
  prepare : σ → Nat → Nat → List WriteOp → List (Key × Nat) → σ × Except TakyonicError Unit
  commit : σ → Nat → Nat → σ × Except TakyonicError Unit
  abort : σ → Nat → σ × Except TakyonicError Unit
  orphanedPrepared : σ → List Nat

/-- The text of an error, as `to_string` gives it. -/
def TakyonicError.display (library : Library) : TakyonicError → String
  | raft message => s!"raft state-machine error: {message}"
  | notLeader none => "not leader (hint=None)"
  | notLeader (some address) =>
    let hint := library.debug address
    s!"not leader (hint=Some({hint}))"
  | integrity message => s!"integrity error: {message}"
  | engine message => s!"engine error: {message}"
  | compaction message => s!"compaction error: {message}"
  | admission message => s!"admission error: {message}"
  | conflict message => s!"transaction conflict: {message}"
  | network message => s!"network error: {message}"
  | sql message => s!"SQL error: {message}"
  | config message => s!"configuration error: {message}"
  | permissionDenied message => s!"permission denied: {message}"
  | io => "I/O error"

namespace Twopc

def lockWrites (txnId : Nat) (writes : List WriteOp) (locks : Key → Option Nat) : Key → Option Nat :=
  fun key => if key ∈ writes.map Prod.fst then some txnId else locks key

def unlockWrites (writes : List WriteOp) (locks : Key → Option Nat) : Key → Option Nat :=
  fun key => if key ∈ writes.map Prod.fst then none else locks key

def lockedBy (txnId : Nat) (writes : List WriteOp) (locks : Key → Option Nat) : Option Nat :=
  writes.findSome? fun op => (locks op.1).filter (· ≠ txnId)

def noteCommitted (writes : List WriteOp) (commitTs : Nat) (lastCommit : Key → Option Nat) : Key → Option Nat :=
  fun key => if key ∈ writes.map Prod.fst then some commitTs else lastCommit key

def firstStale (lastCommit : Key → Option Nat) (readTs : Nat) (keys : List Key) : Option (Key × Nat) :=
  keys.findSome? fun key => (lastCommit key).bind fun ts => if readTs < ts then some (key, ts) else none

/-- `occ_validate`, on the reads and then on the writes. -/
def occValidate (library : Library) (shardId : Nat) (lastCommit : Key → Option Nat) (readTs : Nat)
    (reads : List (Key × Nat)) (writes : List WriteOp) : Except TakyonicError Unit :=
  match firstStale lastCommit readTs (reads.map Prod.fst) with
  | some (key, ts) =>
    let text := library.debug (library.utf8Lossy key.bytes)
    .error (.conflict s!"shard {shardId}: key {text} committed at {ts} > read_ts {readTs}")
  | none =>
    match firstStale lastCommit readTs (writes.map Prod.fst) with
    | some (key, ts) =>
      let text := library.debug (library.utf8Lossy key.bytes)
      .error (.conflict s!"shard {shardId}: write key {text} committed at {ts} > read_ts {readTs}")
    | none => .ok ()

variable {lastCommit locks : Key → Option Nat} {readTs ts shardId txnId owner : Nat} {writes : List WriteOp}
  {op : WriteOp}

theorem firstStale_none {keys : List Key} (fresh : firstStale lastCommit readTs keys = none) {key : Key}
    (member : key ∈ keys) (last : lastCommit key = some ts) : ts ≤ readTs := by
  have here := List.findSome?_eq_none_iff.mp fresh key member
  rw [last] at here
  by_contra later
  simp [lt_of_not_ge later] at here

theorem occValidate_writes {library : Library} {reads : List (Key × Nat)}
    (valid : occValidate library shardId lastCommit readTs reads writes = .ok ()) (member : op ∈ writes)
    (last : lastCommit op.1 = some ts) : ts ≤ readTs := by
  unfold occValidate at valid
  split at valid
  · cases valid
  split at valid
  · cases valid
  · rename_i fresh
    exact firstStale_none fresh (List.mem_map_of_mem member) last

theorem lockedBy_none (free : lockedBy txnId writes locks = none)
    (member : op ∈ writes) (held : locks op.1 = some owner) : owner = txnId := by
  have here := List.findSome?_eq_none_iff.mp free op member
  rw [held, Option.filter_some] at here
  by_contra other
  simp [other] at here

end Twopc

structure TwopcTables where
  prepared : Std.TreeMap Nat (List WriteOp)
  locks : Key → Option Nat

namespace TwopcTables

open Twopc Std.TreeMap

def empty : TwopcTables := ⟨∅, fun _ => none⟩

section

variable (tables : TwopcTables)

def apply : RaftCommand → TwopcTables
  | .txnPrepare txnId _ ops => ⟨tables.prepared.insert txnId ops, lockWrites txnId ops tables.locks⟩
  | .txnCommit txnId _ ops => ⟨tables.prepared.erase txnId, unlockWrites ops tables.locks⟩
  | .txnAbort txnId =>
    match tables.prepared[txnId]? with
    | some writes => ⟨tables.prepared.erase txnId, unlockWrites writes tables.locks⟩
    | none => tables
  | _ => tables

theorem apply_txnPrepare (txnId readTs : Nat) (ops : List WriteOp) (id : Nat) :
    (tables.apply (.txnPrepare txnId readTs ops)).prepared[id]? =
      if id = txnId then some ops else tables.prepared[id]? := by
  simp only [apply, getElem?_insert, compare_eq_iff_eq, @eq_comm _ id txnId]

theorem apply_txnCommit (txnId commitTs : Nat) (ops : List WriteOp) (id : Nat) :
    (tables.apply (.txnCommit txnId commitTs ops)).prepared[id]? =
      if id = txnId then none else tables.prepared[id]? := by
  simp only [apply, getElem?_erase, compare_eq_iff_eq, @eq_comm _ id txnId]

theorem apply_txnAbort (txnId id : Nat) :
    (tables.apply (.txnAbort txnId)).prepared[id]? = if id = txnId then none else tables.prepared[id]? := by
  unfold apply
  dsimp only
  split
  · simp only [getElem?_erase, compare_eq_iff_eq, @eq_comm _ id txnId]
  rename_i absent
  split
  · rename_i same
    rw [same]
    exact absent
  · rfl

def Exclusive : Prop :=
  ∀ id writes, tables.prepared[id]? = some writes → ∀ op ∈ writes, tables.locks op.1 = some id

end

theorem empty_exclusive : empty.Exclusive := by
  intro id writes held
  cases (getElem?_emptyc (a := id)).symm.trans held

variable {tables : TwopcTables} {writes : List WriteOp} {txnId first second id owner : Nat} {others : List WriteOp}
  {op other : WriteOp}

section

variable (exclusive : tables.Exclusive)
include exclusive

theorem Exclusive.same (heldFirst : tables.prepared[first]? = some writes)
    (heldSecond : tables.prepared[second]? = some others) (member : op ∈ writes)
    (member' : other ∈ others) (same : op.1 = other.1) : first = second := by
  have lock := exclusive first writes heldFirst op member
  rw [same, exclusive second others heldSecond other member'] at lock
  exact (Option.some.inj lock).symm

theorem Exclusive.unlocked (held : tables.prepared[txnId]? = some writes) (other : id ≠ txnId)
    (heldOther : tables.prepared[id]? = some others) (member : op ∈ others) :
    unlockWrites writes tables.locks op.1 = some id := by
  unfold unlockWrites
  rw [if_neg, exclusive id others heldOther op member]
  intro inside
  obtain ⟨mine, inWrites, same⟩ := List.mem_map.mp inside
  exact other (exclusive.same heldOther held member inWrites same.symm)

theorem Exclusive.prepare (free : lockedBy txnId writes tables.locks = none) (readTs : Nat) :
    (tables.apply (.txnPrepare txnId readTs writes)).Exclusive := by
  intro id others held op member
  rw [apply_txnPrepare] at held
  change lockWrites txnId writes tables.locks op.1 = some id
  by_cases here : id = txnId
  · rw [if_pos here] at held
    cases held
    rw [here, lockWrites, if_pos (List.mem_map_of_mem member)]
  rw [if_neg here] at held
  have lock := exclusive id others held op member
  rw [lockWrites, if_neg, lock]
  intro inside
  obtain ⟨mine, inWrites, same⟩ := List.mem_map.mp inside
  exact here (lockedBy_none free inWrites (same ▸ lock))

theorem Exclusive.commit (held : tables.prepared[txnId]? = some writes) (commitTs : Nat) :
    (tables.apply (.txnCommit txnId commitTs writes)).Exclusive := by
  intro id others heldOther op member
  rw [apply_txnCommit] at heldOther
  by_cases here : id = txnId
  · rw [if_pos here] at heldOther
    cases heldOther
  · rw [if_neg here] at heldOther
    exact exclusive.unlocked held here heldOther member

theorem Exclusive.abort (txnId : Nat) : (tables.apply (.txnAbort txnId)).Exclusive := by
  intro id others heldOther op member
  rw [apply_txnAbort] at heldOther
  by_cases here : id = txnId
  · rw [if_pos here] at heldOther
    cases heldOther
  rw [if_neg here] at heldOther
  unfold apply
  dsimp only
  split
  · rename_i writes held
    exact exclusive.unlocked held here heldOther member
  · exact exclusive id others heldOther op member

end

def Tight (tables : TwopcTables) : Prop :=
  ∀ key owner, tables.locks key = some owner → ∃ writes, tables.prepared[owner]? = some writes ∧
    key ∈ writes.map Prod.fst

theorem empty_tight : empty.Tight := by
  intro key owner lock
  cases lock

theorem Tight.prepare (tight : tables.Tight) (first : tables.prepared[txnId]? = none) (readTs : Nat)
    (writes : List WriteOp) : (tables.apply (.txnPrepare txnId readTs writes)).Tight := by
  intro key owner lock
  rw [apply_txnPrepare]
  change lockWrites txnId writes tables.locks key = some owner at lock
  unfold lockWrites at lock
  split at lock
  · rename_i written
    cases lock
    exact ⟨writes, if_pos rfl, written⟩
  obtain ⟨others, held, written⟩ := tight key owner lock
  refine ⟨others, ?_, written⟩
  rw [if_neg, held]
  rintro rfl
  rw [first] at held
  cases held

section

variable (tight : tables.Tight) (own : ∀ others, tables.prepared[txnId]? = some others → others = writes)
include tight own

theorem Tight.unlock {key : Key} (lock : unlockWrites writes tables.locks key = some owner) :
    ∃ others, (if owner = txnId then none else tables.prepared[owner]?) = some others ∧ key ∈ others.map Prod.fst := by
  unfold unlockWrites at lock
  split at lock
  · cases lock
  rename_i unwritten
  obtain ⟨others, held, written⟩ := tight key owner lock
  refine ⟨others, ?_, written⟩
  rw [if_neg, held]
  rintro rfl
  exact unwritten (own others held ▸ written)

theorem Tight.commit (commitTs : Nat) : (tables.apply (.txnCommit txnId commitTs writes)).Tight := by
  intro key owner lock
  rw [apply_txnCommit]
  exact tight.unlock own lock

end

theorem Tight.abort (tight : tables.Tight) (txnId : Nat) : (tables.apply (.txnAbort txnId)).Tight := by
  intro key owner lock
  rw [apply_txnAbort]
  unfold apply at lock
  dsimp only at lock
  split at lock
  · rename_i writes held
    exact tight.unlock (fun others same => Option.some.inj (same.symm.trans held)) lock
  rename_i absent
  obtain ⟨others, held, written⟩ := tight key owner lock
  refine ⟨others, ?_, written⟩
  rw [if_neg, held]
  rintro rfl
  rw [absent] at held
  cases held

end TwopcTables

end Takyonic
