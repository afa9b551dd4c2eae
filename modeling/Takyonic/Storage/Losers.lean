import Takyonic.Storage.TxnWal
import Takyonic.Storage.Wal

/-! The transaction log over generations that end in a crash, and what recovery takes from it. -/

namespace Takyonic

open Foundation List WalRecord

namespace TxnWal

variable (xxh3 : Bytes → UInt64) {piece : Bytes} {txns : List (Nat × List WalRecord)} {count : Nat}

def Torn (piece : Bytes) : Prop := piece.length < 4 + fromLittleEndian (piece.take 4) + 8

instance : Decidable (Torn piece) := inferInstanceAs (Decidable (_ < _))

def Scan.addAll (scan : Scan) (records : List WalRecord) : Scan :=
  records.foldl (fun scan record => scan.add record record.encodeBody.length) scan

open Scan

theorem scanRecords_torn {records : List WalRecord} (fits : ∀ record ∈ records, record.Fits)
    (torn : piece.length < 4 ∨ Torn piece) {fuel : Nat} (enough : records.length < fuel) (scan : Scan) :
    scanRecords xxh3 fuel (records.flatMap (encodeFramed xxh3) ++ piece) scan =
      .ok (if piece.length < 4 then scan.addAll records else { scan.addAll records with torn := true }) := by
  induction records generalizing fuel scan with
  | nil =>
    obtain ⟨fuel, rfl⟩ : ∃ n, fuel = n + 1 := ⟨fuel - 1, by simp at enough; omega⟩
    rw [flatMap_nil, nil_append]
    unfold scanRecords
    dsimp only
    split
    · rfl
    next long =>
    have short : piece.length < 4 + fromLittleEndian (piece.take 4) + 8 := torn.resolve_left long
    split
    · rfl
    split
    · rfl
    split
    · rfl
    · simp only [length_drop] at *
      omega
  | cons record records ih =>
    obtain ⟨fuel, rfl⟩ : ∃ n, fuel = n + 1 := ⟨fuel - 1, by simp at enough; omega⟩
    rw [flatMap_cons, append_assoc, scanRecords_framed xxh3 (fits record mem_cons_self)]
    exact ih (fun other member => fits other (mem_cons_of_mem _ member)) (by simpa using enough) _

theorem Scan.addAll_validEnd (records : List WalRecord) (scan : Scan) :
    (scan.addAll records).validEnd = scan.validEnd + (records.flatMap (encodeFramed xxh3)).length := by
  induction records generalizing scan with
  | nil => rfl
  | cons record records ih =>
    have one : (scan.add record record.encodeBody.length).validEnd =
        scan.validEnd + (record.encodeFramed xxh3).length := by
      rw [encodeFramed_length]
      cases record with
      | commit _ | insert _ _ _ | update _ _ _ | delete _ _ => simp only [add]; omega
    rw [addAll, foldl_cons, ← addAll, ih, one, flatMap_cons, length_append, Nat.add_assoc]

def recordsOf (txns : List (Nat × List WalRecord)) : List WalRecord :=
  txns.flatMap fun txn => txn.2 ++ [commit txn.1]

theorem flatMap_committedTxn (txns : List (Nat × List WalRecord)) :
    txns.flatMap (committedTxn xxh3) = (recordsOf txns).flatMap (encodeFramed xxh3) := by
  rw [recordsOf, flatMap_assoc]
  rfl

theorem Readable.fits (readable : Readable txns) : ∀ record ∈ recordsOf txns, record.Fits := by
  intro record member
  obtain ⟨txn, inTxns, inside⟩ := mem_flatMap.mp member
  rcases mem_append.mp inside with op | mark
  · exact ((readable txn inTxns).2 record op).1
  · rw [mem_singleton.mp mark]
    exact (readable txn inTxns).1

theorem recoverCommitted_header {rest : Bytes} {scan : Scan}
    (scanned : scanRecords xxh3 (rest.length + 1) rest ⟨[], [], 5, false⟩ = .ok scan) :
    recoverCommitted xxh3 (some (header ++ rest)) =
      .ok (scan.committed, some (if scan.torn then (header ++ rest).take scan.validEnd else header ++ rest)) := by
  have long : ¬ (header ++ rest).length < 4 := by simp [header, magic]
  unfold recoverCommitted
  dsimp only
  rw [if_neg long]
  simp only [header, magic, cons_append, nil_append, take_succ_cons, take_zero,
    drop_succ_cons, drop_zero, ne_eq, not_true_eq_false, if_false, scanned, bind, Except.bind]

theorem recoverCommitted_unfinished (readable : Readable txns) {ops : List WalRecord}
    (unfinished : ∀ op ∈ ops, op.Fits ∧ ∀ txnId, op ≠ .commit txnId) (torn : piece.length < 4 ∨ Torn piece) :
    recoverCommitted xxh3 (some (log xxh3 txns ++ (ops.flatMap (encodeFramed xxh3) ++ piece))) =
      .ok (txns, some (log xxh3 txns ++ (ops.flatMap (encodeFramed xxh3) ++
        if piece.length < 4 then piece else []))) := by
  have bytes (rest : Bytes) : log xxh3 txns ++ (ops.flatMap (encodeFramed xxh3) ++ rest) =
      header ++ ((recordsOf txns ++ ops).flatMap (encodeFramed xxh3) ++ rest) := by
    rw [log, flatMap_committedTxn, flatMap_append]
    simp only [append_assoc]
  have fits : ∀ record ∈ recordsOf txns ++ ops, record.Fits := by
    refine forall_mem_append.mpr ⟨readable.fits, fun record new => ?_⟩
    exact (unfinished record new).1
  have enough : (recordsOf txns ++ ops).length <
      ((recordsOf txns ++ ops).flatMap (encodeFramed xxh3) ++ piece).length + 1 := by
    apply Nat.lt_succ_of_le
    apply (length_le_flatMap (encodeFramed xxh3) (by simp [encodeFramed_length])).trans
    rw [length_append]
    exact Nat.le_add_right _ _
  have committed : (addAll ⟨[], [], 5, false⟩ (recordsOf txns ++ ops)).committed = txns := by
    rw [addAll, foldl_append, (add_foldl_ops (fun op member => (unfinished op member).2) _).1]
    exact add_foldl_txns readable ⟨[], [], 5, false⟩ rfl
  have validEnd : (addAll ⟨[], [], 5, false⟩ (recordsOf txns ++ ops)).validEnd =
      (header ++ (recordsOf txns ++ ops).flatMap (encodeFramed xxh3)).length := by
    rw [addAll_validEnd xxh3, length_append]
    rfl
  have whole : (addAll ⟨[], [], 5, false⟩ (recordsOf txns ++ ops)).torn = false := add_foldl_torn _ _
  rw [bytes, bytes, recoverCommitted_header xxh3 (scanRecords_torn xxh3 fits torn enough _)]
  split
  · rw [committed, whole, if_neg Bool.false_ne_true]
  · rw [if_pos rfl, committed, validEnd, ← append_assoc, take_left, append_nil]

theorem recoverCommitted_log (readable : Readable txns) :
    recoverCommitted xxh3 (some (log xxh3 txns)) = .ok (txns, some (log xxh3 txns)) := by
  have nothing : ∀ op ∈ ([] : List WalRecord), op.Fits ∧ ∀ txnId, op ≠ .commit txnId := nofun
  have torn : ([] : Bytes).length < 4 ∨ Torn [] := .inl (by decide)
  simpa using recoverCommitted_unfinished xxh3 readable nothing torn

/-- A generation: the transactions it appends, and how many of their bytes are in the file when it ends. -/
structure Generation where
  txns : List (Nat × List WalRecord)
  written : Nat
  deriving DecidableEq, Repr

open Generation

namespace Generation

def committed (generation : Generation) : List (Nat × List WalRecord) :=
  fitting (committedTxn xxh3) generation.written generation.txns

def unfinished (generation : Generation) : Bytes :=
  tornPiece (committedTxn xxh3) generation.written generation.txns

def run (file : Bytes) (generation : Generation) :
    Except TakyonicError (List (Nat × List WalRecord) × Bytes) := do
  let (batches, txnWal) ← recoverCommitted xxh3
    (some (file ++ (generation.txns.flatMap (committedTxn xxh3)).take generation.written))
  let ariesWal ← openLog (if batches.flatMap Prod.snd = [] then txnWal else some header)
  pure (batches, ariesWal)

/-- The crash leaves no operation and no part of a length field behind, unless the file is made anew. -/
def Clean (generation : Generation) : Prop :=
  (generation.committed xxh3).flatMap Prod.snd ≠ [] ∨ generation.unfinished xxh3 = [] ∨
    (4 ≤ (generation.unfinished xxh3).length ∧ Torn (generation.unfinished xxh3))

instance (generation : Generation) : Decidable (generation.Clean xxh3) :=
  inferInstanceAs (Decidable (_ ∨ _ ∨ _))

end Generation

theorem torn_take {record : WalRecord} (fits : record.Fits) (short : count < (record.encodeFramed xxh3).length) :
    ((record.encodeFramed xxh3).take count).length < 4 ∨ Torn ((record.encodeFramed xxh3).take count) := by
  have small := fits.length
  simp only [maxBody] at small
  exact frame_take (by omega) short

theorem committedTxn_take {txn : Nat × List WalRecord} (number : txn.1 < 2 ^ 64)
    (sound : ∀ op ∈ txn.2, op.Fits ∧ ∀ txnId, op ≠ .commit txnId) (short : count < (committedTxn xxh3 txn).length) :
    ∃ (ops : List WalRecord) (piece : Bytes),
      (committedTxn xxh3 txn).take count = ops.flatMap (encodeFramed xxh3) ++ piece ∧
      (∀ op ∈ ops, op.Fits ∧ ∀ txnId, op ≠ .commit txnId) ∧ (piece.length < 4 ∨ Torn piece) := by
  have inside := fitting_isPrefix (encodeFramed xxh3) count (txn.2 ++ [.commit txn.1])
  refine ⟨_, _, take_flatMap (encodeFramed xxh3) count _, ?_, ?_⟩
  · rcases prefix_concat_iff.mp inside with all | before
    · have fitted := (le_length_fitting (encodeFramed xxh3) count (txn.2 ++ [.commit txn.1])
        le_rfl).mp (le_of_eq (congrArg List.length all).symm)
      rw [take_length] at fitted
      exact absurd fitted (not_le_of_gt short)
    · exact fun op member => sound op (before.subset member)
  · rcases tornPiece_cases (encodeFramed xxh3) count (txn.2 ++ [.commit txn.1]) with
      none | ⟨next, member, room, less, piece⟩
    · rw [none]
      exact .inl (by decide)
    · rw [piece]
      apply torn_take xxh3 _ less
      rcases mem_append.mp member with op | mark
      · exact (sound next op).1
      · rw [mem_singleton.mp mark]
        exact number

namespace Generation

variable {generation : Generation} {quiet : List (Nat × List WalRecord)}

theorem readable_committed (readable : Readable generation.txns) : Readable (generation.committed xxh3) :=
  fun txn member => readable txn ((fitting_isPrefix _ _ _).subset member)

theorem unfinished_shape (readable : Readable generation.txns) :
    ∃ (ops : List WalRecord) (piece : Bytes), generation.unfinished xxh3 = ops.flatMap (encodeFramed xxh3) ++ piece ∧
      (∀ op ∈ ops, op.Fits ∧ ∀ txnId, op ≠ .commit txnId) ∧ (piece.length < 4 ∨ Torn piece) := by
  rcases tornPiece_cases (committedTxn xxh3) generation.written generation.txns with
    none | ⟨txn, member, count, short, cut⟩
  · exact ⟨[], [], none, nofun, .inl (by decide)⟩
  · obtain ⟨ops, piece, shape, sound, torn⟩ :=
      committedTxn_take xxh3 (readable txn member).1 (readable txn member).2 short
    exact ⟨ops, piece, cut.trans shape, sound, torn⟩

theorem file_shape (generation : Generation) (quiet : List (Nat × List WalRecord)) :
    log xxh3 quiet ++ (generation.txns.flatMap (committedTxn xxh3)).take generation.written =
      log xxh3 (quiet ++ generation.committed xxh3) ++ generation.unfinished xxh3 := by
  rw [take_flatMap, log, log, flatMap_append, append_assoc, append_assoc, append_assoc]
  rfl

theorem openLog_header (rest : Bytes) : openLog (some (header ++ rest)) = .ok (header ++ rest) := by
  have long : ¬ (header ++ rest).length < 4 := by simp [header, magic]
  unfold openLog
  dsimp only
  simp [header, magic, version]

section

variable (readable : Readable generation.txns) (quietReadable : Readable quiet)
  (silent : quiet.flatMap Prod.snd = [])
include readable quietReadable silent

theorem run_log (ops : List WalRecord) (piece : Bytes)
    (shape : generation.unfinished xxh3 = ops.flatMap (encodeFramed xxh3) ++ piece)
    (sound : ∀ op ∈ ops, op.Fits ∧ ∀ txnId, op ≠ .commit txnId) (torn : piece.length < 4 ∨ Torn piece) :
    generation.run xxh3 (log xxh3 quiet) = .ok (quiet ++ generation.committed xxh3,
      if (generation.committed xxh3).flatMap Prod.snd = [] then
        log xxh3 (quiet ++ generation.committed xxh3) ++ (ops.flatMap (encodeFramed xxh3) ++
          if piece.length < 4 then piece else [])
      else header) := by
  have both : Readable (quiet ++ generation.committed xxh3) := by
    exact forall_mem_append.mpr ⟨quietReadable, readable_committed xxh3 readable⟩
  have recovered := recoverCommitted_unfinished xxh3 both sound torn
  rw [← shape] at recovered
  rw [run, file_shape, recovered]
  dsimp only [bind, Except.bind]
  rw [flatMap_append, silent, nil_append]
  by_cases nothing : (generation.committed xxh3).flatMap Prod.snd = []
  · rw [if_pos nothing, if_pos nothing, log, append_assoc]
    rfl
  · rw [if_neg nothing, if_neg nothing]
    rfl

theorem run_recovers :
    ∃ batches file, generation.run xxh3 (log xxh3 quiet) = .ok (batches, file) ∧
      batches.flatMap Prod.snd = (generation.committed xxh3).flatMap Prod.snd ∧
      (generation.Clean xxh3 → ∃ after, file = log xxh3 after ∧ Readable after ∧ after.flatMap Prod.snd = []) := by
  obtain ⟨ops, piece, shape, sound, torn⟩ := unfinished_shape xxh3 readable
  have ran := run_log xxh3 readable quietReadable silent ops piece shape sound torn
  refine ⟨_, _, ran, by rw [flatMap_append, silent, nil_append], ?_⟩
  intro clean
  by_cases nothing : (generation.committed xxh3).flatMap Prod.snd = []
  · exists quiet ++ generation.committed xxh3
    have whole : generation.run xxh3 (log xxh3 quiet) = .ok (quiet ++ generation.committed xxh3,
        log xxh3 (quiet ++ generation.committed xxh3)) := by
      rcases clean with some | none | ⟨long, short⟩
      · exact absurd nothing some
      · rw [run_log xxh3 readable quietReadable silent [] [] none nofun (.inl (by decide)), if_pos nothing]
        simp
      · rw [run_log xxh3 readable quietReadable silent [] (generation.unfinished xxh3) rfl nofun (.inr short),
          if_pos nothing, if_neg (not_lt_of_ge long)]
        simp
    rw [ran] at whole
    refine ⟨(Prod.ext_iff.mp (Except.ok.inj whole)).2, ?_, ?_⟩
    · exact forall_mem_append.mpr ⟨quietReadable, readable_committed xxh3 readable⟩
    · rw [flatMap_append, silent, nothing, nil_append]
  · rw [if_neg nothing]
    exact ⟨[], by rw [log, flatMap_nil, append_nil], nofun, rfl⟩

end

theorem foldlM_run {generations : List Generation} (readable : ∀ generation ∈ generations, Readable generation.txns)
    (clean : ∀ generation ∈ generations, generation.Clean xxh3) (quietReadable : Readable quiet)
    (silent : quiet.flatMap Prod.snd = []) :
    ∃ after, generations.foldlM (fun file generation => Prod.snd <$> generation.run xxh3 file) (log xxh3 quiet) =
        .ok (log xxh3 after) ∧ Readable after ∧ after.flatMap Prod.snd = [] := by
  induction generations generalizing quiet with
  | nil => exact ⟨quiet, rfl, quietReadable, silent⟩
  | cons generation later ih =>
    obtain ⟨batches, file, ran, _, left⟩ := run_recovers xxh3 (readable generation mem_cons_self) quietReadable silent
    obtain ⟨after, rfl, afterReadable, afterSilent⟩ := left (clean generation mem_cons_self)
    rw [foldlM_cons, ran]
    exact ih (fun other member => readable other (mem_cons_of_mem _ member))
      (fun other member => clean other (mem_cons_of_mem _ member)) afterReadable afterSilent

end Generation

/-- However a generation ends, recovery returns the operations of the transactions it has committed, and no others,
    if the generations before it ended cleanly. -/
theorem losers_never_redone (generations : List Generation) (last : Generation)
    (readable : ∀ generation ∈ generations ++ [last], Readable generation.txns)
    (clean : ∀ generation ∈ generations, generation.Clean xxh3) :
    ∃ file batches next,
      generations.foldlM (fun file generation => Prod.snd <$> generation.run xxh3 file) header = .ok file ∧
        last.run xxh3 file = .ok (batches, next) ∧
        batches.flatMap Prod.snd = (last.committed xxh3).flatMap Prod.snd := by
  have fresh : header = log xxh3 [] := by rw [log, flatMap_nil, append_nil]
  obtain ⟨quiet, before, quietReadable, silent⟩ := foldlM_run xxh3
    (fun generation member => readable generation (mem_append_left _ member)) clean
    (show Readable [] from nofun) rfl
  obtain ⟨batches, next, ran, recovered, _⟩ := run_recovers xxh3
    (readable last (mem_append_right _ mem_cons_self)) quietReadable silent
  exact ⟨_, batches, next, before, ran, recovered⟩

theorem losers_never_redone_two :
    ∃ file batches next,
      [(⟨[(1, [.insert "t" [97] [49]])], 10⟩ : Generation)].foldlM
          (fun file generation => Prod.snd <$> generation.run (fun _ => 7) file) header = .ok file ∧
        run (fun _ => 7) file ⟨[(2, [.insert "t" [98] [50]])], 100⟩ = .ok (batches, next) ∧
        batches.flatMap Prod.snd = [.insert "t" [98] [50]] := by
  obtain ⟨file, batches, next, before, ran, recovered⟩ := losers_never_redone (fun _ => 7)
    [⟨[(1, [.insert "t" [97] [49]])], 10⟩] ⟨[(2, [.insert "t" [98] [50]])], 100⟩
    (by simp [Readable, Fits, encodeBody, putBytes, maxBody]; decide) (by decide)
  exact ⟨file, batches, next, before, ran, recovered.trans (by decide)⟩

/-- The first transaction writes its operation and crashes before its commit record; the commit of the second one
    adopts the operation. -/
theorem loser_redone :
    (do
      let (_, file) ← run (fun _ => 7) header ⟨[(1, [.insert "t" [97] [49]])], 28⟩
      let (batches, _) ← run (fun _ => 7) file ⟨[(2, [.insert "t" [98] [50]])], 100⟩
      pure batches) = .ok [(2, [.insert "t" [97] [49], .insert "t" [98] [50]])] := by
  decide +kernel

end TxnWal

end Takyonic
