import Takyonic.Storage.FlusherLoop

/-! What a write that failed half way leaves in the segment, and what is written behind it. -/

namespace Takyonic

open Foundation List FlusherMsg Wal WalReader List.Sublist

namespace GroupCommitWal

structure Round where
  batch : List (Entry × Nat)
  outcome : FlushOutcome
  deriving DecidableEq

variable (xxh3 : Bytes → UInt64) {first : FlusherMsg} {rest : List FlusherMsg}

namespace Round

def entries (round : Round) : List Entry := round.batch.map Prod.fst

def acknowledged (round : Round) : List Entry :=
  match round.outcome with
  | .synced => round.entries
  | .failed _ _ => []

def written (round : Round) : Bytes :=
  match round.outcome with
  | .synced => round.entries.flatMap (encodeRecord xxh3)
  | .failed count _ => (round.entries.flatMap (encodeRecord xxh3)).take count

def piece (round : Round) : Bytes :=
  match round.outcome with
  | .synced => []
  | .failed count _ => tornPiece (encodeRecord xxh3) count round.entries

def Whole (round : Round) : Prop :=
  ∃ count, round.written xxh3 = (round.entries.take count).flatMap (encodeRecord xxh3)

end Round

def flushRound (state : FlusherState) (round : Round) : FlusherState := flush xxh3 round.outcome round.batch state

/-- Behind a part of a record nothing is acknowledged, and the bytes from there on are too few for the record that
    they announce. -/
def Harmless : List Round → Prop
  | [] => True
  | round :: rest =>
    (round.Whole xxh3 ∧ Harmless rest) ∨
      ((∀ later ∈ rest, later.acknowledged = []) ∧
        Torn (round.piece xxh3 ++ rest.flatMap (Round.written xxh3)))

def rounds : List Turn → List FlusherMsg → List Round
  | [], _ => []
  | _ :: turns, [] => rounds turns []
  | turn :: turns, first :: channel =>
    let (gathered, channel) := drain turn.available channel (Gathered.receive ⟨[], none, false⟩ first)
    ⟨gathered.batch, turn.outcome⟩ :: if gathered.shutdown then [] else rounds turns channel

theorem flushRound_wal (state : FlusherState) (round : Round) :
    (flushRound xxh3 state round).wal = state.wal ++ round.written xxh3 := by
  obtain ⟨batch, outcome⟩ := round
  unfold flushRound flush Round.written Round.entries
  split
  · next none =>
    subst none
    cases outcome with
    | synced | failed _ _ => simp
  · cases outcome with
    | synced | failed _ _ => rfl

theorem foldl_flushRound_wal (history : List Round) (state : FlusherState) :
    (history.foldl (flushRound xxh3) state).wal = state.wal ++ history.flatMap (Round.written xxh3) := by
  induction history generalizing state with
  | nil => simp
  | cons round rest ih => rw [foldl_cons, ih, flushRound_wal, flatMap_cons, append_assoc]

theorem Round.written_shape (round : Round) (storable : ∀ entry ∈ round.entries, Storable entry) :
    ∃ kept, round.written xxh3 = kept.flatMap (encodeRecord xxh3) ++ round.piece xxh3 ∧
      (∀ entry ∈ kept, Storable entry) ∧ Sublist round.acknowledged kept := by
  unfold Round.written Round.acknowledged Round.piece
  split
  · exact ⟨round.entries, by rw [append_nil], storable, refl _⟩
  · next count _ _ =>
    refine ⟨fitting (encodeRecord xxh3) count round.entries, take_flatMap _ _ _, ?_, nil_sublist _⟩
    intro entry member
    exact storable entry ((fitting_isPrefix _ _ _).subset member)

theorem Round.Whole.written_shape {round : Round} (whole : round.Whole xxh3)
    (storable : ∀ entry ∈ round.entries, Storable entry) :
    ∃ kept, round.written xxh3 = kept.flatMap (encodeRecord xxh3) ∧
      (∀ entry ∈ kept, Storable entry) ∧ Sublist round.acknowledged kept := by
  obtain ⟨count, written⟩ := whole
  unfold Round.acknowledged
  split
  · next synced =>
    refine ⟨round.entries, ?_, storable, refl _⟩
    rw [Round.written, synced]
  · exact ⟨round.entries.take count, written, fun entry member => storable entry (mem_of_mem_take member),
      nil_sublist _⟩

theorem Harmless.shape {history : List Round} (harmless : Harmless xxh3 history)
    (storable : ∀ round ∈ history, ∀ entry ∈ round.entries, Storable entry) :
    ∃ kept piece, history.flatMap (Round.written xxh3) = kept.flatMap (encodeRecord xxh3) ++ piece ∧
      (∀ entry ∈ kept, Storable entry) ∧ Torn piece ∧
      Sublist (history.flatMap Round.acknowledged) kept := by
  induction history with
  | nil => exact ⟨[], [], rfl, nofun, torn_nil, refl _⟩
  | cons round rest ih =>
    have first := storable round mem_cons_self
    rcases harmless with ⟨whole, harmless⟩ | ⟨silent, torn⟩
    · obtain ⟨records, written, sound, included⟩ := whole.written_shape xxh3 first
      obtain ⟨kept, piece, shape, keptSound, torn, keptIncluded⟩ := ih harmless fun other member =>
        storable other (mem_cons_of_mem _ member)
      refine ⟨records ++ kept, piece, ?_, ?_, torn, ?_⟩
      · rw [flatMap_cons, written, shape, flatMap_append, append_assoc]
      · exact forall_mem_append.mpr ⟨sound, keptSound⟩
      · exact included.append keptIncluded
    · have unacknowledged : rest.flatMap Round.acknowledged = [] := flatMap_eq_nil_iff.mpr silent
      obtain ⟨kept, shape, sound, included⟩ := round.written_shape xxh3 first
      refine ⟨kept, _, ?_, sound, torn, ?_⟩
      · rw [flatMap_cons, shape, append_assoc]
      · rwa [flatMap_cons, unacknowledged, append_nil]

theorem drain_appends (appends : ∀ message ∈ first :: rest, message.isAppend = true) (available : Nat) :
    ∃ taken channel, first :: rest = first :: taken ++ channel ∧
      drain available rest (Gathered.receive ⟨[], none, false⟩ first) =
        (⟨(first :: taken).flatMap batch, none, false⟩, channel) := by
  obtain ⟨taken, split, gathers⟩ := drain_gathers (Gathers.first first) available rest
  exists taken, (drain available rest (Gathered.receive ⟨[], none, false⟩ first)).2
  apply And.intro (congrArg (first :: ·) split)
  have plain : ∀ message ∈ first :: taken, message.isAppend = true := by
    intro message member
    apply appends message
    rw [split]
    exact mem_append_left _ member
  rw [singleton_append] at gathers
  apply Prod.ext
  · generalize (drain available rest (Gathered.receive ⟨[], none, false⟩ first)).1 = gathered at gathers
    generalize first :: taken = messages at gathers plain
    cases gathers with
    | appends _ => rfl
    | rotate _ notify => cases plain (.rotate notify) (by simp)
    | shutdown _ => cases plain .shutdown (by simp)
  · rfl

theorem flushRound_stopped (state : FlusherState) (round : Round) :
    (flushRound xxh3 state round).stopped = state.stopped := by
  obtain ⟨batch, outcome⟩ := round
  unfold flushRound flush
  split
  · rfl
  · cases outcome with
    | synced | failed _ _ => rfl

theorem rounds_appends
    (appends : ∀ message ∈ first :: rest, message.isAppend = true) (turn : Turn) (turns : List Turn) :
    ∃ taken channel, first :: rest = first :: taken ++ channel ∧
      rounds (turn :: turns) (first :: rest) = ⟨(first :: taken).flatMap batch, turn.outcome⟩ :: rounds turns channel ∧
      ∀ xxh3 state, state.stopped = false → round xxh3 turn (first :: rest) state =
        (channel, flushRound xxh3 state ⟨(first :: taken).flatMap batch, turn.outcome⟩) := by
  obtain ⟨taken, channel, split, drained⟩ := drain_appends appends turn.available
  refine ⟨taken, channel, split, ?_, ?_⟩
  · rw [rounds, drained]
    rfl
  · intro xxh3 state active
    have kept := flushRound_stopped xxh3 state ⟨(first :: taken).flatMap batch, turn.outcome⟩
    rw [active] at kept
    rw [round, drained]
    rw [← kept]
    rfl

theorem rounds_nil (turns : List Turn) : rounds turns [] = [] := by
  induction turns with
  | nil => rfl
  | cons turn turns ih => exact ih

variable {messages : List FlusherMsg} {message : FlusherMsg}

theorem flusherLoop_rounds (turns : List Turn) (appends : ∀ message ∈ messages, message.isAppend = true)
    {state : FlusherState} (active : state.stopped = false) :
    (flusherLoop xxh3 turns messages state).2 = (rounds turns messages).foldl (flushRound xxh3) state := by
  induction turns generalizing messages state with
  | nil => rfl
  | cons turn turns ih =>
    rw [flusherLoop, active]
    cases messages with
    | nil => exact ih appends active
    | cons first rest =>
      obtain ⟨taken, channel, split, cut, turned⟩ := rounds_appends appends turn turns
      rw [turned xxh3 state active, cut]
      apply ih
      · intro message member
        apply appends message
        rw [split]
        exact mem_append_right _ member
      · rw [flushRound_stopped, active]

theorem completed_mem_foldl (history : List Round) (state : FlusherState) (notify : Nat) :
    .completed notify (.ok ()) ∈ (history.foldl (flushRound xxh3) state).events ↔
      .completed notify (.ok ()) ∈ state.events ∨
        ∃ round ∈ history, round.outcome = .synced ∧ ∃ entry, (entry, notify) ∈ round.batch := by
  induction history generalizing state with
  | nil => simp
  | cons round rest ih =>
    have one : .completed notify (.ok ()) ∈ (flushRound xxh3 state round).events ↔
        .completed notify (.ok ()) ∈ state.events ∨
          (round.outcome = .synced ∧ ∃ entry, (entry, notify) ∈ round.batch) := by
      obtain ⟨batch, outcome⟩ := round
      unfold flushRound
      cases outcome with
      | synced => simp [flush_synced, completed_mem_batchEvents]
      | failed written reason =>
        unfold flush
        split
        · simp
        · simp
    rw [foldl_cons, ih, one]
    simp only [mem_cons, exists_eq_or_imp, or_assoc]

def answered (events : List FlusherEvent) (message : FlusherMsg) : Bool :=
  message.waiter.any fun notify => decide (.completed notify (.ok ()) ∈ events)

theorem answered_foldl {history : List Round} :
    answered (history.foldl (flushRound xxh3) start).events message = true ↔
      ∃ notify ∈ message.waiter, ∃ round ∈ history, round.outcome = .synced ∧
        ∃ entry, (entry, notify) ∈ round.batch := by
  simp only [answered, Option.any_eq_true, decide_eq_true_eq, completed_mem_foldl]
  simp [start]

theorem waiter_of_mem_batch {entry : Entry} {notify : Nat}
    (member : (entry, notify) ∈ message.batch) : notify ∈ message.waiter := by
  cases message with
  | append _ _ =>
    cases mem_singleton.mp member
    rfl
  | appendBatch entries _ _ =>
    obtain ⟨_, _, same⟩ := mem_map.mp member
    cases same
    rfl
  | rotate _ | shutdown => cases member

section

variable (turns : List Turn) (appends : ∀ message ∈ messages, message.isAppend = true)
include turns appends

theorem mem_rounds {round : Round} (formed : round ∈ rounds turns messages) {item : Entry × Nat}
    (member : item ∈ round.batch) : ∃ message ∈ messages, item ∈ message.batch := by
  induction turns generalizing messages with
  | nil => cases formed
  | cons turn turns ih =>
    cases messages with
    | nil => exact @ih [] nofun formed
    | cons first rest =>
      obtain ⟨taken, channel, split, cut, _⟩ := rounds_appends appends turn turns
      rw [cut] at formed
      rw [split] at appends ⊢
      rcases mem_cons.mp formed with rfl | later
      · obtain ⟨message, inTaken, inBatch⟩ := mem_flatMap.mp member
        exact ⟨message, mem_append_left _ inTaken, inBatch⟩
      · obtain ⟨message, inChannel, inBatch⟩ := ih (fun other inside => appends other (mem_append_right _ inside)) later
        exact ⟨message, mem_append_right _ inChannel, inBatch⟩

theorem answered_entries (distinct : (messages.map waiter).Nodup) :
    (messages.filter (answered ((rounds turns messages).foldl (flushRound xxh3) start).events)).flatMap
      entries = (rounds turns messages).flatMap Round.acknowledged := by
  induction turns generalizing messages with
  | nil =>
    have nobody : messages.filter (answered start.events) = [] := by
      apply filter_eq_nil_iff.mpr
      simp [answered, start]
    exact congrArg (flatMap entries) nobody
  | cons turn turns ih =>
    cases messages with
    | nil => rw [rounds_nil]; rfl
    | cons first rest =>
      obtain ⟨taken, channel, split, cut, _⟩ := rounds_appends appends turn turns
      rw [cut]
      rw [split] at appends distinct ⊢
      generalize first :: taken = stretch at appends distinct
      rw [map_append] at distinct
      have later := fun other inside => appends other (mem_append_right stretch inside)
      have apart : ∀ message ∈ stretch, ∀ other ∈ channel, ∀ notify, notify ∈ message.waiter →
          notify ∉ other.waiter := by
        intro message inside other outside notify waiter same
        apply (nodup_append.mp distinct).2.2 _ (mem_map_of_mem inside) _ (mem_map_of_mem outside)
        rw [Option.mem_def.mp waiter, Option.mem_def.mp same]
      have here : ∀ message ∈ stretch,
          answered (((⟨stretch.flatMap batch, turn.outcome⟩ :: rounds turns channel).foldl
            (flushRound xxh3) start).events) message = decide (turn.outcome = .synced) := by
        intro message inside
        rw [Bool.eq_iff_iff, answered_foldl, decide_eq_true_eq]
        constructor
        · rintro ⟨notify, waiter, round, formed, synced, entry, member⟩
          rcases mem_cons.mp formed with rfl | formed
          · exact synced
          · obtain ⟨other, outside, inBatch⟩ := mem_rounds turns later formed member
            exact absurd (waiter_of_mem_batch inBatch) (apart message inside other outside notify waiter)
        · intro synced
          have isAppend := appends message (mem_append_left _ inside)
          obtain ⟨notify, waiter⟩ : ∃ notify, notify ∈ message.waiter := by
            cases message with
            | append _ notify | appendBatch _ _ notify => exact ⟨notify, rfl⟩
            | rotate _ | shutdown => cases isAppend
          obtain ⟨entry, member⟩ := waiter_mem_batch isAppend waiter
          exact ⟨notify, waiter, _, mem_cons_self, synced, entry, mem_flatMap.mpr ⟨message, inside, member⟩⟩
      have there : ∀ message ∈ channel,
          answered (((⟨stretch.flatMap batch, turn.outcome⟩ :: rounds turns channel).foldl
            (flushRound xxh3) start).events) message =
            answered ((rounds turns channel).foldl (flushRound xxh3) start).events message := by
        intro message outside
        rw [Bool.eq_iff_iff, answered_foldl, answered_foldl]
        constructor
        · rintro ⟨notify, waiter, round, formed, synced, entry, member⟩
          rcases mem_cons.mp formed with rfl | formed
          · obtain ⟨other, inside, inBatch⟩ := mem_flatMap.mp member
            exact absurd waiter (apart other inside message outside notify (waiter_of_mem_batch inBatch))
          · exact ⟨notify, waiter, round, formed, synced, entry, member⟩
        · rintro ⟨notify, waiter, round, formed, found⟩
          exact ⟨notify, waiter, round, mem_cons_of_mem _ formed, found⟩
      rw [filter_append, filter_congr here, filter_congr there, flatMap_append,
        ih later (nodup_append.mp distinct).2.1]
      apply congrArg (· ++ _)
      cases outcome : turn.outcome with
      | synced => simp [Round.acknowledged, Round.entries, batch_fst]
      | failed _ _ => simp [Round.acknowledged]

end

/-- Every entry whose submit returns Ok is replayed, in order, if failed writes are harmless and no record is above
    the cap of the reader. -/
theorem acknowledged_replayed (path : String) (turns : List Turn) {messages : List FlusherMsg}
    (appends : ∀ message ∈ messages, message.isAppend = true) (distinct : (messages.map waiter).Nodup)
    (harmless : Harmless xxh3 (rounds turns messages))
    (storable : ∀ message ∈ messages, ∀ entry ∈ message.entries, Storable entry) :
    let state := (flusherLoop xxh3 turns messages start).2
    ∃ reader replayed, openSegment path state.wal = .ok reader ∧
      (reader.replay xxh3).2 = (replayed, .ok replayed.length) ∧
      Sublist ((messages.filter (answered state.events)).flatMap entries) replayed := by
  have sound : ∀ round ∈ rounds turns messages, ∀ entry ∈ round.entries, Storable entry := by
    intro round formed entry member
    obtain ⟨item, inBatch, rfl⟩ := mem_map.mp member
    obtain ⟨message, inside, inMessage⟩ := mem_rounds turns appends formed inBatch
    exact storable message inside item.1 (mem_map_of_mem inMessage)
  obtain ⟨kept, piece, shape, whole, torn, included⟩ := harmless.shape xxh3 sound
  obtain ⟨reader, opened, replayed, _⟩ := replay_torn xxh3 path whole torn
  have file : (flusherLoop xxh3 turns messages start).2.wal = segment xxh3 kept ++ piece := by
    rw [flusherLoop_rounds xxh3 turns appends rfl, foldl_flushRound_wal, shape, Wal.segment]
    rfl
  refine ⟨reader, kept, by rw [file, opened], replayed, ?_⟩
  rwa [flusherLoop_rounds xxh3 turns appends rfl, answered_entries xxh3 turns appends distinct]

theorem acknowledged_replayed_retry :
    let state := (flusherLoop (fun _ => 7) [⟨0, .failed 0 "full"⟩, ⟨0, .synced⟩]
      [.append (.put ⟨[97]⟩ ⟨[49]⟩ 1) 1, .append (.put ⟨[98]⟩ ⟨[50]⟩ 2) 2] start).2
    ∃ reader replayed, openSegment "000001.wal" state.wal = .ok reader ∧
      (reader.replay fun _ => 7).2 = (replayed, .ok replayed.length) ∧
      Sublist (([.append (.put ⟨[97]⟩ ⟨[49]⟩ 1) 1, .append (.put ⟨[98]⟩ ⟨[50]⟩ 2) 2].filter
        (answered state.events)).flatMap entries) replayed :=
  acknowledged_replayed (fun _ => 7) "000001.wal" [⟨0, .failed 0 "full"⟩, ⟨0, .synced⟩] (by decide) (by decide)
    (.inl ⟨⟨0, rfl⟩, .inl ⟨⟨1, rfl⟩, trivial⟩⟩) (by decide)

/-- Three bytes of a failed record are taken for a part of the length of the record that is acknowledged after it. -/
theorem acknowledged_lost :
    let state := (flusherLoop (fun _ => 7) [⟨0, .failed 3 "full"⟩, ⟨0, .synced⟩]
      [.append (.put ⟨[97]⟩ ⟨[49]⟩ 1) 1, .append (.put ⟨[98]⟩ ⟨[50]⟩ 2) 2] start).2
    .completed 2 (.ok ()) ∈ state.events ∧
      ∃ reader, openSegment "000001.wal" state.wal = .ok reader ∧ (reader.replay fun _ => 7).2 = ([], .ok 0) :=
  ⟨by simp [flusherLoop, round, drain, Gathered.receive, flush, rotate, batch, start], _, rfl, rfl⟩

end GroupCommitWal

end Takyonic
