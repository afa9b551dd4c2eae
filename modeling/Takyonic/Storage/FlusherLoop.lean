import Takyonic.Storage.Wal

/-! The thread of a group-commit log: it gathers what it finds in its channel into one batch, makes the batch
durable, applies it and releases the waiters. -/

namespace Takyonic

open Foundation List Wal

/-- A message in the channel; `notify` names the waiter. `submit_batch` sends no empty batch. -/
inductive FlusherMsg where
  | append (entry : Entry) (notify : Nat)
  | appendBatch (entries : List Entry) (nonempty : entries ≠ []) (notify : Nat)
  | rotate (notify : Nat)
  | shutdown

open FlusherMsg

namespace FlusherMsg

def batch : FlusherMsg → List (Entry × Nat)
  | append entry notify => [(entry, notify)]
  | appendBatch entries _ notify => entries.map fun entry => (entry, notify)
  | rotate _ | shutdown => []

def entries (message : FlusherMsg) : List Entry := message.batch.map Prod.fst

def waiter : FlusherMsg → Option Nat
  | append _ notify | appendBatch _ _ notify | rotate notify => some notify
  | shutdown => none

def isAppend : FlusherMsg → Bool
  | append _ _ | appendBatch _ _ _ => true
  | rotate _ | shutdown => false

end FlusherMsg

namespace GroupCommitWal

structure Gathered where
  batch : List (Entry × Nat)
  rotate : Option Nat
  shutdown : Bool
  deriving DecidableEq

def Gathered.receive (gathered : Gathered) : FlusherMsg → Gathered
  | .rotate notify => { gathered with rotate := some notify }
  | .shutdown => { gathered with shutdown := true }
  | message => { gathered with batch := gathered.batch ++ message.batch }

/-- The `try_recv` loop, when it finds `available` more messages. -/
def drain : Nat → List FlusherMsg → Gathered → Gathered × List FlusherMsg
  | 0, channel, gathered => (gathered, channel)
  | _ + 1, [], gathered => (gathered, [])
  | available + 1, message :: channel, gathered =>
    if gathered.rotate.isSome || gathered.shutdown then (gathered, message :: channel)
    else drain available channel (gathered.receive message)

inductive FlushOutcome where
  | synced
  | failed (written : Nat) (reason : String)
  deriving DecidableEq, Repr

inductive FlusherEvent where
  | durable (entry : Entry)
  | applied (entry : Entry)
  | completed (notify : Nat) (result : Except TakyonicError Unit)
  deriving DecidableEq

open FlusherEvent

/-- The segments that were rotated out, the one being written, and what has happened so far. -/
structure FlusherState where
  older : List Bytes
  wal : Bytes
  events : List FlusherEvent
  stopped : Bool

def start : FlusherState := ⟨[], header, [], false⟩

variable (xxh3 : Bytes → UInt64) {messages done : List FlusherMsg} {state : FlusherState} {notify : Nat}

def flush (outcome : FlushOutcome) (batch : List (Entry × Nat)) (state : FlusherState) : FlusherState :=
  if batch = [] then state
  else
    let entries := batch.map Prod.fst
    let bytes := entries.flatMap (encodeRecord xxh3)
    match outcome with
    | .synced =>
      { state with
        wal := state.wal ++ bytes
        events := state.events ++ (entries.map .durable ++ (entries.map .applied ++
          batch.map fun item => .completed item.2 (.ok ()))) }
    | .failed written reason =>
      { state with
        wal := state.wal ++ bytes.take written
        events := state.events ++ batch.map fun item =>
          .completed item.2 (.error (.engine s!"group-commit WAL flush failed: {reason}")) }

def rotate (state : FlusherState) : Option Nat → FlusherState
  | none => state
  | some notify =>
    { state with
      older := state.older ++ [state.wal]
      wal := header
      events := state.events ++ [.completed notify (.ok ())] }

/-- What the outside decides in one round. -/
structure Turn where
  available : Nat
  outcome : FlushOutcome
  deriving DecidableEq, Repr

def round (turn : Turn) (channel : List FlusherMsg) (state : FlusherState) : List FlusherMsg × FlusherState :=
  match channel with
  | [] => ([], state)
  | first :: channel =>
    let (gathered, channel) := drain turn.available channel (Gathered.receive ⟨[], none, false⟩ first)
    let state := rotate (flush xxh3 turn.outcome gathered.batch state) gathered.rotate
    (channel, { state with stopped := gathered.shutdown })

def flusherLoop : List Turn → List FlusherMsg → FlusherState → List FlusherMsg × FlusherState
  | [], channel, state => (channel, state)
  | turn :: turns, channel, state =>
    if state.stopped then (channel, state)
    else
      let (channel, state) := round xxh3 turn channel state
      flusherLoop turns channel state

inductive Gathers : List FlusherMsg → Gathered → Prop where
  | appends {messages : List FlusherMsg} (plain : ∀ message ∈ messages, message.isAppend = true) :
      Gathers messages ⟨messages.flatMap batch, none, false⟩
  | rotate {messages : List FlusherMsg} (plain : ∀ message ∈ messages, message.isAppend = true) (notify : Nat) :
      Gathers (messages ++ [.rotate notify]) ⟨messages.flatMap batch, some notify, false⟩
  | shutdown {messages : List FlusherMsg} (plain : ∀ message ∈ messages, message.isAppend = true) :
      Gathers (messages ++ [.shutdown]) ⟨messages.flatMap batch, none, true⟩

theorem Gathers.receive (plain : ∀ message ∈ messages, message.isAppend = true) (message : FlusherMsg) :
    Gathers (messages ++ [message]) (Gathered.receive ⟨messages.flatMap batch, none, false⟩ message) := by
  have append (next : FlusherMsg) (isAppend : next.isAppend = true) :
      Gathers (messages ++ [next]) ⟨messages.flatMap batch ++ next.batch, none, false⟩ := by
    have all : ∀ other ∈ messages ++ [next], other.isAppend = true := by
      refine forall_mem_append.mpr ⟨plain, forall_mem_singleton.mpr ?_⟩
      assumption
    have gathers := Gathers.appends all
    rwa [flatMap_append, flatMap_singleton] at gathers
  cases message with
  | append entry notify => exact append _ rfl
  | appendBatch entries nonempty notify => exact append _ rfl
  | rotate notify => exact .rotate plain notify
  | shutdown => exact .shutdown plain

theorem Gathers.first (message : FlusherMsg) : Gathers [message] (Gathered.receive ⟨[], none, false⟩ message) :=
  @Gathers.receive [] nofun message

theorem drain_gathers {gathered : Gathered} (gathers : Gathers messages gathered) (available : Nat)
    (channel : List FlusherMsg) :
    ∃ taken, channel = taken ++ (drain available channel gathered).2 ∧
      Gathers (messages ++ taken) (drain available channel gathered).1 := by
  induction available generalizing messages gathered channel with
  | zero => exact ⟨[], rfl, by rwa [append_nil]⟩
  | succ available ih =>
    cases channel with
    | nil => exact ⟨[], rfl, by rwa [append_nil]⟩
    | cons message channel =>
      unfold drain
      split
      · exact ⟨[], rfl, by rwa [append_nil]⟩
      next running =>
      cases gathers with
      | rotate plain notify => simp at running
      | shutdown plain => simp at running
      | appends plain =>
        obtain ⟨taken, split, gathers⟩ := ih (Gathers.receive plain message) channel
        exact ⟨message :: taken, congrArg (message :: ·) split, by rwa [append_assoc] at gathers⟩

structure Placed where
  older : List (List Entry)
  current : List Entry
  deriving DecidableEq

open Placed

def Placed.add (placed : Placed) : FlusherMsg → Placed
  | .rotate _ => ⟨placed.older ++ [placed.current], []⟩
  | message => { placed with current := placed.current ++ message.entries }

def Placed.all (placed : Placed) : List (List Entry) := placed.older ++ [placed.current]

def segments (messages : List FlusherMsg) : List (List Entry) := (messages.foldl add ⟨[], []⟩).all

theorem Placed.add_flatten (placed : Placed) (message : FlusherMsg) :
    (placed.add message).all.flatten = placed.all.flatten ++ message.entries := by
  cases message with
  | rotate notify => simp [add, all, entries, batch]
  | _ => simp [add, all]

theorem Placed.foldl_flatten (messages : List FlusherMsg) (placed : Placed) :
    (messages.foldl add placed).all.flatten = placed.all.flatten ++ messages.flatMap entries := by
  induction messages generalizing placed with
  | nil => simp
  | cons message rest ih => rw [foldl_cons, ih, add_flatten, flatMap_cons, append_assoc]

theorem Placed.foldl_older (messages : List FlusherMsg) (older before : List (List Entry)) (current : List Entry) :
    (messages.foldl add ⟨older ++ before, current⟩).all = older ++ (messages.foldl add ⟨before, current⟩).all := by
  induction messages generalizing before current with
  | nil => simp [all]
  | cons message rest ih =>
    cases message with
    | rotate notify =>
      have next := ih (before ++ [current]) []
      rwa [← append_assoc] at next
    | _ => exact ih before _

theorem segments_rotate (before after : List FlusherMsg) (notify : Nat) :
    segments (before ++ .rotate notify :: after) = segments before ++ segments after := by
  unfold segments
  have split := foldl_older after (before.foldl add ⟨[], []⟩).all [] []
  rw [append_nil] at split
  rw [foldl_append]
  exact split

theorem Placed.foldl_appends (plain : ∀ message ∈ messages, message.isAppend = true) (placed : Placed) :
    messages.foldl add placed = { placed with current := placed.current ++ messages.flatMap entries } := by
  induction messages generalizing placed with
  | nil => simp
  | cons message rest ih =>
    rw [foldl_cons, ih fun other member => plain other (mem_cons_of_mem _ member)]
    have isAppend := plain message mem_cons_self
    cases message with
    | rotate notify => cases isAppend
    | _ => simp [add]

def durableEntry : FlusherEvent → Option Entry
  | .durable entry => some entry
  | _ => none

def appliedEntry : FlusherEvent → Option Entry
  | .applied entry => some entry
  | _ => none

def DurableFirst (events : List FlusherEvent) : Prop :=
  ∀ count, (events.take count).filterMap appliedEntry <+: (events.take count).filterMap durableEntry

structure Flushed (done : List FlusherMsg) (state : FlusherState) : Prop where
  older : state.older = (done.foldl add ⟨[], []⟩).older.map (segment xxh3)
  wal : state.wal = segment xxh3 (done.foldl add ⟨[], []⟩).current
  durable : state.events.filterMap durableEntry = done.flatMap entries
  applied : state.events.filterMap appliedEntry = done.flatMap entries
  durableFirst : DurableFirst state.events
  completed : ∀ message ∈ done, ∀ notify ∈ message.waiter, .completed notify (.ok ()) ∈ state.events
  succeeded : ∀ notify result, .completed notify result ∈ state.events → result = .ok ()

theorem flushed_start : Flushed xxh3 [] start where
  older := rfl
  wal := by simp [start, Wal.segment]
  durable := rfl
  applied := rfl
  durableFirst count := by simp [start]
  completed := nofun
  succeeded := nofun

def batchEvents (batch : List (Entry × Nat)) : List FlusherEvent :=
  (batch.map Prod.fst).map .durable ++ ((batch.map Prod.fst).map .applied ++
    batch.map fun item => .completed item.2 (.ok ()))

theorem filterMap_durable (entries : List Entry) :
    (entries.map durable).filterMap durableEntry = entries ∧
      (entries.map durable).filterMap appliedEntry = [] := by
  simp [filterMap_map, Function.comp_def, durableEntry, appliedEntry]

theorem filterMap_applied (entries : List Entry) :
    (entries.map applied).filterMap durableEntry = [] ∧
      (entries.map applied).filterMap appliedEntry = entries := by
  simp [filterMap_map, Function.comp_def, durableEntry, appliedEntry]

theorem filterMap_completed (batch : List (Entry × Nat)) :
    (batch.map fun item => completed item.2 (.ok ())).filterMap durableEntry = [] ∧
      (batch.map fun item => completed item.2 (.ok ())).filterMap appliedEntry = [] := by
  simp [filterMap_map, Function.comp_def, durableEntry, appliedEntry]

theorem DurableFirst.batch {events : List FlusherEvent} (durableFirst : DurableFirst events)
    (level : events.filterMap appliedEntry = events.filterMap durableEntry) (batch : List (Entry × Nat)) :
    DurableFirst (events ++ batchEvents batch) := by
  intro count
  by_cases inside : count ≤ events.length
  · rw [take_append_of_le_length inside]
    exact durableFirst count
  have all : events.take count = events := take_of_length_le (by omega)
  simp only [batchEvents, take_append, all, filterMap_append, ← map_take, filterMap_durable,
    filterMap_applied, filterMap_completed, append_nil, level]
  apply (prefix_append_right_inj _).mpr
  apply IsPrefix.map
  apply take_prefix_take_left
  omega

theorem batchEvents_entries (batch : List (Entry × Nat)) :
    (batchEvents batch).filterMap durableEntry = batch.map Prod.fst ∧
      (batchEvents batch).filterMap appliedEntry = batch.map Prod.fst := by
  simp only [batchEvents, filterMap_append, filterMap_durable, filterMap_applied, filterMap_completed,
    append_nil, nil_append, and_self]

theorem completed_mem_batchEvents {batch : List (Entry × Nat)} {result : Except TakyonicError Unit} :
    .completed notify result ∈ batchEvents batch ↔ result = .ok () ∧ ∃ entry, (entry, notify) ∈ batch := by
  simp only [batchEvents, mem_append, mem_map]
  constructor
  · rintro (⟨_, _, other⟩ | ⟨_, _, other⟩ | ⟨⟨entry, _⟩, member, same⟩)
    · cases other
    · cases other
    · cases same
      exact ⟨rfl, entry, member⟩
  · rintro ⟨rfl, entry, member⟩
    exact .inr (.inr ⟨(entry, notify), member, rfl⟩)

theorem batch_fst (messages : List FlusherMsg) :
    (messages.flatMap batch).map Prod.fst = messages.flatMap entries := by
  rw [map_flatMap]
  rfl

theorem waiter_mem_batch {message : FlusherMsg} (isAppend : message.isAppend = true)
    (waiter : notify ∈ message.waiter) : ∃ entry, (entry, notify) ∈ message.batch := by
  cases message with
  | append entry _ =>
    cases waiter
    exact ⟨entry, mem_cons_self⟩
  | appendBatch entries nonempty _ =>
    cases waiter
    obtain ⟨entry, member⟩ := exists_mem_of_ne_nil entries nonempty
    exact ⟨entry, mem_map.mpr ⟨entry, member, rfl⟩⟩
  | _ => cases isAppend

theorem flush_synced (batch : List (Entry × Nat)) (state : FlusherState) :
    flush xxh3 .synced batch state =
      { state with
        wal := state.wal ++ (batch.map Prod.fst).flatMap (encodeRecord xxh3)
        events := state.events ++ batchEvents batch } := by
  unfold flush
  split
  · next none => simp [none, batchEvents]
  · rfl

variable {xxh3}

theorem Flushed.appends (flushed : Flushed xxh3 done state) (plain : ∀ message ∈ messages, message.isAppend = true) :
    Flushed xxh3 (done ++ messages) (flush xxh3 .synced (messages.flatMap batch) state) := by
  rw [flush_synced]
  constructor
  case older =>
    rw [foldl_append, foldl_appends plain]
    exact flushed.older
  case wal =>
    rw [foldl_append, foldl_appends plain, WalReader.segment_append, batch_fst]
    exact congrArg (· ++ _) flushed.wal
  case durable =>
    rw [filterMap_append, flushed.durable, (batchEvents_entries _).1, batch_fst, flatMap_append]
  case applied =>
    rw [filterMap_append, flushed.applied, (batchEvents_entries _).2, batch_fst, flatMap_append]
  case durableFirst =>
    exact flushed.durableFirst.batch (flushed.applied.trans flushed.durable.symm) _
  case completed =>
    intro message member notify waiter
    rcases mem_append.mp member with old | new
    · exact mem_append_left _ (flushed.completed message old notify waiter)
    · obtain ⟨entry, inBatch⟩ := waiter_mem_batch (plain message new) waiter
      apply mem_append_right
      exact completed_mem_batchEvents.mpr ⟨rfl, entry, mem_flatMap.mpr ⟨message, new, inBatch⟩⟩
  case succeeded =>
    intro notify result member
    rcases mem_append.mp member with old | new
    · exact flushed.succeeded notify result old
    · exact (completed_mem_batchEvents.mp new).1

theorem DurableFirst.completed {events : List FlusherEvent} (durableFirst : DurableFirst events) (notify : Nat)
    (result : Except TakyonicError Unit) : DurableFirst (events ++ [.completed notify result]) := by
  intro count
  have silent (room : Nat) : (([.completed notify result] : List FlusherEvent).take room).filterMap appliedEntry = [] ∧
      (([.completed notify result] : List FlusherEvent).take room).filterMap durableEntry = [] := by
    cases room with
    | zero => exact ⟨rfl, rfl⟩
    | succ room => simp [appliedEntry, durableEntry]
  simp only [take_append, filterMap_append, silent, append_nil]
  exact durableFirst count

section

variable (flushed : Flushed xxh3 done state)
include flushed

theorem Flushed.rotate (notify : Nat) :
    Flushed xxh3 (done ++ [.rotate notify]) (GroupCommitWal.rotate state (some notify)) := by
  constructor
  case older =>
    simp [GroupCommitWal.rotate, add, flushed.older, flushed.wal]
  case wal =>
    simp [GroupCommitWal.rotate, add, Wal.segment]
  case durable =>
    simp [GroupCommitWal.rotate, flushed.durable, durableEntry, entries, batch]
  case applied =>
    simp [GroupCommitWal.rotate, flushed.applied, appliedEntry, entries, batch]
  case durableFirst => exact flushed.durableFirst.completed notify _
  case completed =>
    intro message member waiter waits
    rcases mem_append.mp member with old | new
    · exact mem_append_left _ (flushed.completed message old waiter waits)
    · rw [mem_singleton.mp new] at waits
      cases waits
      exact mem_append_right _ mem_cons_self
  case succeeded =>
    intro waiter result member
    rcases mem_append.mp member with old | new
    · exact flushed.succeeded waiter result old
    · cases mem_singleton.mp new
      rfl

theorem Flushed.shutdown : Flushed xxh3 (done ++ [.shutdown]) state := by
  have placed : (done ++ [FlusherMsg.shutdown]).foldl add ⟨[], []⟩ = done.foldl add ⟨[], []⟩ := by
    simp [add, entries, batch]
  have entries : (done ++ [FlusherMsg.shutdown]).flatMap FlusherMsg.entries = done.flatMap FlusherMsg.entries := by
    simp [entries, batch]
  constructor
  case older => exact placed ▸ flushed.older
  case wal => exact placed ▸ flushed.wal
  case durable => exact entries ▸ flushed.durable
  case applied => exact entries ▸ flushed.applied
  case durableFirst => exact flushed.durableFirst
  case completed =>
    intro message member waiter waits
    rcases mem_append.mp member with old | new
    · exact flushed.completed message old waiter waits
    · rw [mem_singleton.mp new] at waits
      cases waits
  case succeeded => exact flushed.succeeded

theorem Flushed.stopped (stopped : Bool) : Flushed xxh3 done { state with stopped } :=
  { flushed with }

end

theorem shutdown_not_mem (plain : ∀ message ∈ messages, message.isAppend = true) : .shutdown ∉ messages := by
  intro member
  cases plain _ member

theorem Flushed.gathered {gathered : Gathered}
    (flushed : Flushed xxh3 done state) (gathers : Gathers messages gathered) :
    Flushed xxh3 (done ++ messages)
      (GroupCommitWal.rotate (flush xxh3 .synced gathered.batch state) gathered.rotate) := by
  cases gathers with
  | appends plain => exact flushed.appends plain
  | rotate plain notify =>
    rw [← append_assoc]
    exact (flushed.appends plain).rotate notify
  | shutdown plain =>
    rw [← append_assoc]
    exact (flushed.appends plain).shutdown

theorem Gathers.shutdown_cases {gathered : Gathered} (gathers : Gathers messages gathered) :
    (gathered.shutdown = true ∧ ∃ before, messages = before ++ [.shutdown]) ∨
      (gathered.shutdown = false ∧ .shutdown ∉ messages) := by
  cases gathers with
  | appends plain => exact .inr ⟨rfl, shutdown_not_mem plain⟩
  | rotate plain notify => exact .inr ⟨rfl, by simpa using shutdown_not_mem plain⟩
  | @shutdown messages plain => exact .inl ⟨rfl, messages, rfl⟩

theorem Flushed.round (flushed : Flushed xxh3 done state)
    {turn : Turn} (synced : turn.outcome = .synced) (first : FlusherMsg) (rest : List FlusherMsg) :
    ∃ taken, first :: rest = first :: taken ++ (GroupCommitWal.round xxh3 turn (first :: rest) state).1 ∧
      Flushed xxh3 (done ++ first :: taken) (GroupCommitWal.round xxh3 turn (first :: rest) state).2 ∧
      (((GroupCommitWal.round xxh3 turn (first :: rest) state).2.stopped = true ∧
          ∃ before, first :: taken = before ++ [.shutdown]) ∨
        ((GroupCommitWal.round xxh3 turn (first :: rest) state).2.stopped = false ∧ .shutdown ∉ first :: taken)) := by
  obtain ⟨taken, split, gathers⟩ := drain_gathers (Gathers.first first) turn.available rest
  have flushes := (flushed.gathered gathers).stopped
  rw [← synced] at flushes
  exact ⟨taken, congrArg (first :: ·) split, flushes _, gathers.shutdown_cases⟩

theorem flusherLoop_stopped (stopped : state.stopped = true) (turns : List Turn) (channel : List FlusherMsg) :
    GroupCommitWal.flusherLoop xxh3 turns channel state = (channel, state) := by
  cases turns with
  | nil => rfl
  | cons turn turns => rw [GroupCommitWal.flusherLoop, if_pos stopped]

theorem Flushed.flusherLoop {turns : List Turn} (reliable : ∀ turn ∈ turns, turn.outcome = .synced)
    (running : .shutdown ∉ messages) (enough : messages.length < turns.length)
    (flushed : Flushed xxh3 done state) (active : state.stopped = false) :
    Flushed xxh3 (done ++ (messages ++ [.shutdown]))
        (GroupCommitWal.flusherLoop xxh3 turns (messages ++ [.shutdown]) state).2 ∧
      (GroupCommitWal.flusherLoop xxh3 turns (messages ++ [.shutdown]) state).2.stopped = true := by
  induction turns generalizing messages done state with
  | nil => cases enough
  | cons turn turns ih =>
    obtain ⟨first, rest, shape⟩ := exists_cons_of_ne_nil (append_ne_nil_of_right_ne_nil messages
      (cons_ne_nil FlusherMsg.shutdown []))
    obtain ⟨taken, split, next, ending⟩ := flushed.round (reliable turn mem_cons_self) first rest
    rw [shape, GroupCommitWal.flusherLoop, active]
    rw [← shape] at split next ending ⊢
    generalize GroupCommitWal.round xxh3 turn (messages ++ [.shutdown]) state = after at split next ending
    obtain ⟨channel, after⟩ := after
    dsimp only at split next ending ⊢
    rcases ending with ⟨stopped, before, last⟩ | ⟨active, open'⟩
    · -- nothing follows the shutdown
      have empty : channel = [] := by
        rw [last, append_assoc] at split
        rcases append_eq_append_iff.mp split with ⟨more, _, tail⟩ | ⟨more, inside, tail⟩
        · cases more with
          | nil => exact (cons.inj tail).2.symm
          | cons _ _ => simp at tail
        · cases more with
          | nil => exact (cons.inj tail).2
          | cons head more =>
            cases (cons.inj tail).1
            exact absurd (inside ▸ mem_append_right _ mem_cons_self) running
      subst empty
      rw [flusherLoop_stopped stopped, split, append_nil]
      exact ⟨next, stopped⟩
    · obtain ⟨later, inside, tail⟩ : ∃ later, messages = first :: taken ++ later ∧ channel = later ++ [.shutdown] := by
        rcases append_eq_append_iff.mp split with ⟨more, outside, tail⟩ | found
        · cases more with
          | nil => exact ⟨[], by simpa using outside.symm, tail.symm⟩
          | cons head more =>
            cases (cons.inj tail).1
            exact absurd (outside ▸ mem_append_right _ mem_cons_self) open'
        · exact found
      subst inside tail
      have fewer : later.length < turns.length := by
        simp only [length_append, length_cons] at enough
        omega
      have result := ih (fun other member => reliable other (mem_cons_of_mem _ member))
        (fun member => running (mem_append_right _ member)) fewer next active
      rw [split]
      rwa [append_assoc] at result

/-- The group commit keeps the order of its channel and leaves nothing out, however the messages are grouped. -/
theorem flusherLoop_complete (messages : List FlusherMsg) (running : .shutdown ∉ messages) (turns : List Turn)
    (enough : messages.length < turns.length) (reliable : ∀ turn ∈ turns, turn.outcome = .synced) :
    let state := (GroupCommitWal.flusherLoop xxh3 turns (messages ++ [.shutdown]) start).2
    state.stopped = true ∧
      state.older ++ [state.wal] = (segments messages).map (segment xxh3) ∧
      (segments messages).flatten = messages.flatMap entries ∧
      (∀ before notify after, messages = before ++ .rotate notify :: after →
        segments messages = segments before ++ segments after) ∧
      state.events.filterMap appliedEntry = messages.flatMap entries ∧
      DurableFirst state.events ∧
      (∀ message ∈ messages, ∀ notify ∈ message.waiter, .completed notify (.ok ()) ∈ state.events) ∧
      ∀ notify result, .completed notify result ∈ state.events → result = .ok () := by
  obtain ⟨flushed, stopped⟩ := (flushed_start xxh3).flusherLoop reliable running enough rfl
  rw [nil_append] at flushed
  have placed : (messages ++ [shutdown]).foldl add ⟨[], []⟩ = messages.foldl add ⟨[], []⟩ := by
    simp [add, entries, batch]
  have entries : (messages ++ [shutdown]).flatMap entries = messages.flatMap entries := by
    simp [entries, batch]
  refine ⟨stopped, ?_, foldl_flatten messages ⟨[], []⟩, ?_, ?_, flushed.durableFirst, ?_, flushed.succeeded⟩
  · rw [flushed.older, flushed.wal, placed, segments, Placed.all, map_append]
    rfl
  · rintro before notify after rfl
    exact segments_rotate before after notify
  · rw [flushed.applied, entries]
  · intro message member
    exact flushed.completed message (mem_append_left _ member)

theorem flusherLoop_complete_two :
    let messages : List FlusherMsg := [.append (.put ⟨[97]⟩ ⟨[49]⟩ 1) 1, .rotate 2,
      .appendBatch [.put ⟨[98]⟩ ⟨[50]⟩ 2, .delete ⟨[97]⟩ 3] (by decide) 3]
    let turns : List Turn := replicate 4 ⟨7, .synced⟩
    let state := (GroupCommitWal.flusherLoop (fun _ => 7) turns (messages ++ [.shutdown]) start).2
    state.older ++ [state.wal] = [[.put ⟨[97]⟩ ⟨[49]⟩ 1], [.put ⟨[98]⟩ ⟨[50]⟩ 2, .delete ⟨[97]⟩ 3]].map
      (segment fun _ => 7) :=
  (flusherLoop_complete [.append (.put ⟨[97]⟩ ⟨[49]⟩ 1) 1, .rotate 2,
    .appendBatch [.put ⟨[98]⟩ ⟨[50]⟩ 2, .delete ⟨[97]⟩ 3] (by decide) 3] (by simp)
    (replicate 4 ⟨7, .synced⟩) (by decide) (by decide)).2.1

end GroupCommitWal

end Takyonic
