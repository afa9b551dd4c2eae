import Takyonic.Foundation.Trace
import Takyonic.Storage.Store

namespace Takyonic

open Foundation

structure Submission where
  index : Nat
  entries : List Entry
  deriving DecidableEq, Repr

/-- Where the flusher thread stands in its loop. The apply hook puts an entry into the memtable and moves
    `last_applied` in two steps. -/
inductive Flusher where
  | idle
  | gathered (batch : List Submission)
  | applying (batch : List Submission) (todo : List Entry)
  | publishing (batch : List Submission) (seq : Nat) (todo : List Entry)
  deriving DecidableEq, Repr

/-- The shared state of the threads of one node: `metas` and `waiting` are proposals that have their index
    and have not taken their next step, `acknowledged` those that have returned Ok. -/
structure Threads where
  node : LocalRaftNode
  metas : List Nat
  waiting : List Submission
  channel : List Submission
  flusher : Flusher
  acknowledged : List Submission

inductive Action where
  | allocate (command : RaftCommand)
  | advance (index : Nat)
  | enqueue (index : Nat)
  | receive
  | sync (durable : Bool)
  | applyEntry
  | publish
  | complete
  deriving DecidableEq, Repr

namespace Threads

def start (node : LocalRaftNode) : Threads := ⟨node, [], [], [], .idle, []⟩

variable (threads : Threads)

def allocate (command : RaftCommand) : Threads :=
  let index := threads.node.nextIndex
  let node := { threads.node with nextIndex := index + 1 }
  if command.isMeta then { threads with node, metas := threads.metas ++ [index] }
  else match command.toEntries index with
    | .ok entries => { threads with node, waiting := threads.waiting ++ [⟨index, entries⟩] }
    | .error _ => { threads with node }

def advance (threads : Threads) (index : Nat) : Threads :=
  if index ∈ threads.metas then
    { threads with
      node := threads.node.advance index
      metas := threads.metas.erase index
      acknowledged := threads.acknowledged ++ [⟨index, []⟩] }
  else threads

def enqueue (index : Nat) : Threads :=
  match threads.waiting.find? (fun submission => submission.index = index) with
  | none => threads
  | some submission =>
    let waiting := threads.waiting.erase submission
    if submission.entries = [] then
      { threads with waiting, acknowledged := threads.acknowledged ++ [submission] }
    else { threads with waiting, channel := threads.channel ++ [submission] }

def receive : Threads :=
  match threads.flusher, threads.channel with
  | .idle, submission :: channel => { threads with channel, flusher := .gathered [submission] }
  | .gathered batch, submission :: channel => { threads with channel, flusher := .gathered (batch ++ [submission]) }
  | _, _ => threads

def sync (durable : Bool) : Threads :=
  match threads.flusher with
  | .gathered batch =>
    if durable then { threads with flusher := .applying batch (batch.flatMap Submission.entries) }
    else { threads with flusher := .idle }
  | _ => threads

def applyEntry (threads : Threads) : Threads :=
  match threads.flusher with
  | .applying batch (entry :: todo) =>
    { threads with node := threads.node.applyEntry entry, flusher := .publishing batch entry.seq todo }
  | _ => threads

def publish : Threads :=
  match threads.flusher with
  | .publishing batch seq todo => { threads with node := threads.node.advance seq, flusher := .applying batch todo }
  | _ => threads

def complete : Threads :=
  match threads.flusher with
  | .applying batch [] => { threads with flusher := .idle, acknowledged := threads.acknowledged ++ batch }
  | _ => threads

def step : Action → Threads
  | .allocate command => threads.allocate command
  | .advance index => threads.advance index
  | .enqueue index => threads.enqueue index
  | .receive => threads.receive
  | .sync durable => threads.sync durable
  | .applyEntry => threads.applyEntry
  | .publish => threads.publish
  | .complete => threads.complete

end Threads

open List Threads Flusher List.Pairwise

def Flusher.batch : Flusher → List Submission
  | idle => []
  | gathered batch | applying batch _ | publishing batch _ _ => batch

def Flusher.todo : Flusher → List Entry
  | idle => []
  | gathered batch => batch.flatMap Submission.entries
  | applying _ todo | publishing _ _ todo => todo

def RaftCommand.isSingle : RaftCommand → Bool
  | txnBatch ops => ops.length ≤ 1
  | txnCommit _ _ _ => false
  | _ => true

namespace Threads

def unapplied (threads : Threads) : List Entry :=
  threads.flusher.todo ++ threads.channel.flatMap Submission.entries ++ threads.waiting.flatMap Submission.entries

def tracked (threads : Threads) : List Submission :=
  threads.waiting ++ threads.channel ++ threads.flusher.batch ++ threads.acknowledged

def Includes (threads : Threads) (submission : Submission) : Prop :=
  ∀ entry ∈ submission.entries, entry ∈ threads.node.memtable.entries

/-- Every proposal up to `last_applied` that is acknowledged in whatever follows is in the memtable. -/
def VisibleNow (threads : Threads) : Prop :=
  ∀ later, ∀ submission ∈ (run step threads later).acknowledged,
    submission.index ≤ threads.node.lastApplied → threads.Includes submission

/-- One entry per proposal, proposals sent in the order of their indices, and no meta command that
    finishes while an earlier proposal is under way. -/
def InOrder (threads : Threads) : Action → Prop
  | .allocate command => command.isSingle = true
  | .advance index => ∀ submission ∈ threads.waiting ++ threads.channel ++ threads.flusher.batch,
      index < submission.index
  | .enqueue index => ∀ submission ∈ threads.waiting, index ≤ submission.index
  | _ => True

instance (threads : Threads) (action : Action) : Decidable (threads.InOrder action) := by
  rcases action with ⟨⟩ <;> unfold InOrder <;> infer_instance

variable {threads : Threads} {index : Nat}

theorem mem_tracked {submission : Submission} : submission ∈ threads.tracked ↔
    submission ∈ threads.waiting ∨ submission ∈ threads.channel ∨ submission ∈ threads.flusher.batch ∨
      submission ∈ threads.acknowledged := by
  simp [tracked]

variable {entry : Entry}

theorem mem_unapplied : entry ∈ threads.unapplied ↔
    entry ∈ threads.flusher.todo ∨ (∃ submission ∈ threads.channel, entry ∈ submission.entries) ∨
      ∃ submission ∈ threads.waiting, entry ∈ submission.entries := by
  simp [unapplied]

section

variable (threads : Threads)

theorem enqueue_tracked (index : Nat) : (threads.enqueue index).tracked ⊆ threads.tracked := by
  intro submission
  unfold enqueue
  split
  · exact id
  rename_i found search
  have inWaiting : found ∈ threads.waiting := mem_of_find?_eq_some search
  have kept : submission ∈ threads.waiting.erase found → submission ∈ threads.waiting := mem_of_mem_erase
  split
  all_goals
    simp only [mem_tracked, mem_append, mem_singleton]
    rintro member
    by_cases same : submission = found
    · exact .inl (same ▸ inWaiting)
    · tauto

theorem receive_tracked : threads.receive.tracked ⊆ threads.tracked := by
  intro submission
  unfold receive
  split
  · rename_i idle pending
    simp only [mem_tracked, batch, pending, mem_cons]
    tauto
  · rename_i gathered pending
    simp only [mem_tracked, batch, mem_append, gathered, pending, mem_cons]
    tauto
  · exact id

theorem sync_tracked (durable : Bool) : (threads.sync durable).tracked ⊆ threads.tracked := by
  intro submission
  unfold sync
  split
  · rename_i gathered
    split
    · simp only [mem_tracked, gathered, batch, imp_self]
    · simp only [mem_tracked, gathered, batch, not_mem_nil]
      tauto
  · exact id

theorem applyEntry_tracked : threads.applyEntry.tracked ⊆ threads.tracked := by
  intro submission
  unfold applyEntry
  split
  · rename_i applying
    simp only [mem_tracked, applying, batch, imp_self]
  · exact id

theorem publish_tracked : threads.publish.tracked ⊆ threads.tracked := by
  intro submission
  unfold publish
  split
  · rename_i publishing
    simp only [mem_tracked, publishing, batch, imp_self]
  · exact id

theorem complete_tracked : threads.complete.tracked ⊆ threads.tracked := by
  intro submission
  unfold complete
  split
  · rename_i applying
    simp only [mem_tracked, applying, batch, mem_append, not_mem_nil]
    tauto
  · exact id

theorem step_nextIndex (action : Action) :
    threads.node.nextIndex ≤ (threads.step action).node.nextIndex := by
  cases action with
  | allocate command =>
    simp only [step, allocate]
    split
    · exact Nat.le_succ _
    · split <;> exact Nat.le_succ _
  | enqueue index =>
    simp only [step, enqueue]
    split
    · exact le_rfl
    · split <;> exact le_rfl
  | sync durable =>
    simp only [step, sync]
    split
    · split <;> exact le_rfl
    · exact le_rfl
  | _ =>
    simp only [step, advance, receive, applyEntry, publish, complete]
    split <;> exact le_rfl

theorem step_tracked (action : Action) : ∀ submission ∈ (threads.step action).tracked,
    submission ∈ threads.tracked ∨ submission.index = threads.node.nextIndex ∨ submission.entries = [] := by
  intro submission member
  cases action with
  | allocate command =>
    revert member
    simp only [step, allocate]
    split
    · exact .inl
    split
    · simp only [mem_tracked, mem_append, mem_singleton]
      rintro ((before | rfl) | rest)
      · exact .inl (.inl before)
      · exact .inr (.inl rfl)
      · exact .inl (.inr rest)
    · exact .inl
  | advance index =>
    revert member
    simp only [step, advance]
    split
    · simp only [mem_tracked, mem_append, mem_singleton]
      rintro (before | before | before | before | rfl)
      · exact .inl (.inl before)
      · exact .inl (.inr (.inl before))
      · exact .inl (.inr (.inr (.inl before)))
      · exact .inl (.inr (.inr (.inr before)))
      · exact .inr (.inr rfl)
    · exact .inl
  | enqueue index => exact .inl (threads.enqueue_tracked index member)
  | receive => exact .inl (threads.receive_tracked member)
  | sync durable => exact .inl (threads.sync_tracked durable member)
  | applyEntry => exact .inl (threads.applyEntry_tracked member)
  | publish => exact .inl (threads.publish_tracked member)
  | complete => exact .inl (threads.complete_tracked member)

theorem run_tracked (actions : List Action) :
    ∀ submission ∈ (run step threads actions).tracked, submission ∈ threads.tracked ∨
      threads.node.nextIndex ≤ submission.index ∨ submission.entries = [] := by
  induction actions generalizing threads with
  | nil => exact fun submission member => .inl member
  | cons action rest ih =>
    intro submission member
    rcases ih (threads.step action) submission member with here | new | empty
    · rcases step_tracked threads action submission here with before | new | empty
      · exact .inl before
      · exact .inr (.inl (le_of_eq new.symm))
      · exact .inr (.inr empty)
    · exact .inr (.inl (le_trans (step_nextIndex threads action) new))
    · exact .inr (.inr empty)

end

/-- Entries reach the memtable in the order of their indices, which `last_applied` has not passed. -/
structure Tidy (threads : Threads) : Prop where
  known : ∀ submission ∈ threads.tracked, submission.index < threads.node.nextIndex ∧
    ∀ entry ∈ submission.entries, entry.seq = submission.index
  batch : ∀ submission ∈ threads.flusher.batch, ∀ entry ∈ submission.entries,
    entry ∈ threads.node.memtable.entries ∨ entry ∈ threads.flusher.todo
  todo : ∀ entry ∈ threads.flusher.todo, ∃ submission ∈ threads.flusher.batch, entry ∈ submission.entries
  done : ∀ submission ∈ threads.acknowledged, threads.Includes submission
  ahead : ∀ entry ∈ threads.unapplied, threads.node.lastApplied < entry.seq
  ascending : threads.unapplied.Pairwise (fun first second => first.seq < second.seq)
  waiting : threads.waiting.Pairwise (fun first second => first.index < second.index)
  fresh : ∀ version ∈ threads.node.memtable.entries, version.seq < threads.node.nextIndex ∧
    ∀ entry ∈ threads.unapplied, version.seq ≠ entry.seq
  publishing : ∀ batch seq todo, threads.flusher = .publishing batch seq todo →
    seq < threads.node.nextIndex ∧ ∀ entry ∈ threads.unapplied, seq < entry.seq
  metas : ∀ index ∈ threads.metas, index < threads.node.nextIndex
  applied : threads.node.lastApplied < threads.node.nextIndex

theorem Tidy.source (tidy : threads.Tidy) (pending : entry ∈ threads.unapplied) :
    ∃ submission ∈ threads.waiting ++ threads.channel ++ threads.flusher.batch, entry ∈ submission.entries := by
  simp only [mem_append]
  rcases mem_unapplied.mp pending with todo | ⟨submission, sent, here⟩ | ⟨submission, waits, here⟩
  · obtain ⟨submission, gathered, here⟩ := tidy.todo entry todo
    exact ⟨submission, .inr gathered, here⟩
  · exact ⟨submission, .inl (.inr sent), here⟩
  · exact ⟨submission, .inl (.inl waits), here⟩

theorem Tidy.below (tidy : threads.Tidy) (pending : entry ∈ threads.unapplied) :
    entry.seq < threads.node.nextIndex := by
  obtain ⟨submission, inside, here⟩ := tidy.source pending
  obtain ⟨known, stamped⟩ := tidy.known submission (mem_append_left _ inside)
  rw [stamped entry here]
  exact known

theorem Tidy.visibleNow (tidy : threads.Tidy) : threads.VisibleNow := by
  intro later submission done inside entry member
  have tracked : submission ∈ (run step threads later).tracked := mem_tracked.mpr (.inr (.inr (.inr done)))
  have pending : submission ∈ threads.tracked → entry ∈ threads.unapplied → False := by
    intro here unapplied
    have := tidy.ahead entry unapplied
    have := (tidy.known submission here).2 entry member
    omega
  rcases run_tracked threads later submission tracked with here | new | empty
  · rcases mem_tracked.mp here with waits | sent | gathered | before
    · exact absurd (mem_unapplied.mpr (.inr (.inr ⟨submission, waits, member⟩))) (pending here)
    · exact absurd (mem_unapplied.mpr (.inr (.inl ⟨submission, sent, member⟩))) (pending here)
    · rcases tidy.batch submission gathered entry member with applied | todo
      · exact applied
      · exact absurd (mem_unapplied.mpr (.inl todo)) (pending here)
    · exact tidy.done submission before entry member
  · have := tidy.applied
    omega
  · rw [empty] at member
    cases member

theorem start_tidy {node : LocalRaftNode} (applied : node.lastApplied < node.nextIndex)
    (fresh : ∀ version ∈ node.memtable.entries, version.seq < node.nextIndex) : (start node).Tidy where
  known := by simp [tracked, start, batch]
  batch := by simp [start, batch]
  todo := by simp [start, todo]
  done := by simp [start]
  ahead := by simp [unapplied, start, todo]
  ascending := nil
  waiting := nil
  fresh := fun version member => ⟨fresh version member, by simp [unapplied, start, todo]⟩
  publishing := nofun
  metas := by simp [start]
  applied := applied

variable {command : RaftCommand}

theorem toEntries_single {entries : List Entry} (single : command.isSingle = true)
    (built : command.toEntries index = .ok entries) :
    (∀ entry ∈ entries, entry.seq = index) ∧ entries.length ≤ 1 := by
  cases command with
  | put key value =>
    cases built
    simp [Entry.put]
  | delete key =>
    cases built
    simp [Entry.delete]
  | txnBatch ops =>
    cases built
    refine ⟨fun entry member => ?_, by simpa [RaftCommand.isSingle] using single⟩
    obtain ⟨⟨key, value⟩, -, rfl⟩ := mem_map.mp member
    cases value <;> rfl
  | txnCommit txnId commitTs ops => cases single
  | _ => cases built

variable (tidy : threads.Tidy)
include tidy

variable {next : Threads}

theorem Tidy.grow (added : List Entry)
    (node : next.node = { threads.node with nextIndex := threads.node.nextIndex + 1 })
    (flusher : next.flusher = threads.flusher) (acknowledged : next.acknowledged = threads.acknowledged)
    (unapplied : next.unapplied = threads.unapplied ++ added)
    (stamped : ∀ entry ∈ added, entry.seq = threads.node.nextIndex) (short : added.length ≤ 1)
    (tracked : ∀ submission ∈ next.tracked, submission ∈ threads.tracked ∨
      submission = ⟨threads.node.nextIndex, added⟩)
    (waiting : next.waiting.Pairwise (fun first second => first.index < second.index))
    (metas : ∀ index ∈ next.metas, index ∈ threads.metas ∨ index = threads.node.nextIndex) : next.Tidy := by
  have later : ∀ {number}, number < threads.node.nextIndex → number < next.node.nextIndex := by
    intro number below
    rw [node]
    exact Nat.lt_succ_of_lt below
  have counter : threads.node.nextIndex < next.node.nextIndex := by
    rw [node]
    exact Nat.lt_succ_self _
  have memtable : next.node.memtable = threads.node.memtable := by rw [node]
  have lastApplied : next.node.lastApplied = threads.node.lastApplied := by rw [node]
  have pending : ∀ {P : Nat → Prop}, (∀ entry ∈ threads.unapplied, P entry.seq) → P threads.node.nextIndex →
      ∀ entry ∈ next.unapplied, P entry.seq := by
    intro P before new entry member
    rw [unapplied] at member
    rcases mem_append.mp member with old | here
    · exact before entry old
    · exact stamped entry here ▸ new
  refine ⟨fun submission member => ?_, ?_, ?_, ?_, ?_, ?_, waiting, fun version member => ?_,
    fun batch seq todo publishing => ?_, fun index member => ?_, ?_⟩
  · rcases tracked submission member with before | rfl
    · exact ⟨later (tidy.known submission before).1, (tidy.known submission before).2⟩
    · exact ⟨counter, stamped⟩
  · rw [flusher, memtable]
    exact tidy.batch
  · rw [flusher]
    exact tidy.todo
  · rw [acknowledged]
    intro submission member entry inside
    rw [memtable]
    exact tidy.done submission member entry inside
  · rw [lastApplied]
    exact pending tidy.ahead tidy.applied
  · rw [unapplied]
    refine pairwise_append.mpr ⟨tidy.ascending, ?_, fun first before second new => ?_⟩
    · match added, short with
      | [], _ => exact nil
      | [_], _ => exact pairwise_singleton _ _
    · rw [stamped second new]
      exact tidy.below before
  · rw [memtable] at member
    obtain ⟨old, different⟩ := tidy.fresh version member
    exact ⟨later old, pending different (ne_of_lt old)⟩
  · rw [flusher] at publishing
    obtain ⟨old, rest⟩ := tidy.publishing batch seq todo publishing
    exact ⟨later old, pending rest old⟩
  · rcases metas index member with before | rfl
    · exact later (tidy.metas index before)
    · exact counter
  · rw [lastApplied]
    exact later tidy.applied

theorem Tidy.allocate (single : command.isSingle = true) : (threads.allocate command).Tidy := by
  unfold Threads.allocate
  dsimp only
  split
  · refine tidy.grow [] rfl rfl rfl (append_nil _).symm (by simp) (by simp)
      (fun submission member => .inl member) tidy.waiting (fun index member => ?_)
    rcases mem_append.mp member with before | new
    · exact .inl before
    · exact .inr (mem_singleton.mp new)
  · split
    · rename_i entries built
      obtain ⟨stamped, short⟩ := toEntries_single single built
      refine tidy.grow entries rfl rfl rfl (by simp [unapplied, append_assoc]) stamped short ?_ ?_ ?_
      · intro submission member
        simp only [mem_tracked, mem_append, mem_singleton] at member ⊢
        tauto
      · refine pairwise_append.mpr ⟨tidy.waiting, pairwise_singleton _ _, ?_⟩
        intro first before second new
        rw [mem_singleton.mp new]
        exact (tidy.known first (mem_tracked.mpr (.inl before))).1
      · exact fun index member => .inl member
    · exact tidy.grow [] rfl rfl rfl (append_nil _).symm (by simp) (by simp)
        (fun submission member => .inl member) tidy.waiting (fun index member => .inl member)

theorem Tidy.move (node : next.node = threads.node) (metas : next.metas = threads.metas)
    (unapplied : next.unapplied.Sublist threads.unapplied) (waiting : next.waiting.Sublist threads.waiting)
    (tracked : next.tracked ⊆ threads.tracked)
    (batch : ∀ submission ∈ next.flusher.batch, ∀ entry ∈ submission.entries,
      entry ∈ threads.node.memtable.entries ∨ entry ∈ next.flusher.todo)
    (todo : ∀ entry ∈ next.flusher.todo, ∃ submission ∈ next.flusher.batch, entry ∈ submission.entries)
    (done : ∀ submission ∈ next.acknowledged, threads.Includes submission)
    (publishing : ∀ batch seq todo, next.flusher = .publishing batch seq todo → threads.flusher = next.flusher) :
    next.Tidy := by
  refine ⟨fun submission member => ?_, ?_, todo, ?_, ?_, tidy.ascending.sublist unapplied,
    tidy.waiting.sublist waiting, fun version member => ?_, fun batch seq todo here => ?_, ?_, ?_⟩
  · rw [node]
    exact tidy.known submission (tracked member)
  · rw [node]
    exact batch
  · intro submission member entry inside
    rw [node]
    exact done submission member entry inside
  · rw [node]
    exact fun entry member => tidy.ahead entry (unapplied.subset member)
  · rw [node] at member ⊢
    obtain ⟨below, different⟩ := tidy.fresh version member
    exact ⟨below, fun entry pending => different entry (unapplied.subset pending)⟩
  · obtain ⟨below, later⟩ := tidy.publishing batch seq todo ((publishing batch seq todo here).trans here)
    rw [node]
    exact ⟨below, fun entry pending => later entry (unapplied.subset pending)⟩
  · rw [metas, node]
    exact tidy.metas
  · rw [node]
    exact tidy.applied

theorem Tidy.advance (first : ∀ submission ∈ threads.waiting ++ threads.channel ++ threads.flusher.batch,
      index < submission.index) : (threads.advance index).Tidy := by
  unfold Threads.advance
  split
  · rename_i waits
    refine ⟨fun submission member => ?_, tidy.batch, tidy.todo, fun submission member => ?_,
      fun entry member => ?_, tidy.ascending, tidy.waiting, tidy.fresh, tidy.publishing,
      fun other member => tidy.metas other (mem_of_mem_erase member), ?_⟩
    · have either : submission ∈ threads.tracked ∨ submission = ⟨index, []⟩ := by
        simp only [mem_tracked, mem_append, mem_singleton] at member ⊢
        tauto
      rcases either with before | rfl
      · exact tidy.known submission before
      · exact ⟨tidy.metas index waits, by simp⟩
    · rcases mem_append.mp member with before | new
      · exact tidy.done submission before
      · rw [mem_singleton.mp new]
        intro entry inside
        cases inside
    · obtain ⟨submission, inside, here⟩ := tidy.source member
      have tracked : submission ∈ threads.tracked := mem_append_left _ inside
      have stamped := (tidy.known submission tracked).2 entry here
      have later := first submission inside
      exact Nat.max_lt.mpr ⟨tidy.ahead entry member, by omega⟩
    · exact Nat.max_lt.mpr ⟨tidy.applied, tidy.metas index waits⟩
  · exact tidy

theorem Tidy.enqueue (first : ∀ submission ∈ threads.waiting, index ≤ submission.index) :
    (threads.enqueue index).Tidy := by
  have tracked := threads.enqueue_tracked index
  revert tracked
  unfold Threads.enqueue
  cases search : threads.waiting.find? (fun submission => submission.index = index) with
  | none => exact fun _ => tidy
  | some submission =>
    dsimp only
    have named : submission.index = index := by simpa using List.find?_some search
    -- the first of the waiting proposals is the one that is sent
    obtain ⟨rest, front⟩ : ∃ rest, threads.waiting = submission :: rest := by
      cases waiting : threads.waiting with
      | nil =>
        rw [waiting] at search
        cases search
      | cons head rest =>
        have member : submission ∈ head :: rest := waiting ▸ mem_of_find?_eq_some search
        rcases mem_cons.mp member with rfl | later
        · exact ⟨rest, rfl⟩
        · have order := (pairwise_cons.mp (waiting ▸ tidy.waiting)).1 submission later
          have least := first head (waiting ▸ mem_cons_self)
          omega
    have erased : threads.waiting.erase submission = rest := by rw [front, erase_cons_head]
    have shorter : rest.Sublist threads.waiting := front ▸ sublist_cons_self _ _
    rw [erased]
    split
    · rename_i empty
      intro tracked
      refine tidy.move rfl rfl ?_ shorter tracked tidy.batch tidy.todo ?_ (fun _ _ _ _ => rfl)
      · simp [unapplied, front, empty]
      · refine forall_mem_append.mpr ⟨tidy.done, forall_mem_singleton.mpr ?_⟩
        intro entry inside
        rw [empty] at inside
        cases inside
    · intro tracked
      refine tidy.move rfl rfl ?_ shorter tracked tidy.batch tidy.todo tidy.done (fun _ _ _ _ => rfl)
      simp [unapplied, front]

theorem Tidy.receive : threads.receive.Tidy := by
  have tracked := threads.receive_tracked
  revert tracked
  unfold Threads.receive
  split
  · rename_i submission channel idle pending
    intro tracked
    refine tidy.move rfl rfl ?_ (.refl _) tracked (fun other member entry inside => .inr ?_)
      (fun entry member => mem_flatMap.mp member) tidy.done nofun
    · simp [unapplied, Flusher.todo, idle, pending]
    · exact mem_flatMap_of_mem member inside
  · rename_i batch submission channel gathered pending
    intro tracked
    refine tidy.move rfl rfl ?_ (.refl _) tracked (fun other member entry inside => .inr ?_)
      (fun entry member => mem_flatMap.mp member) tidy.done nofun
    · simp [unapplied, Flusher.todo, gathered, pending]
    · exact mem_flatMap_of_mem member inside
  · exact fun _ => tidy

theorem Tidy.sync (durable : Bool) : (threads.sync durable).Tidy := by
  have tracked := threads.sync_tracked durable
  revert tracked
  unfold Threads.sync
  split
  · rename_i batch gathered
    split
    · intro tracked
      refine tidy.move rfl rfl ?_ (.refl _) tracked (fun other member entry inside => .inr ?_)
        (fun entry member => mem_flatMap.mp member) tidy.done nofun
      · simp [unapplied, Flusher.todo, gathered]
      · exact mem_flatMap_of_mem member inside
    · intro tracked
      refine tidy.move rfl rfl ?_ (.refl _) tracked nofun nofun tidy.done nofun
      simp [unapplied, Flusher.todo]
  · exact fun _ => tidy

theorem Tidy.complete : threads.complete.Tidy := by
  have tracked := threads.complete_tracked
  revert tracked
  unfold Threads.complete
  split
  · rename_i batch applying
    intro tracked
    refine tidy.move rfl rfl ?_ (.refl _) tracked nofun nofun ?_ nofun
    · simp [unapplied, Flusher.todo]
    · refine forall_mem_append.mpr ⟨tidy.done, fun other new => ?_⟩
      intro entry inside
      have place := tidy.batch other (by rw [applying]; exact new) entry inside
      rw [applying] at place
      exact place.resolve_right (by simp [Flusher.todo])
  · exact fun _ => tidy

theorem Tidy.applyEntry : threads.applyEntry.Tidy := by
  have tracked := threads.applyEntry_tracked
  revert tracked
  unfold Threads.applyEntry
  split
  · rename_i batch entry todo applying
    intro tracked
    have shape : threads.unapplied = entry :: unapplied { threads with
        node := threads.node.applyEntry entry, flusher := .publishing batch entry.seq todo } := by
      simp [unapplied, Flusher.todo, applying]
    have pending : entry ∈ threads.unapplied := shape ▸ mem_cons_self
    obtain ⟨first, ascending⟩ := pairwise_cons.mp (shape ▸ tidy.ascending)
    have grown : ∀ {other}, other ∈ (threads.node.applyEntry entry).memtable.entries ↔
        other = entry ∨ other ∈ threads.node.memtable.entries := by
      intro other
      apply mem_insertVersion threads.node.memtable.ordered
      intro taken member same
      exact absurd (Entry.internalKey_inj.mp same).2 ((tidy.fresh taken member).2 entry pending)
    have below := tidy.below pending
    refine ⟨fun other member => tidy.known other (tracked member), fun other member version inside => ?_,
      fun version member => ?_,
      fun other member version inside => grown.mpr (.inr (tidy.done other member version inside)),
      fun version member => tidy.ahead version (shape ▸ mem_cons_of_mem _ member), ascending, tidy.waiting,
      fun version member => ?_, ?_, tidy.metas, tidy.applied⟩
    · have place := tidy.batch other (by rw [applying]; exact member) version inside
      rw [applying] at place
      rcases place with applied | pending
      · exact .inl (grown.mpr (.inr applied))
      · rcases mem_cons.mp pending with rfl | later
        · exact .inl (grown.mpr (.inl rfl))
        · exact .inr later
    · have source := tidy.todo version (by rw [applying]; exact mem_cons_of_mem _ member)
      rwa [applying] at source
    · rcases grown.mp member with rfl | before
      · exact ⟨below, fun other pending => ne_of_lt (first other pending)⟩
      · obtain ⟨old, different⟩ := tidy.fresh version before
        exact ⟨old, fun other pending => different other (shape ▸ mem_cons_of_mem _ pending)⟩
    · intro batch' seq todo' here
      cases here
      exact ⟨below, first⟩
  · exact fun _ => tidy

theorem Tidy.publish : threads.publish.Tidy := by
  have tracked := threads.publish_tracked
  revert tracked
  unfold Threads.publish
  split
  · rename_i batch seq todo here
    intro tracked
    obtain ⟨below, later⟩ := tidy.publishing batch seq todo here
    have same : unapplied { threads with
        node := threads.node.advance seq, flusher := .applying batch todo } = threads.unapplied := by
      simp [unapplied, Flusher.todo, here]
    have inBatch := tidy.batch
    have source := tidy.todo
    rw [here] at inBatch source
    refine ⟨fun other member => tidy.known other (tracked member), inBatch, source, tidy.done, fun entry member => ?_,
      same ▸ tidy.ascending, tidy.waiting, fun version member => ?_, nofun,
      tidy.metas, Nat.max_lt.mpr ⟨tidy.applied, below⟩⟩
    · rw [same] at member
      exact Nat.max_lt.mpr ⟨tidy.ahead entry member, later entry member⟩
    · rw [same]
      exact tidy.fresh version member
  · exact fun _ => tidy

theorem Tidy.step {action : Action} (inOrder : threads.InOrder action) : (threads.step action).Tidy := by
  cases action with
  | allocate command => exact tidy.allocate inOrder
  | advance index => exact tidy.advance inOrder
  | enqueue index => exact tidy.enqueue inOrder
  | receive => exact tidy.receive
  | sync durable => exact tidy.sync durable
  | applyEntry => exact tidy.applyEntry
  | publish => exact tidy.publish
  | complete => exact tidy.complete

end Threads

/-- What recovery hands to a node: all versions lie below the next index. -/
structure Recovered where
  memtable : Memtable
  nextIndex : Nat
  below : ∀ version ∈ memtable.entries, version.seq < nextIndex

namespace Recovered

def threads (recovered : Recovered) : Threads :=
  .start (.create recovered.memtable recovered.nextIndex)

theorem threads_tidy (recovered : Recovered) : recovered.threads.Tidy := by
  apply start_tidy
  · simp only [LocalRaftNode.create]
    omega
  · intro version member
    exact lt_of_lt_of_le (recovered.below version member) (le_max_left _ _)

/-- In a run in order, a snapshot at `last_applied` already holds every write up to there. -/
theorem snapshot_complete (recovered : Recovered) {actions : List Action}
    (inOrder : Along step InOrder recovered.threads actions) :
    (run step recovered.threads actions).VisibleNow := by
  apply Tidy.visibleNow
  exact inOrder.invariant recovered.threads_tidy (fun _ _ tidy here => tidy.step here)

def fresh : Recovered := ⟨.empty, 1, fun _ member => by cases member⟩

/-- Two writers, the first of which is acknowledged after both have run. -/
theorem snapshot_complete_twoWriters :
    Along step InOrder fresh.threads
        [.allocate (.put ⟨[97]⟩ ⟨[1]⟩), .allocate (.delete ⟨[98]⟩), .enqueue 1, .enqueue 2, .receive, .receive,
          .sync true, .applyEntry, .publish] ∧
      (run step fresh.threads
        [.allocate (.put ⟨[97]⟩ ⟨[1]⟩), .allocate (.delete ⟨[98]⟩), .enqueue 1, .enqueue 2, .receive, .receive,
          .sync true, .applyEntry, .publish]).VisibleNow :=
  ⟨by decide +kernel, snapshot_complete fresh (by decide +kernel)⟩

def tornTransaction : List Action :=
  [.allocate (.txnBatch [(⟨[97]⟩, some ⟨[1]⟩), (⟨[98]⟩, some ⟨[2]⟩)]), .enqueue 1, .receive, .sync true,
    .applyEntry, .publish]

def overtakenWriter : List Action :=
  [.allocate (.put ⟨[97]⟩ ⟨[1]⟩), .allocate (.put ⟨[98]⟩ ⟨[2]⟩), .enqueue 2, .receive, .sync true,
    .applyEntry, .publish]

def overtakingMeta : List Action :=
  [.allocate (.put ⟨[97]⟩ ⟨[1]⟩), .allocate .noop, .advance 2]

theorem snapshot_incomplete :
    ¬ (run step fresh.threads tornTransaction).VisibleNow ∧
      ¬ (run step fresh.threads overtakenWriter).VisibleNow ∧
      ¬ (run step fresh.threads overtakingMeta).VisibleNow := by
  refine ⟨fun visible => ?_, fun visible => ?_, fun visible => ?_⟩
  · have included := visible [.applyEntry, .publish, .complete]
      ⟨1, [.put ⟨[97]⟩ ⟨[1]⟩ 1, .put ⟨[98]⟩ ⟨[2]⟩ 1]⟩ (by decide +kernel) (by decide +kernel)
      (.put ⟨[98]⟩ ⟨[2]⟩ 1) (by decide)
    revert included
    decide +kernel
  · have included := visible [.complete, .enqueue 1, .receive, .sync true, .applyEntry, .publish, .complete]
      ⟨1, [.put ⟨[97]⟩ ⟨[1]⟩ 1]⟩ (by decide +kernel) (by decide +kernel) (.put ⟨[97]⟩ ⟨[1]⟩ 1) (by decide)
    revert included
    decide +kernel
  · have included := visible [.enqueue 1, .receive, .sync true, .applyEntry, .publish, .complete]
      ⟨1, [.put ⟨[97]⟩ ⟨[1]⟩ 1]⟩ (by decide +kernel) (by decide +kernel) (.put ⟨[97]⟩ ⟨[1]⟩ 1) (by decide)
    revert included
    decide +kernel

end Recovered

end Takyonic
