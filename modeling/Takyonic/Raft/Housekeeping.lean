import Takyonic.Raft.Consensus

namespace Takyonic

section

variable {first second third role : Role}

theorem Role.was (kept : second = first ∨ first = .leader ∧ second = .follower) (now : second = role)
    (active : role ≠ .follower) : first = role := by
  rcases kept with same | ⟨_, retired⟩
  · exact same.symm.trans now
  · exact absurd (now.symm.trans retired) active

theorem Role.kept_trans (before : second = first ∨ first = .leader ∧ second = .follower)
    (after : third = second ∨ second = .leader ∧ third = .follower) :
    third = first ∨ first = .leader ∧ third = .follower := by
  rcases after with same | ⟨led, retired⟩
  · rwa [same]
  · exact .inr ⟨Role.was before led nofun, retired⟩

end

namespace RaftLog

/-- Some number of successful `compact_through` calls. -/
def Compacts : RaftLog → RaftLog → Prop :=
  Relation.ReflTransGen (fun log log' => ∃ index term, log.compactThrough index term = .ok log')

variable {log log' : RaftLog} {index term : Nat}

theorem Compacts.preserve {P : RaftLog → Prop} (compacts : Compacts log log') (holds : P log)
    (preserved : ∀ before after index term, P before →
      before.compactThrough index term = .ok after → P after) : P log' := by
  induction compacts with
  | refl => exact holds
  | tail _ last ih =>
    obtain ⟨index, term, compacted⟩ := last
    exact preserved _ _ _ _ ih compacted

theorem compactThrough_boundary (compacted : log.compactThrough index term = .ok log') :
    log.snapshot.lastIncludedIndex ≤ log'.snapshot.lastIncludedIndex := by
  unfold compactThrough at compacted
  split at compacted
  · cases compacted
    exact le_rfl
  split at compacted
  · cases compacted
    exact le_rfl
  split at compacted
  · cases compacted
  · cases compacted
    dsimp only
    omega

theorem compactThrough_le {bound : Nat} (compacted : log.compactThrough index term = .ok log')
    (inside : index ≤ bound) (before : log.snapshot.lastIncludedIndex ≤ bound) :
    log'.snapshot.lastIncludedIndex ≤ bound := by
  unfold compactThrough at compacted
  split at compacted
  · cases compacted
    exact before
  split at compacted
  · cases compacted
    exact before
  split at compacted
  · cases compacted
  · cases compacted
    exact inside

end RaftLog

namespace Engine

variable {bound : Nat} {batch : List CommittedEntry}

theorem applyLog_le (current : Nat) {applied : Nat} (expected : Nat) (before : applied ≤ bound)
    (inside : ∀ committed ∈ batch, committed.index ≤ bound) :
    (applyLog current applied expected batch).1 ≤ bound := by
  induction batch generalizing applied expected with
  | nil => exact before
  | cons committed rest ih =>
    have here := inside committed (by simp)
    have later : ∀ committed ∈ rest, committed.index ≤ bound :=
      fun other member => inside other (List.mem_cons_of_mem _ member)
    unfold applyLog
    split
    · exact ih expected before later
    · split
      · exact before
      · exact ih _ (Nat.max_le.mpr ⟨before, here⟩) later

theorem applyCommitted_le (io : Io) {engine : Engine} (before : engine.lastApplied ≤ bound)
    (inside : ∀ committed ∈ batch, committed.index ≤ bound) :
    (engine.applyCommitted io batch).1.lastApplied ≤ bound := by
  have applied := applyLog_le engine.lastApplied (engine.lastApplied + 1) before inside
  unfold applyCommitted
  split
  · exact before
  split
  · exact before
  split
  all_goals
    rename_i result
    rw [result] at applied
    exact applied

end Engine

namespace RaftConsensus

variable {log : RaftLog}

theorem committedBatch_le {start count : Nat} {batch : List CommittedEntry}
    (read : committedBatch log start count = .ok batch) :
    ∀ committed ∈ batch, committed.index < start + count := by
  induction count generalizing start batch with
  | zero =>
    cases read
    simp
  | succ count ih =>
    unfold committedBatch at read
    split at read
    · cases read
      simp
    rename_i entry _
    cases decoded : RaftCommand.decode entry.command with
    | error => simp [decoded, bind, Except.bind] at read
    | ok command =>
      cases later : committedBatch log (start + 1) count with
      | error => simp [decoded, later, bind, Except.bind] at read
      | ok rest =>
        simp only [decoded, later, bind, Except.bind, pure, Except.pure, Except.ok.injEq] at read
        subst read
        intro committed member
        rcases List.mem_cons.mp member with rfl | member
        · dsimp only
          omega
        · have := ih later committed member
          omega

def Within (node : RaftConsensus) (bound : Nat) : Prop :=
  node.state.commitIndex ≤ bound ∧ node.engine.lastApplied ≤ bound ∧
    node.log.snapshot.lastIncludedIndex ≤ bound

structure Routine (node node' : RaftConsensus) : Prop where
  id : node'.id = node.id
  term : node'.state.currentTerm = node.state.currentTerm
  vote : node'.state.votedFor = node.state.votedFor
  commit : node'.state.commitIndex = node.state.commitIndex
  pending : node'.state.pending = node.state.pending
  role : node'.state.role = node.state.role ∨
    node.state.role = .leader ∧ node'.state.role = .follower
  progress : ∀ peer n, node'.state.matchIndex peer = some n → n = 0 ∨ node.state.matchIndex peer = some n
  boundary : node.log.snapshot.lastIncludedIndex ≤ node'.log.snapshot.lastIncludedIndex
  within : ∀ bound, node.Within bound → node'.Within bound

variable {third first node node' second : RaftConsensus}

structure Housekeeping (node node' : RaftConsensus) : Prop extends Routine node node' where
  log : RaftLog.Compacts node.log node'.log

section

variable (id : node'.id = node.id) (term : node'.state.currentTerm = node.state.currentTerm)
  (vote : node'.state.votedFor = node.state.votedFor) (commit : node'.state.commitIndex = node.state.commitIndex)
  (pending : node'.state.pending = node.state.pending) (role : node'.state.role = node.state.role)
  (progress : node'.state.matchIndex = node.state.matchIndex) (engine : node'.engine = node.engine)
include id term vote commit pending role progress engine

theorem Routine.of_eq (boundary : node'.log.snapshot = node.log.snapshot) : Routine node node' where
  id := id
  term := term
  vote := vote
  commit := commit
  pending := pending
  role := .inl role
  progress := fun _ _ known => .inr (progress ▸ known)
  boundary := by rw [boundary]
  within := by
    intro bound within
    unfold Within
    rw [commit, engine, boundary]
    exact within

theorem Housekeeping.of_eq (log : node'.log = node.log) : Housekeeping node node' :=
  ⟨.of_eq id term vote commit pending role progress engine (by rw [log]), log ▸ .refl⟩

end

namespace Routine

theorem refl (node : RaftConsensus) : Routine node node :=
  .of_eq rfl rfl rfl rfl rfl rfl rfl rfl rfl

theorem trans (before : Routine first second) (after : Routine second third) : Routine first third where
  id := after.id.trans before.id
  term := after.term.trans before.term
  vote := after.vote.trans before.vote
  commit := after.commit.trans before.commit
  pending := after.pending.trans before.pending
  role := Role.kept_trans before.role after.role
  progress := by
    intro peer n known
    rcases after.progress peer n known with zero | known
    · exact .inl zero
    · exact before.progress peer n known
  boundary := before.boundary.trans after.boundary
  within := fun bound within => after.within bound (before.within bound within)

end Routine

namespace Housekeeping

theorem refl (node : RaftConsensus) : Housekeeping node node := ⟨.refl node, .refl⟩

theorem trans (before : Housekeeping first second) (after : Housekeeping second third) : Housekeeping first third :=
  ⟨before.toRoutine.trans after.toRoutine, before.log.trans after.log⟩

end Housekeeping

variable (node : RaftConsensus) (io : Io)

theorem writeMembership_housekeeping : Housekeeping node (node.writeMembership io) := by
  unfold writeMembership
  split
  · exact .of_eq rfl rfl rfl rfl rfl rfl rfl rfl rfl
  · exact .refl node

/-- One move of the upkeep of log and membership. -/
inductive Move (io : Io) (node : RaftConsensus) : RaftConsensus → Prop
  | compact {log : RaftLog} {term : Nat}
      (compacted : node.log.compactThrough node.engine.lastApplied term = .ok log) : Move io node { node with log }
  | write {membership : ClusterMembership} {membershipGen : Nat} {nextIndex matchIndex : Nat → Option Nat}
      (progress : ∀ peer n, matchIndex peer = some n → n = 0 ∨ node.state.matchIndex peer = some n) :
      Move io node (writeMembership { node with
        state := { node.state with membership, membershipGen, nextIndex, matchIndex } } io)

def Upkeep (io : Io) : RaftConsensus → RaftConsensus → Prop := Relation.ReflTransGen (Move io)

variable {io} {node' : RaftConsensus}

theorem Move.housekeeping (move : Move io node node') : Housekeeping node node' := by
  cases move with
  | compact compacted =>
    exact { id := rfl, term := rfl, vote := rfl, commit := rfl, pending := rfl, role := .inl rfl
            progress := fun _ _ known => .inr known
            boundary := RaftLog.compactThrough_boundary compacted
            within := fun _ within =>
              ⟨within.1, within.2.1, RaftLog.compactThrough_le compacted within.2.1 within.2.2⟩
            log := .single ⟨_, _, compacted⟩ }
  | write progress =>
    refine .trans ?_ (writeMembership_housekeeping _ io)
    exact { id := rfl, term := rfl, vote := rfl, commit := rfl, pending := rfl, role := .inl rfl,
            log := .refl, progress := progress, boundary := le_rfl,
            within := fun _ within => within }

theorem Upkeep.housekeeping (upkeep : Upkeep io node node') : Housekeeping node node' := by
  induction upkeep with
  | refl => exact .refl node
  | tail _ move ih => exact ih.trans move.housekeeping

variable (io)

theorem ensureBoundary_upkeep (command : RaftCommand) : Upkeep io node (node.ensureBoundary io command) := by
  unfold ensureBoundary compactApplied
  repeat' split
  all_goals first
    | exact .refl
    | exact .single (.compact ‹_›)

theorem reseedCursors_frame (state : SoftState) (snap : Nat) (command : RaftCommand) :
    ∃ nextIndex matchIndex, (∀ peer n, matchIndex peer = some n → n = 0 ∨ state.matchIndex peer = some n) ∧
      reseedCursors state snap command = { state with nextIndex := nextIndex, matchIndex := matchIndex } := by
  have same : ∀ peer n, state.matchIndex peer = some n → n = 0 ∨ state.matchIndex peer = some n :=
    fun _ _ known => .inr known
  unfold reseedCursors
  split
  · split
    · refine ⟨_, _, fun peer n known => ?_, rfl⟩
      rw [Function.update_apply] at known
      split at known
      · exact .inl (Option.some.inj known).symm
      · exact .inr known
    · exact ⟨_, _, same, rfl⟩
  · refine ⟨_, _, fun peer n known => ?_, rfl⟩
    rw [Function.update_apply] at known
    split at known
    · cases known
    · exact .inr known
  · exact ⟨_, _, same, rfl⟩

theorem applyConfigChangeImmediate_upkeep (command : RaftCommand) :
    Upkeep io node (node.applyConfigChangeImmediate io command) := by
  have boundary := ensureBoundary_upkeep node io command
  unfold applyConfigChangeImmediate
  generalize node.ensureBoundary io command = bounded at boundary ⊢
  dsimp only
  split
  · exact boundary
  obtain ⟨nextIndex, matchIndex, progress, frame⟩ := reseedCursors_frame
    { bounded.state with
      membership := applyConfigTo bounded.state.membership command
      membershipGen := bounded.state.membershipGen + 1 }
    bounded.log.snapshotMeta.lastIncludedIndex command
  rw [frame]
  exact boundary.tail (.write progress)

theorem applyAppendedConfigChanges_upkeep (entries : List RaftLogEntry) :
    Upkeep io node (node.applyAppendedConfigChanges io entries) := by
  induction entries generalizing node with
  | nil => exact .refl
  | cons entry rest ih =>
    refine .trans ?_ (ih _)
    dsimp only
    split
    · split
      · exact applyConfigChangeImmediate_upkeep node io _
      · exact .refl
    · exact .refl

theorem rebuildMembershipFromLog_upkeep : Upkeep io node (node.rebuildMembershipFromLog io) := by
  unfold rebuildMembershipFromLog
  dsimp only
  split
  · exact .refl
  · exact .single (.write fun _ _ known => .inr known)

theorem maybeCompact_upkeep : Upkeep io node (node.maybeCompact io).1 := by
  unfold maybeCompact
  repeat' split
  all_goals first
    | exact .refl
    | rename_i compacted
      exact .tail (.single (.compact compacted)) (.write fun _ _ known => .inr known)

theorem noteCommitted_housekeeping (batch : List CommittedEntry) :
    Housekeeping node (node.noteCommitted io batch) := by
  have frozen : Housekeeping node (node.freezeBase io batch) := by
    unfold freezeBase
    split
    · refine .trans ?_ (writeMembership_housekeeping _ io)
      exact .of_eq rfl rfl rfl rfl rfl rfl rfl rfl rfl
    · exact .refl node
  unfold noteCommitted
  generalize node.freezeBase io batch = based at frozen ⊢
  dsimp only
  split
  · refine frozen.trans ?_
    refine { id := rfl, term := rfl, vote := rfl, commit := rfl, pending := rfl, role := ?_,
             log := .refl, progress := fun _ _ known => .inr known, boundary := le_rfl,
             within := fun _ within => within }
    by_cases led : based.state.role = .leader
    · exact .inr ⟨led, by simp [led]⟩
    · exact .inl (by simp [led])
  · exact frozen

theorem applyCommittedTo_housekeeping {commitIndex : Nat} (reached : commitIndex ≤ node.state.commitIndex) :
    Housekeeping node (node.applyCommittedTo io commitIndex).1 := by
  unfold applyCommittedTo
  split
  · exact .refl node
  dsimp only
  split
  · exact .refl node
  rename_i above
  split
  · exact .refl node
  rename_i batch read
  split
  · exact .refl node
  have applied : Housekeeping node { node with engine := (node.engine.applyCommitted io batch).1 } := by
    refine { id := rfl, term := rfl, vote := rfl, commit := rfl, pending := rfl, role := .inl rfl,
             log := .refl, progress := fun _ _ known => .inr known, boundary := le_rfl,
             within := fun bound within => ⟨within.1, ?_, within.2.2⟩ }
    refine Engine.applyCommitted_le io within.2.1 (fun committed member => ?_)
    have := committedBatch_le read committed member
    have := within.1
    omega
  split
  all_goals
    rename_i outcome
    rw [outcome] at applied
  · exact applied
  · exact (applied.trans (noteCommitted_housekeeping _ io _)).trans (maybeCompact_upkeep _ io).housekeeping

theorem applyCommittedTo_membership (commitIndex : Nat) :
    (node.applyCommittedTo io commitIndex).1.state.membership = node.state.membership := by
  have compacts : ∀ node : RaftConsensus, (node.maybeCompact io).1.state.membership = node.state.membership := by
    intro node
    unfold maybeCompact writeMembership
    repeat' split
    all_goals rfl
  have notes : ∀ (node : RaftConsensus) batch,
      (node.noteCommitted io batch).state.membership = node.state.membership := by
    intro node batch
    unfold noteCommitted freezeBase writeMembership
    dsimp only
    repeat' split
    all_goals rfl
  unfold applyCommittedTo
  dsimp only
  repeat' split
  all_goals first
    | rfl
    | rw [compacts, notes]

theorem notifyWaiters_housekeeping : Housekeeping node node.notifyWaiters :=
  .of_eq rfl rfl rfl rfl rfl rfl rfl rfl rfl

end RaftConsensus

end Takyonic
