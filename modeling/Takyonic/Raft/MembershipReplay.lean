import Takyonic.Raft.StoreEntries

namespace Takyonic

open Foundation List ClusterMembership

namespace ClusterMembership

theorem ext_cells {first second : ClusterMembership} (members : ∀ id, id ∈ first.members ↔ id ∈ second.members)
    (endpoints : ∀ id, first.endpoints.lookup id = second.endpoints.lookup id) : first = second := by
  obtain ⟨firstMembers, firstEndpoints⟩ := first
  obtain ⟨secondMembers, secondEndpoints⟩ := second
  congr 1
  · exact Finset.ext members
  · exact Finmap.ext_lookup endpoints

end ClusterMembership

theorem applyConfigTo_writes_member (command : RaftCommand) (id : Nat) :
    Writes (fun live : ClusterMembership => id ∈ live.members) (fun live => applyConfigTo live command) := by
  cases command with
  | addNode added address =>
    by_cases same : id = added
    · exact .inr ⟨True, fun live => by simp [applyConfigTo, addNode, same]⟩
    · exact .inl (fun live => by simp [applyConfigTo, addNode, same])
  | removeNode removed =>
    by_cases same : id = removed
    · exact .inr ⟨False, fun live => by simp [applyConfigTo, removeNode, same]⟩
    · exact .inl (fun live => by simp [applyConfigTo, removeNode, same])
  | _ => exact .inl (fun _ => rfl)

theorem applyConfigTo_writes_endpoint (command : RaftCommand) (id : Nat) :
    Writes (fun live : ClusterMembership => live.endpoints.lookup id) (fun live => applyConfigTo live command) := by
  cases command with
  | addNode added address =>
    by_cases same : id = added
    · subst same
      exact .inr ⟨some address, fun live => Finmap.lookup_insert _⟩
    · exact .inl (fun live => Finmap.lookup_insert_of_ne _ same)
  | _ => exact .inl (fun _ => rfl)

namespace RaftConsensus

theorem foldConfig_append (membership : ClusterMembership) (first second : List RaftLogEntry) :
    foldConfig membership (first ++ second) = foldConfig (foldConfig membership first) second :=
  foldl_append

theorem foldConfig_cons (membership : ClusterMembership) (entry : RaftLogEntry) (rest : List RaftLogEntry) :
    foldConfig membership (entry :: rest) = foldConfig (foldConfig membership [entry]) rest := rfl

theorem foldConfig_quiet (membership : ClusterMembership) {entries : List RaftLogEntry}
    (quiet : ∀ entry ∈ entries, RaftCommand.changesConfig entry.command = false) :
    foldConfig membership entries = membership := by
  induction entries generalizing membership with
  | nil => rfl
  | cons entry rest ih =>
    have here := quiet entry mem_cons_self
    rw [foldConfig_cons, ih _ (fun later member => quiet later (mem_cons_of_mem _ member))]
    unfold foldConfig RaftCommand.changesConfig at *
    simp only [foldl_cons]
    split
    · rename_i command decoded
      rw [decoded] at here
      cases command <;> first | rfl | cases here
    · rfl

def applyEntry (live : ClusterMembership) (entry : RaftLogEntry) : ClusterMembership :=
  match RaftCommand.decode entry.command with
  | .ok command => applyConfigTo live command
  | .error _ => live

theorem applyEntry_writes {ν : Type} {cell : ClusterMembership → ν}
    (writes : ∀ command, Writes cell (fun live => applyConfigTo live command)) (entry : RaftLogEntry) :
    Writes cell (fun live => applyEntry live entry) := by
  unfold applyEntry
  split
  · exact writes _
  · exact .inl (fun _ => rfl)

theorem foldConfig_rebase {base boot : ClusterMembership} (mid post : List RaftLogEntry)
    (same : foldConfig base post = foldConfig boot (mid ++ post)) :
    foldConfig base (mid ++ post) = foldConfig boot (mid ++ post) := by
  have member (id : Nat) := Writes.rebase (fun live : ClusterMembership => id ∈ live.members)
    (applyEntry_writes (fun command => applyConfigTo_writes_member command id)) mid post
    (congrArg (fun live => id ∈ live.members) same)
  have endpoint (id : Nat) := Writes.rebase (fun live : ClusterMembership => live.endpoints.lookup id)
    (applyEntry_writes (fun command => applyConfigTo_writes_endpoint command id)) mid post
    (congrArg (fun live => live.endpoints.lookup id) same)
  exact ext_cells (fun id => Iff.of_eq (member id)) endpoint

end RaftConsensus

namespace RaftLog

/-- Everything the log has kept since bootstrap: what it has compacted, then what it holds. -/
def whole (log : RaftLog) : List RaftLogEntry := log.compacted ++ log.entries

variable {log log' : RaftLog} {index term : Nat}

theorem compacted_length (holds : Holds log log.whole) :
    log.compacted.length = log.snapshot.lastIncludedIndex := by
  have lengths := congrArg List.length holds.entries
  have inside := holds.inside
  simp only [whole, length_drop, length_append] at lengths inside
  omega

theorem whole_extend (batch : List RaftLogEntry) : (log.extend batch).whole = log.whole ++ batch :=
  (append_assoc _ _ _).symm

theorem whole_compactThrough (holds : Holds log log.whole)
    (compacted : log.compactThrough index term = .ok log') : log'.whole = log.whole := by
  unfold compactThrough at compacted
  split at compacted
  · cases compacted
    rfl
  split at compacted
  · cases compacted
    rfl
  split at compacted
  · cases compacted
  · cases compacted
    show log.compacted ++ log.entries.filter (fun entry => entry.index ≤ index) ++
      log.entries.filter (fun entry => index + 1 ≤ entry.index) = log.whole
    rw [holds.held.filter_through, holds.held.filter_from, append_assoc, take_append_drop]
    rfl

theorem whole_truncateAfter (holds : Holds log log.whole) (retained : log.snapshot.lastIncludedIndex ≤ index) :
    (log.truncateAfter index).whole = log.whole.take index := by
  show log.compacted ++ log.entries.filter (fun entry => entry.index ≤ index) = _
  have length := compacted_length holds
  have held : index + 1 - (log.snapshot.lastIncludedIndex + 1) = index - log.compacted.length := by omega
  have before : log.compacted.length ≤ index := by omega
  rw [holds.held.filter_through, whole, take_append, take_of_length_le before, held]

end RaftLog

namespace RaftConsensus

variable {node node' first second third : RaftConsensus} {io : Io}

/-- Bookkeeping of the membership leaves the base, the applied and the commit index alone and moves the
    snapshot boundary to the applied index at most. `MEMBERSHIP.meta` stays current if it was. -/
structure Bookkeeping (io : Io) (node node' : RaftConsensus) : Prop where
  base : node'.state.baseMembership = node.state.baseMembership
  engine : node'.engine = node.engine
  commit : node'.state.commitIndex = node.state.commitIndex
  boundary : node'.log.snapshot.lastIncludedIndex ≤ max node.log.snapshot.lastIncludedIndex node.engine.lastApplied
  file : io.membershipWrite = true → node.membershipFile = some node.state.membership →
    node'.membershipFile = some node'.state.membership

theorem Bookkeeping.trans (before : Bookkeeping io first second)
    (after : Bookkeeping io second third) : Bookkeeping io first third where
  base := after.base.trans before.base
  engine := after.engine.trans before.engine
  commit := after.commit.trans before.commit
  boundary := by
    have first := before.boundary
    have second := after.boundary
    rw [before.engine] at second
    omega
  file := fun written current => after.file written (before.file written current)

structure Frame (io : Io) (node node' : RaftConsensus) : Prop extends Bookkeeping io node node' where
  whole : Holds node.log node.log.whole → Holds node'.log node'.log.whole ∧ node'.log.whole = node.log.whole

namespace Frame

theorem of_eq (base : node'.state.baseMembership = node.state.baseMembership)
    (engine : node'.engine = node.engine) (commit : node'.state.commitIndex = node.state.commitIndex)
    (log : node'.log = node.log) (membership : node'.state.membership = node.state.membership)
    (file : node'.membershipFile = node.membershipFile) : Frame io node node' where
  base := base
  engine := engine
  commit := commit
  whole := by
    rw [log]
    exact fun holds => ⟨holds, rfl⟩
  boundary := by
    rw [log]
    exact le_max_left _ _
  file := by
    rw [membership, file]
    exact fun _ current => current

theorem refl (io : Io) (node : RaftConsensus) : Frame io node node := .of_eq rfl rfl rfl rfl rfl rfl

theorem trans (before : Frame io first second) (after : Frame io second third) : Frame io first third where
  toBookkeeping := before.toBookkeeping.trans after.toBookkeeping
  whole := by
    intro holds
    obtain ⟨middle, same⟩ := before.whole holds
    obtain ⟨last, sameLast⟩ := after.whole middle
    exact ⟨last, sameLast.trans same⟩

theorem written {state : SoftState} (base : state.baseMembership = node.state.baseMembership)
    (commit : state.commitIndex = node.state.commitIndex) :
    Frame io node (writeMembership { node with state := state } io) := by
  unfold writeMembership
  split
  · exact { base := base, engine := rfl, commit := commit, whole := fun holds => ⟨holds, rfl⟩,
            boundary := le_max_left _ _, file := fun _ _ => rfl }
  · rename_i failed
    exact { base := base, engine := rfl, commit := commit, whole := fun holds => ⟨holds, rfl⟩,
            boundary := le_max_left _ _, file := fun written => absurd written failed }

theorem compact {term : Nat} {log : RaftLog}
    (compacted : node.log.compactThrough node.engine.lastApplied term = .ok log) :
    Frame io node { node with log := log } where
  base := rfl
  engine := rfl
  commit := rfl
  whole := by
    intro holds
    have same := RaftLog.whole_compactThrough holds compacted
    exact ⟨same ▸ holds.compactThrough compacted, same⟩
  boundary := RaftLog.compactThrough_le compacted (le_max_right _ _) (le_max_left _ _)
  file := fun _ current => current

end Frame

theorem Upkeep.frame (upkeep : Upkeep io node node') : Frame io node node' := by
  induction upkeep with
  | refl => exact .refl io node
  | tail _ move ih =>
    refine ih.trans ?_
    cases move with
    | compact compacted => exact .compact compacted
    | write progress => exact .written rfl rfl

theorem ensureBoundary_state (command : RaftCommand) :
    (node.ensureBoundary io command).state = node.state := by
  unfold ensureBoundary compactApplied
  repeat' split
  all_goals rfl

theorem writeMembership_state : (node.writeMembership io).state = node.state := by
  unfold writeMembership
  split <;> rfl

theorem applyConfigChangeImmediate_membership (command : RaftCommand) :
    (node.applyConfigChangeImmediate io command).state.membership = applyConfigTo node.state.membership command := by
  unfold applyConfigChangeImmediate
  dsimp only
  rw [ensureBoundary_state]
  split
  · rename_i same
    rw [ensureBoundary_state, same]
  obtain ⟨nextIndex, matchIndex, _, shape⟩ := reseedCursors_frame
    { node.state with
      membership := applyConfigTo node.state.membership command
      membershipGen := node.state.membershipGen + 1 }
    (node.ensureBoundary io command).log.snapshotMeta.lastIncludedIndex command
  rw [writeMembership_state, shape]

theorem applyConfigTo_other {command : RaftCommand} (other : command.isConfigChange = false)
    (live : ClusterMembership) : applyConfigTo live command = live := by
  cases command <;> first | rfl | cases other

theorem applyAppendedConfigChanges_membership (entries : List RaftLogEntry) :
    (node.applyAppendedConfigChanges io entries).state.membership = foldConfig node.state.membership entries := by
  unfold applyAppendedConfigChanges foldConfig
  induction entries generalizing node with
  | nil => rfl
  | cons entry rest ih =>
    rw [foldl_cons, ih, foldl_cons]
    congr 1
    split
    · split
      · exact applyConfigChangeImmediate_membership _
      · rename_i other
        exact (applyConfigTo_other (Bool.not_eq_true _ ▸ other) _).symm
    · rfl

theorem rebuildMembershipFromLog_membership (holds : Holds node.log node.log.whole) :
    (node.rebuildMembershipFromLog io).state.membership =
      foldConfig node.state.baseMembership (node.log.whole.drop node.log.snapshot.lastIncludedIndex) := by
  unfold rebuildMembershipFromLog
  dsimp only
  rw [RaftLog.snapshotMeta, holds.entriesFrom (le_of_eq (Nat.add_sub_cancel ..).symm), Nat.add_sub_cancel]
  split
  · assumption
  · rw [writeMembership_state]

theorem maybeCompact_membership : (node.maybeCompact io).1.state.membership = node.state.membership := by
  unfold maybeCompact
  repeat' split
  all_goals try rfl
  rw [writeMembership_state]

theorem buildInstallSnapshot_membership :
    (node.buildInstallSnapshot io).1.state.membership = node.state.membership := by
  unfold buildInstallSnapshot
  split
  · rfl
  split
  · rfl
  rename_i bounded forced
  have same : bounded.state.membership = node.state.membership := by
    unfold forceBoundary at forced
    repeat' split at forced
    all_goals cases forced <;> rfl
  dsimp only
  repeat' split
  all_goals exact same

end RaftConsensus

end Takyonic
