import Takyonic.Raft.RecordedReplies

namespace Takyonic

open Foundation RaftConsensus Ledger

namespace Cluster

variable {membership : ClusterMembership} {cluster : Cluster} {ledger ledger' : Ledger Nat RaftLogEntry}
  {i peer n index term m : Nat} {log : RaftLog} {node : RaftConsensus}

def Progress (membership : ClusterMembership) (ledger : Ledger Nat RaftLogEntry) (i term : Nat)
    (matchIndex : Nat → Option Nat) : Prop :=
  ∀ peer ∈ membership.members, ∀ m, matchIndex peer = some m → m = 0 ∨ peer = i ∨ (peer, term, m) ∈ ledger.acks

theorem Progress.update {matchIndex : Nat → Option Nat} {value : Option Nat}
    (progress : Progress membership ledger i term matchIndex)
    (known : ∀ m, value = some m → m = 0 ∨ peer = i ∨ (peer, term, m) ∈ ledger.acks) :
    Progress membership ledger i term (Function.update matchIndex peer value) := by
  intro other member m found
  by_cases same : other = peer
  · subst same
    rw [Function.update_self] at found
    exact known m found
  · rw [Function.update_of_ne same] at found
    exact progress other member m found

theorem termAt_some {full : List RaftLogEntry} (represents : Represents log full) (positive : 0 < n)
    (found : log.termAt n = some term) : ∃ entry, full[n - 1]? = some entry ∧ entry.term = term := by
  have retained : log.snapshot.lastIncludedIndex ≤ n := by
    by_contra below
    rw [RaftLog.termAt_compacted (by omega) (by omega)] at found
    cases found
  rw [represents.termAt positive retained] at found
  exact Option.map_eq_some_iff.mp found

theorem advanceCommitIndex_certified (complete : ledger.Complete RaftLogEntry.term membership.Quorum)
    {state : SoftState} (represents : Represents log (ledger.log i)) (term : ledger.term i = state.currentTerm)
    (led : ledger.leader (ledger.term i) = some i) (fixed : state.membership = membership)
    (progress : Progress membership ledger i state.currentTerm state.matchIndex) :
    let after := advanceCommitIndex log i state
    ∃ ledger', Relation.ReflTransGen (Move RaftLogEntry.term membership.Quorum) ledger ledger' ∧
      ledger'.toView = ledger.toView ∧
      Progress membership ledger' i state.currentTerm after.matchIndex ∧
      (after.commitIndex = state.commitIndex ∧ ledger'.commits = ledger.commits ∨
        state.commitIndex < after.commitIndex ∧
          ledger'.commits = insert (state.currentTerm, after.commitIndex - 1) ledger.commits) := by
  obtain ⟨base, n, advanced, shape, known⟩ := advanceCommitIndex_spec log i state
  have progress : Progress membership ledger i state.currentTerm base.matchIndex := by
    rcases shape with rfl | ⟨_, rfl⟩
    · exact progress
    · unfold matchSelf
      split
      · exact progress.update (fun _ _ => .inr (.inl rfl))
      · exact progress
  rw [advanced]
  rcases known with rfl | ⟨_, rfl, above, inside, current, counted⟩
  · exact ⟨ledger, .refl, rfl, progress, .inl ⟨rfl, rfl⟩⟩
  have own : ledger.log i = ledger.leaderLog (ledger.term i) := complete.sound.own i led
  have acked : Move RaftLogEntry.term membership.Quorum ledger (ledger.ack i log.lastIndex) := by
    refine .ack ledger i _ (by rw [led]; rfl) ?_ ?_
    · rw [← own, represents.lastIndex]
    · rw [← own]
      exact List.take_prefix _ _
  have members : (matchSelf log i state).membership = membership := by
    unfold matchSelf
    split <;> exact fixed
  have certified : (ledger.ack i log.lastIndex).Certified RaftLogEntry.term membership.Quorum
      ((ledger.ack i log.lastIndex).term i) (n - 1) := by
    refine ⟨?_, ?_, membership.members.filter
      (fun peer => n ≤ ((matchSelf log i state).matchIndex peer).getD 0), ⟨?_, ?_⟩, ?_⟩
    · show (ledger.leader (ledger.term i)).isSome
      rw [led]
      rfl
    · show ∃ entry, (ledger.leaderLog (ledger.term i))[n - 1]? = some entry ∧ entry.term = ledger.term i
      rw [← own, term]
      exact termAt_some represents (by omega) current
    · exact Finset.filter_subset _ _
    · rw [fixed, countMatch, members] at counted
      exact counted
    · intro peer member
      obtain ⟨member, matched⟩ := Finset.mem_filter.mp member
      cases found : (matchSelf log i state).matchIndex peer with
      | none =>
        rw [found] at matched
        exact absurd matched (by simp only [Option.getD_none]; omega)
      | some m =>
        rw [found, Option.getD_some] at matched
        rcases progress peer member m found with zero | rfl | ack
        · omega
        · exact ⟨log.lastIndex, by omega, Set.mem_insert _ _⟩
        · refine ⟨m, by omega, Set.mem_insert_of_mem _ ?_⟩
          show (peer, ledger.term i, m) ∈ ledger.acks
          rw [term]
          exact ack
  refine ⟨_, .tail (.single acked) (.commit _ i (n - 1) certified), rfl, ?_, .inr ⟨above, ?_⟩⟩
  · intro peer member m found
    exact (progress peer member m found).imp_right (.imp_right (Set.mem_insert_of_mem _ ·))
  · show insert (ledger.term i, n - 1) ledger.commits = _
    rw [term]

section

variable (records : Records membership cluster ledger)
include records

theorem Records.advanced {counted : RaftLog} (mid : RaftConsensus) (leads : (cluster.nodes i).state.role = .leader)
    (moves : Relation.ReflTransGen (Move RaftLogEntry.term membership.Quorum) ledger ledger')
    (leaders : ledger'.leader = ledger.leader) (commits : ledger'.commits = ledger.commits)
    (others : ∀ j, j ≠ i → ledger'.log j = ledger.log j)
    (refines : Refines (cluster.act i node []) ledger'.toView) (id : mid.id = i)
    (term : mid.state.currentTerm = (cluster.nodes i).state.currentTerm)
    (commit : mid.state.commitIndex = (cluster.nodes i).state.commitIndex) (role : mid.state.role ≠ .candidate)
    (within : ∀ bound, (cluster.nodes i).Within bound → mid.Within bound)
    (represents : Represents mid.log (ledger'.log i)) (counts : Represents counted (ledger'.log i))
    (fixed : mid.state.membership = membership)
    (progress : Progress membership ledger' i mid.state.currentTerm mid.state.matchIndex)
    (kept : Housekeeping { mid with state := advanceCommitIndex mid.log mid.id mid.state } node) :
    ∃ ledger', RecordStep membership cluster ledger ledger' i node [] counted := by
  subst id
  have nodeTerm : node.state.currentTerm = mid.state.currentTerm := by
    obtain ⟨matchIndex, n, shape⟩ := advanceCommitIndex_frame mid.log mid.id mid.state
    rw [kept.term, shape]
  have nodeRole : node.state.role ≠ .candidate := by
    obtain ⟨matchIndex, n, shape⟩ := advanceCommitIndex_frame mid.log mid.id mid.state
    intro stands
    have stood := Role.was kept.role stands nofun
    rw [shape] at stood
    exact role stood
  have current : ledger'.term mid.id = mid.state.currentTerm := by
    have current := refines.term mid.id
    rw [act_nodes_self, nodeTerm] at current
    exact current
  have led : ledger'.leader (ledger'.term mid.id) = some mid.id := by
    rw [leaders, current, term]
    exact records.refines.leading _ leads
  obtain ⟨final, counting, view, progress, commitment⟩ := advanceCommitIndex_certified
    (moves_complete moves records.complete) represents current led fixed progress
  have nodeCommit : node.state.commitIndex = (advanceCommitIndex mid.log mid.id mid.state).commitIndex := kept.commit
  rw [← nodeCommit, term, commit, commits] at commitment
  have logs : ∀ j, final.log j = ledger'.log j := fun j => by
    rw [view]
  have recorded : ∀ t c, (t, c) ∈ final.commits → (t, c) ∈ ledger.commits ∨
      t = (cluster.nodes mid.id).state.currentTerm ∧ c = node.state.commitIndex - 1 ∧
        (cluster.nodes mid.id).state.commitIndex < node.state.commitIndex := by
    intro t c noted
    rcases commitment with ⟨_, same⟩ | ⟨above, new⟩
    · rw [same] at noted
      exact .inl noted
    · rw [new] at noted
      rcases Set.mem_insert_iff.mp noted with here | old
      · cases here
        exact .inr ⟨rfl, rfl, above⟩
      · exact .inl old
  refine ⟨final,
    { moves := moves.trans counting, refines := view ▸ refines
      others := fun j other => (logs j).trans (others j other), later := by rw [nodeTerm, term]
      stands := fun stands => absurd stands nodeRole, requests := by simp, grants := by simp
      attested := by simp, progress := ?_, covered := ?_, noted := ?_, commits := ?_, raised := ?_ }⟩
  · intro _ peer member m known
    rcases kept.progress peer m known with zero | known
    · exact .inl zero
    · rw [nodeTerm]
      exact progress peer member m known
  · obtain ⟨bound, covers, inside⟩ := records.covered mid.id
    have grows := moves_grow (moves.trans counting) records.complete
    have covers : Covers final node.state.currentTerm bound := covers.grow (by rw [nodeTerm, term]) grows.commits
    have midWithin := within bound inside
    rcases commitment with ⟨same, _⟩ | ⟨above, new⟩
    · refine ⟨bound, covers, kept.within bound ⟨?_, midWithin.2⟩⟩
      rw [← nodeCommit, same]
      exact inside.1
    have reached : Covers final node.state.currentTerm node.state.commitIndex :=
      .inr ⟨_, _, by rw [new]; exact Set.mem_insert _ _, by rw [nodeTerm, term], by omega⟩
    refine ⟨max bound node.state.commitIndex, covers.max reached, kept.within _ ⟨?_, ?_, ?_⟩⟩
    · rw [← nodeCommit]
      exact le_max_right _ _
    · exact midWithin.2.1.trans (le_max_left _ _)
    · exact midWithin.2.2.trans (le_max_left _ _)
  · intro c _ noted
    rw [nodeTerm, term] at noted
    have monotone : (cluster.nodes mid.id).state.commitIndex ≤ node.state.commitIndex := by
      rcases commitment with ⟨same, _⟩ | ⟨above, _⟩ <;> omega
    rcases recorded _ c noted with old | ⟨_, rfl, above⟩
    · exact (records.noted _ c leads old).trans_le monotone
    · omega
  · intro t c noted
    rcases recorded t c noted with old | ⟨rfl, _⟩
    · exact .inl old
    · exact .inr (records.refines.leading _ leads)
  · intro _ _ raised
    rcases commitment with ⟨same, _⟩ | ⟨_, new⟩
    · omega
    refine ⟨?_, ?_, ?_⟩
    · rw [new, nodeTerm, term]
      exact Set.mem_insert _ _
    · rw [view, nodeTerm, ← current]
      exact led
    · rw [logs mid.id]
      exact counts

section

variable (fixed : (cluster.nodes i).state.membership = membership)
  (acked : (cluster.nodes i).state.role = .leader → (peer, (cluster.nodes i).state.currentTerm, m) ∈ ledger.acks)
include fixed acked

theorem Records.counted (steady : Steady (cluster.nodes i) node)
    (log : RaftLog.Compacts (cluster.nodes i).log node.log)
    (unchanged : (cluster.nodes i).state.role ≠ .leader → node = cluster.nodes i)
    (kept : (cluster.nodes i).state.role = .leader → Housekeeping { cluster.nodes i with
      state := advanceCommitIndex (cluster.nodes i).log (cluster.nodes i).id
        (recordMatch (cluster.nodes i).state peer m) } node) :
    ∃ ledger', RecordStep membership cluster ledger ledger' i node [] (cluster.nodes i).log := by
  by_cases leads : (cluster.nodes i).state.role = .leader
  case neg =>
    rw [unchanged leads]
    exact ⟨_, .housekeeping records (.refl _) nofun⟩
  have represents := records.refines.log i
  have progress : Progress membership (ledger.raise i node.state.currentTerm) i
      (cluster.nodes i).state.currentTerm (cluster.nodes i).state.matchIndex := records.progress i leads
  have moved : Move RaftLogEntry.term membership.Quorum ledger (ledger.raise i node.state.currentTerm) :=
    .raise ledger i _ (by rw [records.refines.term i, steady.term])
  refine records.advanced { cluster.nodes i with state := recordMatch (cluster.nodes i).state peer m }
    leads (.single moved) rfl rfl (fun _ _ => rfl)
    (records.refines.steady steady (represents.compacts log) (by simp)) (records.refines.ids i) rfl rfl ?_
    (fun _ within => within) represents represents fixed ?_ (kept leads)
  · show (cluster.nodes i).state.role ≠ .candidate
    rw [leads]
    decide
  · refine progress.update (fun n same => ?_)
    cases same
    exact .inr (.inr (acked leads))

theorem Records.onAppendSuccess (io : Io) :
    ∃ ledger', RecordStep membership cluster ledger ledger' i ((cluster.nodes i).onAppendSuccess io peer m)
      [] (cluster.nodes i).log := by
  apply records.counted fixed acked (onAppendSuccess_steady _ io peer m) (onAppendSuccess_log _ io peer m)
  · exact fun follows => if_pos follows
  · exact fun leads => onAppendSuccess_advances _ io leads peer m

end

theorem Records.onSnapshotSuccess (fixed : (cluster.nodes i).state.membership = membership)
    (acked : (cluster.nodes i).state.role = .leader →
      (peer, (cluster.nodes i).state.currentTerm, index) ∈ ledger.acks) :
    ∃ ledger', RecordStep membership cluster ledger ledger' i
      ((cluster.nodes i).onSnapshotSuccess peer index) [] (cluster.nodes i).log := by
  apply records.counted fixed acked (onSnapshotSuccess_steady _ peer index) (onSnapshotSuccess_log _ peer index ▸ .refl)
  · exact fun follows => if_pos follows
  · intro leads
    rw [onSnapshotSuccess_advances _ leads]
    exact .refl _

end

theorem appendedLog_snapshot (node : RaftConsensus) : node.appendedLog.snapshot = node.log.snapshot := by
  unfold appendedLog RaftLog.appendCommands
  split <;> rfl

theorem Records.flushPendingProposes (records : Records membership cluster ledger) (io : Io)
    (kept : ((cluster.nodes i).flushPendingProposes io).1.state.membership = membership) :
    ∃ ledger', RecordStep membership cluster ledger ledger' i ((cluster.nodes i).flushPendingProposes io).1
      [] (cluster.nodes i).appendedLog := by
  have steady := flushPendingProposes_steady (cluster.nodes i) io
  rcases flushPendingProposes_cases (cluster.nodes i) io with
    ⟨pending, sent, _, same⟩ | ⟨leads, _, published⟩
  · rw [same]
    have id := records.refines.ids i
    exact ⟨_, .plain records ⟨id, le_rfl, records.refines.log i, rfl,
      fun leads => ⟨leads, rfl, fun _ _ known => .inr known⟩, .inl, fun _ within => within⟩ nofun⟩
  · have positive := records.refines.active i (by rw [leads]; decide)
    obtain ⟨entries, appended, own⟩ := appendedLog_represents (records.refines.log i) positive
    rw [published] at steady kept ⊢
    generalize (cluster.nodes i).log.lastIndex + 1 = start at steady kept ⊢
    have log := appended.compacts (publishProposes_log { cluster.nodes i with
      state := { (cluster.nodes i).state with pending := [] }
      log := (cluster.nodes i).appendedLog } io (cluster.nodes i).state.pending start)
    obtain ⟨led, fresh, refined⟩ := records.refines.appended steady leads log own
    unfold publishProposes at kept refined ⊢
    rw [commitProposes_membership] at kept
    have applied := (applyAppendedConfigChanges_upkeep { cluster.nodes i with
      state := { (cluster.nodes i).state with pending := [] }
      log := (cluster.nodes i).appendedLog } io
      ((List.range' start (cluster.nodes i).state.pending.length).filterMap
        (cluster.nodes i).appendedLog.entry)).housekeeping
    generalize applyAppendedConfigChanges _ io _ = joined at kept refined applied ⊢
    have progress : Progress membership (ledger.append i entries) i (cluster.nodes i).state.currentTerm
        joined.state.matchIndex := by
      intro peer member m known
      rcases applied.progress peer m known with zero | known
      · exact .inl zero
      · exact records.progress i leads peer member m known
    have represents : Represents joined.log ((ledger.append i entries).log i) := by
      have after := appended.compacts applied.log
      simpa [append, View.append] using after
    have counts : Represents (cluster.nodes i).appendedLog ((ledger.append i entries).log i) := by
      simpa [append, View.append] using appended
    have role : joined.state.role ≠ .candidate := by
      intro stands
      rw [Role.was applied.role stands (by decide)] at leads
      cases leads
    refine records.advanced { joined with
      state := joined.awaitProposes (cluster.nodes i).state.pending start } leads
      (.single (.append ledger i entries led fresh)) rfl rfl ?_ refined
      (applied.id.trans (records.refines.ids i)) applied.term applied.commit role ?_ represents counts kept
      ?_ (commitProposes_advances joined io _ start)
    · intro j other
      simp [append, View.append, other]
    · intro bound within
      refine applied.within bound ⟨within.1, within.2.1, ?_⟩
      rw [appendedLog_snapshot]
      exact within.2.2
    · show Progress membership (ledger.append i entries) i joined.state.currentTerm _
      rw [applied.term]
      refine progress.update (fun _ _ => .inr (.inl ?_))
      exact applied.id.trans (records.refines.ids i)

end Cluster

end Takyonic
