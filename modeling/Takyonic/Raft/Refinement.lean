import Takyonic.Raft.Cluster
import Takyonic.Raft.StoreEntries

namespace Takyonic

open Foundation RaftConsensus List View Relation

def Batch (source : List RaftLogEntry) (request : AppendEntriesRequest) : Prop :=
  request.entries = (source.drop request.prevLogIndex).take request.entries.length ∧
    (request.prevLogTerm = 0 ∨ request.prevLogIndex ≤ source.length ∧
      request.prevLogTerm = termBefore source request.prevLogIndex)

def WellNumbered (full : List RaftLogEntry) : Prop :=
  Consecutive 1 full ∧ ∀ entry ∈ full, 1 ≤ entry.term

variable {full : List RaftLogEntry} {index k peer : Nat}

theorem Represents.wellNumbered {log : RaftLog} (represents : Represents log full) : WellNumbered full :=
  ⟨represents.consecutive, represents.positive⟩

theorem WellNumbered.take (shaped : WellNumbered full) (n : Nat) : WellNumbered (full.take n) :=
  ⟨shaped.1.take n, fun entry member => shaped.2 entry (mem_of_mem_take member)⟩

def Boundary (source : List RaftLogEntry) (index term : Nat) : Prop :=
  0 < index ∧ index ≤ source.length ∧ term = termBefore source index

variable {source longer entries full : List RaftLogEntry}

theorem termBefore_mono (continued : source <+: longer) (inside : index ≤ source.length) :
    termBefore longer index = termBefore source index := by
  obtain ⟨more, rfl⟩ := continued
  unfold termBefore
  split
  · rfl
  · rw [getElem?_append_left (by omega)]

theorem Batch.mono {request : AppendEntriesRequest} (continued : source <+: longer)
    (batch : Batch source request) : Batch longer request := by
  refine ⟨slice_mono continued batch.1, batch.2.imp_right ?_⟩
  rintro ⟨inside, term⟩
  exact ⟨inside.trans continued.length_le, by rw [termBefore_mono continued inside, term]⟩

theorem Boundary.mono {term : Nat} (continued : source <+: longer) (boundary : Boundary source index term) :
    Boundary longer index term := by
  obtain ⟨positive, inside, found⟩ := boundary
  exact ⟨positive, inside.trans continued.length_le, by rw [termBefore_mono continued inside, found]⟩

section Alignment

variable {log : RaftLog} {full source : List RaftLogEntry} {request : AppendEntriesRequest}

def BoundaryTerm (log : RaftLog) (request : AppendEntriesRequest) : Prop :=
  ∀ entry ∈ request.entries, entry.index = log.snapshot.lastIncludedIndex → entry.term = log.snapshot.lastIncludedTerm

instance : Decidable (BoundaryTerm log request) := inferInstanceAs (Decidable (∀ entry ∈ request.entries, _ → _))

theorem Batch.consecutive (batch : Batch source request) (shaped : WellNumbered source) :
    Consecutive (request.prevLogIndex + 1) request.entries := by
  rw [batch.1, add_comm]
  exact (shaped.1.drop _).take _

theorem Batch.positive (batch : Batch source request) (shaped : WellNumbered source) :
    ∀ entry ∈ request.entries, 1 ≤ entry.term := by
  intro entry member
  rw [batch.1] at member
  exact shaped.2 entry (mem_of_mem_drop (mem_of_mem_take member))

theorem termBefore_succ {entry : RaftLogEntry} (found : full[k]? = some entry) :
    termBefore full (k + 1) = entry.term := by
  simp [termBefore, found]

theorem Batch.retained (batch : Batch source request) (snap : Nat) :
    request.entries.drop (snap - request.prevLogIndex) =
      (source.drop (max request.prevLogIndex snap)).take
        (request.entries.drop (snap - request.prevLogIndex)).length := by
  have slice := congrArg (drop (snap - request.prevLogIndex)) batch.1
  rw [drop_take, drop_drop,
    show request.prevLogIndex + (snap - request.prevLogIndex) = max request.prevLogIndex snap by omega]
    at slice
  rw [length_drop]
  exact slice

def Stored (full source : List RaftLogEntry) (snap last : Nat) (full' : List RaftLogEntry) : Prop :=
  last < snap ∧ full' = full ∨
    snap ≤ last ∧ full' = full ∧ full.take last = source.take last ∨
    snap ≤ last ∧ full' = source.take last ∧ SharedWithin full source last

section

variable (represents : Represents log full) (agree : Agree RaftLogEntry.term full source)
  (shaped : WellNumbered source) (batch : Batch source request)
  (matched : prevMatches log request.prevLogIndex request.prevLogTerm) (boundary : BoundaryTerm log request)
include represents agree shaped batch matched boundary

theorem aligned (reaches : log.snapshot.lastIncludedIndex ≤ request.prevLogIndex + request.entries.length) :
    full.take (max request.prevLogIndex log.snapshot.lastIncludedIndex) =
      source.take (max request.prevLogIndex log.snapshot.lastIncludedIndex) := by
  have inside := represents.inside
  by_cases retained : log.snapshot.lastIncludedIndex ≤ request.prevLogIndex
  · rw [max_eq_left retained]
    cases previous : request.prevLogIndex with
    | zero => rfl
    | succ k =>
      have found : log.termAt request.prevLogIndex = some request.prevLogTerm := by
        by_contra mismatch
        exact matched ⟨by omega, mismatch⟩
      rw [represents.termAt (by omega) retained, previous] at found
      obtain ⟨entry, there, term⟩ := Option.map_eq_some_iff.mp found
      have positive := represents.positive entry (mem_of_getElem? there)
      obtain ⟨reached, claimed⟩ := batch.2.resolve_left (by omega)
      rw [previous] at reached claimed
      have sourceThere : source[k]? = some source[k] := getElem?_eq_getElem (by omega)
      rw [termBefore_succ sourceThere] at claimed
      exact agree k entry source[k] there sourceThere (term.trans claimed)
  · have first : request.prevLogIndex = 0 := by
      by_contra later
      refine matched ⟨by omega, ?_⟩
      rw [RaftLog.termAt_compacted (by omega) (by omega)]
      simp
    rw [first]
    obtain ⟨k, last⟩ : ∃ k, log.snapshot.lastIncludedIndex = k + 1 := ⟨log.snapshot.lastIncludedIndex - 1, by omega⟩
    have atBatch : request.entries[k]? = some request.entries[k] := getElem?_eq_getElem (by omega)
    have sourceThere : source[k]? = some request.entries[k] := by
      have slice := congrArg (fun entries => entries[k]?) batch.1
      simpa [atBatch, first, getElem?_take, show k < request.entries.length by omega] using slice.symm
    have fullThere : full[k]? = some full[k] := getElem?_eq_getElem (by omega)
    have index := batch.consecutive shaped k _ atBatch
    have term := boundary _ (getElem_mem (by omega : k < request.entries.length)) (by omega)
    rw [represents.boundary, last, termBefore_succ fullThere] at term
    rw [last]
    exact agree k full[k] request.entries[k] fullThere sourceThere term.symm

theorem overwrite_stored (inside : request.prevLogIndex ≤ full.length) :
    Stored full source log.snapshot.lastIncludedIndex (request.prevLogIndex + request.entries.length)
      (overwrite RaftLogEntry.term full (max request.prevLogIndex log.snapshot.lastIncludedIndex)
        (request.entries.drop (log.snapshot.lastIncludedIndex - request.prevLogIndex))) := by
  have kept := represents.inside
  by_cases reaches :
      log.snapshot.lastIncludedIndex ≤ request.prevLogIndex + request.entries.length
  · have start := aligned represents agree shaped batch matched boundary reaches
    have length : max request.prevLogIndex log.snapshot.lastIncludedIndex +
        (request.entries.drop (log.snapshot.lastIncludedIndex - request.prevLogIndex)).length =
        request.prevLogIndex + request.entries.length := by
      rw [length_drop]
      omega
    have written := overwrite_slice agree _ _ start (by omega) (batch.retained log.snapshot.lastIncludedIndex)
    rw [length] at written
    rcases written with ⟨same, prefixes⟩ | ⟨replaced, shared⟩
    · exact .inr (.inl ⟨reaches, same, prefixes⟩)
    · exact .inr (.inr ⟨reaches, replaced, shared⟩)
  · refine .inl ⟨by omega, ?_⟩
    rw [drop_eq_nil_of_le (by omega)]
    rfl

theorem cut_stored :
    let left := cut RaftLogEntry.term full (max request.prevLogIndex log.snapshot.lastIncludedIndex)
      (request.entries.drop (log.snapshot.lastIncludedIndex - request.prevLogIndex))
    left = full ∨ ∃ n, left = source.take n ∧ SharedWithin full source n := by
  by_cases reaches :
      log.snapshot.lastIncludedIndex ≤ request.prevLogIndex + request.entries.length
  · exact cut_slice agree _ _ (aligned represents agree shaped batch matched boundary reaches)
      (batch.retained log.snapshot.lastIncludedIndex)
  · refine .inl ?_
    rw [drop_eq_nil_of_le (by omega)]
    rfl

end

end Alignment

namespace RaftConsensus

variable {node next : RaftConsensus} {full : List RaftLogEntry}

variable (represents : Represents node.log full)
include represents

theorem requestFor_batch {request : AppendEntriesRequest}
    (built : Cluster.requestFor node peer = some request) : Batch full request := by
  obtain ⟨_, cursor, rfl⟩ := Option.map_eq_some_iff.mp built
  unfold leaderPeerCursor at cursor
  split at cursor
  · cases cursor
  dsimp only at cursor
  split at cursor
  · cases cursor
  rename_i retained
  cases cursor
  generalize (node.state.nextIndex peer).getD 1 = next at retained ⊢
  have inside : node.log.snapshot.lastIncludedIndex ≤ next - 1 := by
    simp only [RaftLog.snapshotMeta] at retained
    omega
  constructor
  · rw [represents.entriesFrom inside]
    simp [length_take]
  · dsimp only
    by_cases first : next - 1 = 0
    · exact .inl (by simp [first, RaftLog.termAt])
    rw [represents.termAt (by omega) inside]
    cases there : full[next - 1 - 1]? with
    | none => exact .inl rfl
    | some entry =>
      have := (List.getElem?_eq_some_iff.mp there).1
      exact .inr ⟨by omega, by simp [termBefore, first, there]⟩

theorem buildInstallSnapshot_boundary {io : Io} {term leaderId index indexTerm : Nat}
    {data : Bytes} (built : node.buildInstallSnapshot io = (next, .ok (term, leaderId, index, indexTerm, data))) :
    Boundary full index indexTerm := by
  unfold buildInstallSnapshot at built
  split at built
  · cases built
  split at built
  · cases built
  rename_i bounded forced
  have kept := represents.compacts (forceBoundary_upkeep node io forced).housekeeping.log
  dsimp only at built
  split at built
  · cases built
  rename_i positive
  split at built
  · cases built
  cases built
  exact ⟨Nat.pos_of_ne_zero positive, kept.inside, kept.boundary⟩

theorem appendedLog_represents (positive : 1 ≤ node.state.currentTerm) :
    ∃ entries, Represents node.appendedLog (full ++ entries) ∧
      ∀ entry ∈ entries, entry.term = node.state.currentTerm := by
  unfold appendedLog RaftLog.appendCommands
  split
  · exact ⟨[], by simpa using represents, by simp⟩
  have numbered := RaftLog.numbered_term node.state.currentTerm (node.log.lastIndex + 1)
    (node.state.pending.map PendingPropose.encoded)
  refine ⟨_, represents.extend ?_ (fun entry member => ?_), numbered⟩
  · rw [represents.lastIndex]
    exact RaftLog.numbered_consecutive _ _ _
  · rw [numbered entry member]
    exact positive

theorem flushPendingProposes_represents (io : Io) (positive : node.state.role = .leader → 1 ≤ node.state.currentTerm) :
    ∃ entries, Represents (node.flushPendingProposes io).1.log (full ++ entries) ∧
      (∀ entry ∈ entries, entry.term = node.state.currentTerm) ∧
      (entries ≠ [] → node.state.role = .leader) := by
  rcases flushPendingProposes_cases node io with ⟨pending, sent, _, same⟩ | ⟨leads, _, published⟩
  · rw [same]
    exact ⟨[], by simpa using represents, by simp, by simp⟩
  · obtain ⟨entries, appended, own⟩ := appendedLog_represents represents (positive leads)
    rw [published]
    refine ⟨entries, Represents.compacts ?_ (publishProposes_log _ io _ _), own, fun _ => leads⟩
    exact appended

end RaftConsensus

namespace Cluster

def Faithful (view : View Nat RaftLogEntry) : Message → Prop
  | .appendEntries peer request =>
    peer ≠ request.leaderId ∧ view.leader request.term = some request.leaderId ∧
      Batch (view.leaderLog request.term) request
  | .installSnapshot peer request =>
    peer ≠ request.leaderId ∧ view.leader request.term = some request.leaderId ∧
      Boundary (view.leaderLog request.term) request.lastIncludedIndex request.lastIncludedTerm
  | _ => True

/-- The cluster refines the replicated log `view`: compaction is invisible there, and a term's
    leader log is the log its leader has or had when it moved on. -/
structure Refines (cluster : Cluster) (view : View Nat RaftLogEntry) : Prop where
  sound : view.Sound RaftLogEntry.term
  ids : ∀ i, (cluster.nodes i).id = i
  term : ∀ i, view.term i = (cluster.nodes i).state.currentTerm
  log : ∀ i, Represents (cluster.nodes i).log (view.log i)
  leading : ∀ i, (cluster.nodes i).state.role = .leader → view.leader (cluster.nodes i).state.currentTerm = some i
  history : ∀ t i, view.leader t = some i → (t, i) ∈ cluster.leaders
  pinned : ∀ i, view.leader (cluster.nodes i).state.currentTerm = some i → (cluster.nodes i).state.role ≠ .candidate
  active : ∀ i, (cluster.nodes i).state.role ≠ .follower → 1 ≤ (cluster.nodes i).state.currentTerm
  shaped : ∀ t, (view.leader t).isSome → WellNumbered (view.leaderLog t)
  messages : ∀ message ∈ cluster.net, Faithful view message

variable {cluster : Cluster} {view view' : View Nat RaftLogEntry} {i t k peer : Nat} {node : RaftConsensus}
  {sent replies : List Message} {leader : Nat} {allowed : Nat → Prop}

theorem Faithful.grow {message : Message} (faithful : Faithful view message) (grows : ∀ t n, view.leader t = some n →
      view'.leader t = some n ∧ view.leaderLog t <+: view'.leaderLog t) :
    Faithful view' message := by
  cases message with
  | appendEntries peer request =>
    obtain ⟨other, led, batch⟩ := faithful
    obtain ⟨still, longer⟩ := grows _ _ led
    exact ⟨other, still, batch.mono longer⟩
  | installSnapshot peer request =>
    obtain ⟨other, led, boundary⟩ := faithful
    obtain ⟨still, longer⟩ := grows _ _ led
    exact ⟨other, still, boundary.mono longer⟩
  | _ => exact True.intro

section

variable (refines : Refines cluster view)
include refines

theorem Refines.act (turns : ReflTransGen (Turn RaftLogEntry.term) view view')
    (others : ∀ j, j ≠ i → view'.term j = view.term j ∧ view'.log j = view.log j) (id : node.id = i)
    (term : view'.term i = node.state.currentTerm) (log : Represents node.log (view'.log i))
    (leading : node.state.role = .leader → view'.leader node.state.currentTerm = some i)
    (history : ∀ t j, view'.leader t = some j → view.leader t = some j ∨
      j = i ∧ t = node.state.currentTerm ∧ node.state.role = .leader)
    (pinned : view'.leader node.state.currentTerm = some i → node.state.role ≠ .candidate)
    (active : node.state.role ≠ .follower → 1 ≤ node.state.currentTerm)
    (shaped : ∀ t, (view'.leader t).isSome → WellNumbered (view'.leaderLog t))
    (lawful : ∀ message ∈ sent, Faithful view' message) : Refines (cluster.act i node sent) view' := by
  have grows : ∀ t n, view.leader t = some n → view'.leader t = some n ∧ view.leaderLog t <+: view'.leaderLog t :=
    fun _ _ led => turns_leaderLog_prefix turns refines.sound led
  refine
    { sound := turns_sound turns refines.sound, ids := ?_, term := ?_, log := ?_, leading := ?_
      history := ?_, pinned := ?_, active := ?_, shaped := shaped, messages := ?_ }
  · exact forall_act (P := fun j node => node.id = j) id (fun j _ => refines.ids j)
  · refine forall_act (P := fun j node => view'.term j = node.state.currentTerm) term (fun j other => ?_)
    rw [(others j other).1]
    exact refines.term j
  · refine forall_act (P := fun j node => Represents node.log (view'.log j)) log (fun j other => ?_)
    rw [(others j other).2]
    exact refines.log j
  · exact forall_act (P := fun j node => node.state.role = .leader → view'.leader node.state.currentTerm = some j)
      leading (fun j _ leads => (grows _ _ (refines.leading j leads)).1)
  · intro t j led
    rcases history t j led with old | ⟨rfl, rfl, leads⟩
    · exact (mem_act_leaders _ _ _ sent).mpr (.inl (refines.history t j old))
    · exact (mem_act_leaders _ _ _ sent).mpr (.inr ⟨leads, rfl⟩)
  · refine forall_act (P := fun j node => view'.leader node.state.currentTerm = some j →
      node.state.role ≠ .candidate) pinned (fun j other led => ?_)
    rcases history _ j led with old | ⟨same, _⟩
    · exact refines.pinned j old
    · exact absurd same other
  · exact forall_act (P := fun _ node => node.state.role ≠ .follower → 1 ≤ node.state.currentTerm) active
      (fun j _ => refines.active j)
  · exact forall_mem_append.mpr ⟨fun message old => (refines.messages message old).grow grows, lawful⟩

theorem Refines.quiet (id : node.id = i) (later : (cluster.nodes i).state.currentTerm ≤ node.state.currentTerm)
    (log : Represents node.log (view.log i))
    (leads : node.state.role = .leader → (cluster.nodes i).state.role = .leader ∧
      node.state.currentTerm = (cluster.nodes i).state.currentTerm)
    (stands : node.state.role = .candidate → (cluster.nodes i).state.role = .candidate ∨
      (cluster.nodes i).state.currentTerm < node.state.currentTerm)
    (lawful : ∀ message ∈ sent, Faithful view message) :
    Refines (cluster.act i node sent) (view.raise i node.state.currentTerm) := by
  have start : view.term i ≤ node.state.currentTerm := by rwa [refines.term i]
  refine refines.act (.single (.raise i _ start)) ?_ id (by simp [raise]) log ?_
    (fun t j led => .inl led) ?_ ?_ refines.shaped lawful
  · intro j other
    simp [raise, other]
  · intro leading
    obtain ⟨led, same⟩ := leads leading
    rw [same]
    exact refines.leading i led
  · intro led standing
    rcases stands standing with before | raised
    · have bound := refines.sound.reached i _ led
      rw [refines.term i] at bound
      have same : node.state.currentTerm = (cluster.nodes i).state.currentTerm := by omega
      have led : view.leader node.state.currentTerm = some i := led
      rw [same] at led
      exact refines.pinned i led before
    · have bound := refines.sound.reached i _ led
      rw [refines.term i] at bound
      omega
  · intro working
    cases role : node.state.role with
    | follower => exact absurd role working
    | leader =>
      obtain ⟨led, same⟩ := leads role
      have := refines.active i (by rw [led]; decide)
      omega
    | candidate =>
      rcases stands role with before | raised
      · have := refines.active i (by rw [before]; decide)
        omega
      · omega

theorem Refines.steady (kept : Steady (cluster.nodes i) node) (log : Represents node.log (view.log i))
    (lawful : ∀ message ∈ sent, Faithful view message) :
    Refines (cluster.act i node sent) (view.raise i node.state.currentTerm) := by
  refine refines.quiet (kept.id.trans (refines.ids i)) kept.term.ge log ?_ ?_ lawful
  · intro leads
    exact ⟨Role.was kept.role leads nofun, kept.term⟩
  · intro stands
    exact .inl (Role.was kept.role stands nofun)

theorem Refines.elected (stands : (cluster.nodes i).state.role = .candidate)
    (unique : ∀ j, ((cluster.nodes i).state.currentTerm, j) ∈ cluster.leaders → j = i) :
    view.leader (view.term i) = none ∧
      Refines (cluster.act i ((cluster.nodes i).becomeLeader (cluster.nodes i).state.currentTerm) [])
        (view.elect i) := by
  generalize elected : (cluster.nodes i).becomeLeader (cluster.nodes i).state.currentTerm = node
  have frame : node.id = (cluster.nodes i).id ∧ node.log = (cluster.nodes i).log ∧
      node.state.currentTerm = (cluster.nodes i).state.currentTerm ∧ node.state.role = .leader := by
    rw [← elected]
    simp [RaftConsensus.becomeLeader, stands]
  obtain ⟨sameId, sameLog, sameTerm, leads⟩ := frame
  have vacant : view.leader (view.term i) = none := by
    rw [refines.term i]
    cases found : view.leader (cluster.nodes i).state.currentTerm with
    | none => rfl
    | some other =>
      -- Another leader of the term would be this node itself, which still stands.
      obtain rfl := unique other (refines.history _ _ found)
      exact absurd stands (refines.pinned _ found)
  refine ⟨vacant, refines.act (.single (.elect i vacant)) (fun _ _ => ⟨rfl, rfl⟩)
    (sameId.trans (refines.ids i)) (by rw [sameTerm]; exact refines.term i)
    (by rw [sameLog]; exact refines.log i) ?_ ?_ ?_ ?_ ?_ (by simp)⟩
  · intro _
    simp [elect, sameTerm, refines.term i]
  · intro t j led
    by_cases here : t = view.term i
    · subst here
      simp only [elect, Function.update_self, Option.some.injEq] at led
      exact .inr ⟨led.symm, by rw [sameTerm, refines.term i], leads⟩
    · simp only [elect, Function.update_of_ne here] at led
      exact .inl led
  · intro _
    rw [leads]
    decide
  · intro _
    rw [sameTerm]
    exact refines.active i (by rw [stands]; decide)
  · intro t led
    by_cases here : t = view.term i
    · subst here
      simpa [elect] using (refines.log i).wellNumbered
    · simp only [elect, Function.update_of_ne here] at led ⊢
      exact refines.shaped t led

theorem Refines.appended (steady : Steady (cluster.nodes i) node)
    (leads : (cluster.nodes i).state.role = .leader) (log : Represents node.log (view.log i ++ entries))
    (own : ∀ entry ∈ entries, entry.term = (cluster.nodes i).state.currentTerm) :
    view.leader (view.term i) = some i ∧ (∀ entry ∈ entries, entry.term = view.term i) ∧
      Refines (cluster.act i node []) (view.append i entries) := by
  have led := refines.leading i leads
  rw [← refines.term i] at led own
  refine ⟨led, own, refines.act (.single (.append i entries led own)) ?_
    (steady.id.trans (refines.ids i)) ?_ ?_ ?_ (fun t j led => .inl led) ?_ ?_ ?_ (by simp)⟩
  · intro j other
    simp [append, other]
  · rw [steady.term]
    exact refines.term i
  · simpa [append] using log
  · intro _
    rw [steady.term]
    exact refines.leading i leads
  · intro _ stands
    rw [Role.was steady.role stands (by decide)] at leads
    cases leads
  · intro _
    rw [steady.term]
    exact refines.active i (by rw [leads]; decide)
  · intro t ledTerm
    by_cases here : t = view.term i
    · subst here
      simpa [append] using log.wellNumbered
    · simpa [append, here] using refines.shaped t ledTerm

end

def Adopted (view : View Nat RaftLogEntry) (i t : Nat) (allowed : Nat → Prop) (view' : View Nat RaftLogEntry) : Prop :=
  view' = view.raise i t ∨ ∃ k, view' = (view.raise i t).adopt i k ∧ allowed k

theorem Adopted.term (adopted : Adopted view i t allowed view') : view'.term i = t := by
  rcases adopted with rfl | ⟨k, rfl, _⟩ <;> simp [raise, adopt]

section

variable (refines : Refines cluster view) (id : node.id = i)
  (later : (cluster.nodes i).state.currentTerm ≤ node.state.currentTerm)
  (led : view.leader node.state.currentTerm = some leader) (other : i ≠ leader) (follows : node.state.role = .follower)
  (lawful : ∀ message ∈ sent, Faithful view message)
include refines id later led other follows lawful

theorem Refines.adopted (log : Represents node.log ((view.leaderLog node.state.currentTerm).take k)) :
    ReflTransGen (Turn RaftLogEntry.term) view ((view.raise i node.state.currentTerm).adopt i k) ∧
      Refines (cluster.act i node sent) ((view.raise i node.state.currentTerm).adopt i k) := by
  have start : view.term i ≤ node.state.currentTerm := by rwa [refines.term i]
  have turns : ReflTransGen (Turn RaftLogEntry.term) view ((view.raise i node.state.currentTerm).adopt i k) := by
    refine .tail (.single (.raise i _ start)) (.adopt i k ?_ ?_)
    · simp [raise, led]
    · simp [raise, led, other.symm]
  refine ⟨turns, refines.act turns ?_ id ?_ ?_ ?_ (fun t j led => .inl led) ?_ ?_ refines.shaped lawful⟩
  · intro j distinct
    simp [adopt, raise, distinct]
  · simp [adopt, raise]
  · simpa [adopt, raise] using log
  · intro leads
    rw [follows] at leads
    cases leads
  · intro _ stands
    rw [follows] at stands
    cases stands
  · exact fun working => absurd follows working

theorem Refines.adopts (log : Represents node.log full) (outcome : full = view.log i ∨
      ∃ k, full = (view.leaderLog node.state.currentTerm).take k ∧ allowed k) :
    ∃ view', Adopted view i node.state.currentTerm allowed view' ∧
      ReflTransGen (Turn RaftLogEntry.term) view view' ∧
      Refines (cluster.act i node sent) view' ∧ view'.log i = full := by
  rcases outcome with rfl | ⟨k, rfl, permitted⟩
  · have start : view.term i ≤ node.state.currentTerm := by rwa [refines.term i]
    refine ⟨_, .inl rfl, .single (.raise i _ start), refines.quiet id later log ?_ ?_ lawful, rfl⟩
    · intro leads
      rw [follows] at leads
      cases leads
    · intro stands
      rw [follows] at stands
      cases stands
  · obtain ⟨turns, kept⟩ := refines.adopted id later led other follows lawful log
    exact ⟨_, .inr ⟨k, rfl, permitted⟩, turns, kept, by simp [adopt, raise]⟩

end

theorem Refines.appendEntries (refines : Refines cluster view) (io : Io)
    {request : AppendEntriesRequest} (sent : .appendEntries peer request ∈ cluster.net)
    (boundary : BoundaryTerm (cluster.nodes peer).log request) :
    let result := (cluster.nodes peer).handleAppendEntries io request.term request.leaderId
      request.prevLogIndex request.prevLogTerm request.entries request.leaderCommit
    let reply := Message.appendReply peer request.leaderId result.2.1 result.2.2.1 result.2.2.2
    ∃ view', Adopted view peer result.1.state.currentTerm
        (SharedWithin (view.log peer) (view.leaderLog result.1.state.currentTerm)) view' ∧
      ReflTransGen (Turn RaftLogEntry.term) view view' ∧
      Refines (cluster.act peer result.1 [reply]) view' ∧
      (result.2.2.1 = true → result.2.1 = request.term ∧ result.1.state.currentTerm = request.term ∧
        prevMatches (cluster.nodes peer).log request.prevLogIndex request.prevLogTerm ∧
        result.2.2.2 = (view'.log peer).length ∧
        Stored (view.log peer) (view.leaderLog request.term) (cluster.nodes peer).log.snapshot.lastIncludedIndex
          (request.prevLogIndex + request.entries.length) (view'.log peer)) := by
  obtain ⟨other, led, batch⟩ := refines.messages _ sent
  have lawful : ∀ term success matchIndex,
      ∀ message ∈ [Message.appendReply peer request.leaderId term success matchIndex],
        Faithful view message := by simp [Faithful]
  have represents := refines.log peer
  by_cases stale : request.term < (cluster.nodes peer).state.currentTerm
  · rw [handleAppendEntries_stale _ _ stale]
    exact ⟨_, .inl rfl, .single (.raise peer _ (refines.term peer).le),
      refines.steady (.refl _) represents (lawful _ _ _), nofun⟩
  have fresh : (cluster.nodes peer).state.currentTerm ≤ request.term := by omega
  have shaped := refines.shaped request.term (by rw [led]; rfl)
  have agree : Agree RaftLogEntry.term (view.log peer) (view.leaderLog request.term) :=
    (refines.sound.rooted peer).agree (refines.sound.leaderRooted _ (by rw [led]; rfl))
  have steady := handleAppendEntries_steady (cluster.nodes peer) io request.term request.leaderId
    request.prevLogIndex request.prevLogTerm request.entries request.leaderCommit fresh
  obtain ⟨full', after, outcome⟩ := handleAppendEntries_spec io represents fresh
    (batch.consecutive shaped) (batch.positive shaped)
  have follows := steady.follows (acceptLeader_follows _)
  have term := steady.term.trans (acceptLeader_term request.leaderId fresh)
  have id : _ = peer := steady.id.trans ((acceptLeader_id _).trans (refines.ids peer))
  generalize (cluster.nodes peer).handleAppendEntries io request.term request.leaderId
    request.prevLogIndex request.prevLogTerm request.entries request.leaderCommit = result
    at steady after outcome follows term id ⊢
  have matched : full' = view.log peer ∨ (∃ n, full' = (view.leaderLog request.term).take n ∧
      SharedWithin (view.log peer) (view.leaderLog request.term) n) →
      ∃ view', Adopted view peer result.1.state.currentTerm
          (SharedWithin (view.log peer) (view.leaderLog result.1.state.currentTerm)) view' ∧
        ReflTransGen (Turn RaftLogEntry.term) view view' ∧
        Refines (cluster.act peer result.1
          [.appendReply peer request.leaderId result.2.1 result.2.2.1 result.2.2.2]) view' ∧
        view'.log peer = full' := by
    intro known
    rw [← term] at known led
    exact refines.adopts id (by rw [term]; exact fresh) led other follows (lawful _ _ _) after known
  rcases outcome with ⟨_, same, reply, _⟩ | ⟨accepted, _, left, reply, _⟩ | ⟨accepted, inside, written, reply, _⟩
  · obtain ⟨view', adopted, turns, kept, _⟩ := matched (.inl same)
    exact ⟨view', adopted, turns, kept, fun success => by rw [reply] at success; cases success⟩
  · have stored := cut_stored represents agree shaped batch accepted boundary
    obtain ⟨view', adopted, turns, kept, _⟩ := matched (by rw [left]; exact stored)
    exact ⟨view', adopted, turns, kept, fun success => by rw [reply] at success; cases success⟩
  · have stored := overwrite_stored represents agree shaped batch accepted boundary inside
    rw [← written] at stored
    obtain ⟨view', adopted, turns, kept, log⟩ := matched (by
      rcases stored with ⟨_, same⟩ | ⟨_, same, _⟩ | ⟨_, taken, shared⟩
      · exact .inl same
      · exact .inl same
      · exact .inr ⟨_, taken, shared⟩)
    exact ⟨view', adopted, turns, kept, fun _ =>
      ⟨by rw [reply], term, accepted, by rw [reply, log], by rwa [log]⟩⟩

def Installed (cluster : Cluster) (peer : Nat) (request : InstallSnapshotRequest) (node : RaftConsensus)
    (k : Nat) : Prop :=
  k = request.lastIncludedIndex ∧ request.done = true ∧
    (cluster.nodes peer).state.currentTerm ≤ request.term ∧ node.state.currentTerm = request.term

theorem Refines.installSnapshot (refines : Refines cluster view) (io : Io)
    {request : InstallSnapshotRequest} (sent : .installSnapshot peer request ∈ cluster.net)
    (lawful : ∀ reply ∈ replies, Faithful view reply) :
    let result := (cluster.nodes peer).handleInstallSnapshot io request.term request.leaderId
      request.lastIncludedIndex request.lastIncludedTerm request.data request.done
    ∃ view', Adopted view peer result.1.state.currentTerm (Installed cluster peer request result.1) view' ∧
      ReflTransGen (Turn RaftLogEntry.term) view view' ∧
      Refines (cluster.act peer result.1 replies) view' ∧
      (request.done = true → result.2 = .ok request.term →
        result.1.state.currentTerm = request.term ∧
          view'.log peer = (view.leaderLog request.term).take request.lastIncludedIndex) := by
  obtain ⟨other, led, _, reached, term⟩ := refines.messages _ sent
  have represents := refines.log peer
  by_cases stale : request.term < (cluster.nodes peer).state.currentTerm
  · rw [handleInstallSnapshot_stale _ _ stale]
    refine ⟨_, .inl rfl, .single (.raise peer _ (refines.term peer).le),
      refines.steady (.refl _) represents lawful, fun _ answered => ?_⟩
    rw [Except.ok.injEq] at answered
    exact absurd answered (ne_of_gt stale)
  · have fresh : (cluster.nodes peer).state.currentTerm ≤ request.term := by omega
    have steady := handleInstallSnapshot_steady (cluster.nodes peer) io request.term request.leaderId
      request.lastIncludedIndex request.lastIncludedTerm request.data request.done fresh
    obtain ⟨log, answer⟩ := handleInstallSnapshot_log (cluster.nodes peer) io request.term
      request.leaderId request.lastIncludedIndex request.lastIncludedTerm request.data request.done fresh
    have follows := steady.follows rfl
    have current : _ = request.term := steady.term
    have id : _ = peer := steady.id.trans (refines.ids peer)
    generalize (cluster.nodes peer).handleInstallSnapshot io request.term request.leaderId
      request.lastIncludedIndex request.lastIncludedTerm request.data request.done = result
      at steady log answer follows current id ⊢
    have later : (cluster.nodes peer).state.currentTerm ≤ result.1.state.currentTerm := by
      rw [current]
      exact fresh
    have ledNow : view.leader result.1.state.currentTerm = some request.leaderId := by
      rw [current]
      exact led
    by_cases installed : request.done = true ∧ result.1.log =
        (cluster.nodes peer).log.installSnapshot request.lastIncludedIndex request.lastIncludedTerm
    · have shaped := (refines.shaped request.term (by rw [led]; rfl)).take request.lastIncludedIndex
      have after : Represents result.1.log ((view.leaderLog request.term).take request.lastIncludedIndex) := by
        rw [installed.2]
        refine .installSnapshot _ shaped.1 shaped.2 (by simpa using reached) ?_
        rw [term]
        exact termBefore_mono ( take_prefix _ _) (by simpa using reached)
      have taken : ∃ k, (view.leaderLog request.term).take request.lastIncludedIndex =
          (view.leaderLog result.1.state.currentTerm).take k ∧
            Installed cluster peer request result.1 k :=
        ⟨_, by rw [current], rfl, installed.1, fresh, current⟩
      obtain ⟨view', adopted, turns, kept, log⟩ :=
        refines.adopts id later ledNow other follows lawful after (.inr taken)
      exact ⟨view', adopted, turns, kept, fun _ _ => ⟨current, log⟩⟩
    · have same : result.1.log = (cluster.nodes peer).log := log.resolve_right installed
      have unchanged : Represents result.1.log (view.log peer) := by
        rw [same]
        exact represents
      obtain ⟨view', adopted, turns, kept, _⟩ :=
        refines.adopts id later ledNow other follows lawful unchanged (.inl rfl)
      refine ⟨view', adopted, turns, kept, fun final answered => ?_⟩
      exact absurd ⟨final, (answer _ answered).2 final⟩ installed

end Cluster

end Takyonic
