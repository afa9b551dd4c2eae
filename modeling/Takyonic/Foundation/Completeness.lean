import Takyonic.Foundation.Replication

/-! Leader completeness of a replicated log. Votes remember the log they were given on, nodes
acknowledge beginnings of their leader's log, and what a quorum has acknowledged is in the log of
every later leader. -/

namespace Foundation

open List View Set

variable {ν ε : Type*} {termOf : ε → Nat}

def lastTerm (termOf : ε → Nat) (entries : List ε) : Nat := (entries.getLast?.map termOf).getD 0

def UpToDate (termOf : ε → Nat) (candidate voter : List ε) : Prop :=
  lastTerm termOf voter < lastTerm termOf candidate ∨
    lastTerm termOf voter = lastTerm termOf candidate ∧ voter.length ≤ candidate.length

theorem lastTerm_of_getElem? {entries : List ε} {entry : ε}
    (last : entries[entries.length - 1]? = some entry) : lastTerm termOf entries = termOf entry := by
  rw [← getLast?_eq_getElem?] at last
  simp [lastTerm, last]

theorem exists_last {entries : List ε} (nonempty : 0 < entries.length) :
    ∃ entry, entries[entries.length - 1]? = some entry :=
  ⟨entries[entries.length - 1], getElem?_eq_getElem (by omega)⟩

namespace View

variable {view view' first second third : View ν ε} {t m before later t' k : Nat}

def Extends (termOf : ε → Nat) (view view' : View ν ε) : Prop :=
  ∀ t, (view.leader t).isSome → (view'.leader t).isSome ∧
    ∃ fresh, view'.leaderLog t = view.leaderLog t ++ fresh ∧ ∀ entry ∈ fresh, termOf entry = t

theorem Extends.refl (termOf : ε → Nat) (view : View ν ε) : view.Extends termOf view :=
  fun _ led => ⟨led, [], by simp, by simp⟩

theorem Extends.trans (before : first.Extends termOf second)
    (after : second.Extends termOf third) : first.Extends termOf third := by
  intro t led
  obtain ⟨ledThen, fresh, grown, own⟩ := before t led
  obtain ⟨ledNow, more, longer, ownMore⟩ := after t ledThen
  exact ⟨ledNow, fresh ++ more, by rw [longer, grown, append_assoc], forall_mem_append.mpr ⟨own, ownMore⟩⟩

theorem Turn.extends [DecidableEq ν] (turn : Turn termOf view view') (sound : view.Sound termOf) :
    view.Extends termOf view' := by
  intro t led
  cases turn with
  | raise | adopt => exact ⟨led, [], by simp [View.raise, View.adopt], by simp⟩
  | elect n vacant =>
    have other : t ≠ view.term n := by
      rintro rfl
      rw [vacant] at led
      cases led
    exact ⟨by simpa [View.elect, other] using led, [], by simp [View.elect, other], by simp⟩
  | append n entries leads fresh =>
    refine ⟨led, ?_⟩
    by_cases same : t = view.term n
    · subst same
      exact ⟨entries, by simp [View.append, sound.own n leads], fresh⟩
    · exact ⟨[], by simp [View.append, same], by simp⟩

def Kept (view : View ν ε) (t m before : Nat) (entries : List ε) : Prop :=
  ∀ k ≤ m, (view.leaderLog t).take k <+: entries ∨
    ∃ t', t < t' ∧ t' < before ∧ (view.leader t').isSome ∧
      ¬ (view.leaderLog t).take k <+: view.leaderLog t'

theorem Kept.mono {entries longer : List ε}
    (kept : view.Kept t m before entries) (bound : before ≤ later) (continued : entries <+: longer) :
    view.Kept t m later longer := by
  intro k small
  rcases kept k small with held | ⟨t', after, early, led, missing⟩
  · exact .inl (held.trans continued)
  · exact .inr ⟨t', after, early.trans_le bound, led, missing⟩

theorem Sound.still_missing (sound : view.Sound termOf) {fresh : List ε}
    (led : (view.leader t).isSome) (inside : k ≤ (view.leaderLog t).length) (after : t < t')
    (own : ∀ entry ∈ fresh, termOf entry = t') (gained : (view.leaderLog t).take k <+: view.leaderLog t' ++ fresh) :
    (view.leaderLog t).take k <+: view.leaderLog t' := by
  by_cases short : k ≤ (view.leaderLog t').length
  · apply prefix_of_prefix_length_le gained (prefix_append _ _)
    rw [length_take]
    omega
  exfalso
  have found : (view.leaderLog t)[(view.leaderLog t').length]? =
      some (view.leaderLog t)[(view.leaderLog t').length] := getElem?_eq_getElem (by omega)
  have there := prefix_iff_getElem?.mp gained (view.leaderLog t').length (by rw [length_take]; omega)
  rw [getElem?_append_right le_rfl] at there
  have new := own _ (mem_of_getElem? there)
  have old := (sound.leaderAscending t led).2 _ (mem_of_getElem? found)
  rw [getElem_take] at new
  omega

theorem Kept.grow {entries : List ε} (kept : view.Kept t m before entries)
    (sound : view.Sound termOf) (led : (view.leader t).isSome)
    (inside : m ≤ (view.leaderLog t).length) (grows : view.Extends termOf view') :
    view'.Kept t m before entries := by
  intro k small
  obtain ⟨_, fresh, grown, _⟩ := grows t led
  have same : (view'.leaderLog t).take k = (view.leaderLog t).take k := by
    rw [grown, take_append_of_le_length (by omega)]
  rw [same]
  rcases kept k small with held | ⟨t', after, early, ledLater, missing⟩
  · exact .inl held
  · obtain ⟨stillLed, more, longer, own⟩ := grows t' ledLater
    refine .inr ⟨t', after, early, stillLed, fun gained => missing ?_⟩
    rw [longer] at gained
    exact sound.still_missing led (by omega) after own gained

section Carry

variable {t c k : Nat} {committed entry : ε} {initial entries : List ε} {bound : Nat}

theorem lastTerm_ge (ascending : Ascending termOf bound entries)
    (found : entries[k]? = some entry) : termOf entry ≤ lastTerm termOf entries := by
  obtain ⟨inside, rfl⟩ := List.getElem?_eq_some_iff.mp found
  obtain ⟨last, atEnd⟩ := exists_last (show 0 < entries.length by omega)
  rw [lastTerm_of_getElem? atEnd]
  obtain ⟨_, rfl⟩ := List.getElem?_eq_some_iff.mp atEnd
  rcases lt_or_ge k (entries.length - 1) with earlier | same
  · exact pairwise_iff_getElem.mp ascending.1 k _ inside (by omega) earlier
  · obtain rfl : k = entries.length - 1 := by omega
    exact le_rfl

theorem Rooted.eq_take (rooted : view.Rooted termOf initial) (nonempty : 0 < initial.length) :
    (view.leader (lastTerm termOf initial)).isSome ∧
      initial = (view.leaderLog (lastTerm termOf initial)).take initial.length := by
  obtain ⟨last, atEnd⟩ := exists_last nonempty
  obtain ⟨led, same⟩ := rooted _ last atEnd
  rw [lastTerm_of_getElem? atEnd]
  refine ⟨led, ?_⟩
  rw [show initial.length - 1 + 1 = initial.length by omega, take_length] at same
  exact same

theorem Sound.carries (sound : view.Sound termOf) (fresh : UpToDate termOf initial entries)
    (led : (view.leader t).isSome) (found : (view.leaderLog t)[c]? = some committed)
    (current : termOf committed = t) (rooted : view.Rooted termOf initial)
    (ascending : Ascending termOf bound entries) (held : (view.leaderLog t).take (c + 1) <+: entries)
    (later : ∀ s, t < s → s ≤ lastTerm termOf initial → (view.leader s).isSome →
      (view.leaderLog t).take (c + 1) <+: view.leaderLog s) :
    (view.leaderLog t).take (c + 1) <+: initial := by
  have inside := (List.getElem?_eq_some_iff.mp found).1
  have reaches : c + 1 ≤ entries.length := by
    have := held.length_le
    rw [length_take] at this
    omega
  have atEntries : entries[c]? = some committed := by
    have := prefix_iff_getElem?.mp held c (by rw [length_take]; omega)
    rw [this, getElem_take]
    exact (List.getElem?_eq_getElem inside).symm.trans found
  have recent := lastTerm_ge ascending atEntries
  have nonempty : 0 < initial.length := by
    rcases fresh with newer | ⟨_, longer⟩
    · by_contra empty
      rw [length_eq_zero_iff.mp (by omega : initial.length = 0)] at newer
      exact absurd newer (Nat.not_lt_zero _)
    · omega
  obtain ⟨ledLast, start⟩ := rooted.eq_take nonempty
  have latest : t ≤ lastTerm termOf initial := by rcases fresh with newer | ⟨same, _⟩ <;> omega
  rcases lt_or_ge t (lastTerm termOf initial) with after | same
  · have shared := later _ after le_rfl ledLast
    have long : c + 1 ≤ initial.length := by
      by_contra short
      obtain ⟨last, atEnd⟩ := exists_last nonempty
      have there := prefix_iff_getElem?.mp shared (initial.length - 1) (by rw [length_take]; omega)
      have sameEnd : initial[initial.length - 1]? =
          (view.leaderLog (lastTerm termOf initial))[initial.length - 1]? := by
        have there := congrArg (fun entries => entries[initial.length - 1]?) start
        rwa [List.getElem?_take, if_pos (by omega)] at there
      rw [← sameEnd, atEnd, getElem_take, Option.some.injEq] at there
      have old := (sound.leaderAscending t led).2 _ (getElem_mem (by omega : initial.length - 1 < _))
      have ending : lastTerm termOf initial = termOf last := lastTerm_of_getElem? atEnd
      rw [← there] at old
      omega
    rw [start]
    apply prefix_take_iff.mpr
    refine ⟨shared, ?_⟩
    rw [length_take]
    omega
  · obtain equal : lastTerm termOf initial = t := by omega
    have longer : entries.length ≤ initial.length := by
      rcases fresh with newer | ⟨_, longer⟩
      · omega
      · exact longer
    rw [start, equal]
    exact take_prefix_take_left (by omega)

end Carry

end View

structure Ledger (ν ε : Type*) extends View ν ε where
  ballots : Set (Nat × ν × ν × List ε)
  acks : Set (ν × Nat × Nat)
  commits : Set (Nat × Nat)

namespace Ledger

structure Certified (termOf : ε → Nat) (quorum : Finset ν → Prop) (ledger : Ledger ν ε) (t c : Nat) :
    Prop where
  led : (ledger.leader t).isSome
  current : ∃ entry, (ledger.leaderLog t)[c]? = some entry ∧ termOf entry = t
  quorum : ∃ holders, quorum holders ∧ ∀ n ∈ holders, ∃ m, c < m ∧ (n, t, m) ∈ ledger.acks

structure Complete (termOf : ε → Nat) (quorum : Finset ν → Prop) (ledger : Ledger ν ε) : Prop where
  sound : ledger.Sound termOf
  acked : ∀ n t m, (n, t, m) ∈ ledger.acks → t ≤ ledger.term n ∧ (ledger.leader t).isSome ∧
    m ≤ (ledger.leaderLog t).length ∧ ledger.Kept t m (ledger.term n + 1) (ledger.log n)
  voted : ∀ t c v entries, (t, c, v, entries) ∈ ledger.ballots → t ≤ ledger.term v ∧
    Ascending termOf t entries ∧
    ∀ s m, (v, s, m) ∈ ledger.acks → s < t → ledger.Kept s m t entries
  elected : ∀ t c, ledger.leader t = some c → ∃ initial, initial <+: ledger.leaderLog t ∧
    (∀ entry ∈ initial, termOf entry < t) ∧ ∃ electors, quorum electors ∧
      ∀ v ∈ electors, ∃ entries, (t, c, v, entries) ∈ ledger.ballots ∧ UpToDate termOf initial entries
  committed : ∀ t c, (t, c) ∈ ledger.commits → ledger.Certified termOf quorum t c

variable {quorum : Finset ν → Prop} {ledger ledger' : Ledger ν ε} {t c t' m : Nat}

section

variable (complete : ledger.Complete termOf quorum)
  (meet : ∀ first second, quorum first → quorum second → ∃ v, v ∈ first ∧ v ∈ second)
  (certified : ledger.Certified termOf quorum t c)
include complete meet certified

theorem Complete.leader_completeness (later : t < t') (led : (ledger.leader t').isSome) :
    (ledger.leaderLog t).take (c + 1) <+: ledger.leaderLog t' := by
  obtain ⟨ledEarlier, ⟨entry, found, current⟩, holders, enough, holds⟩ := certified
  induction t' using Nat.strong_induction_on with
  | _ t' ih =>
    obtain ⟨leader, leads⟩ := Option.isSome_iff_exists.mp led
    obtain ⟨initial, start, old, electors, majority, votes⟩ := complete.elected t' leader leads
    -- A node that has acknowledged the entry has also voted for the new leader, afterwards.
    obtain ⟨v, votedFor, acknowledged⟩ := meet electors holders majority enough
    obtain ⟨entries, ballot, fresh⟩ := votes v votedFor
    obtain ⟨m, within, ack⟩ := holds v acknowledged
    obtain ⟨_, ascending, kept⟩ := complete.voted t' leader v entries ballot
    have held : (ledger.leaderLog t).take (c + 1) <+: entries := by
      rcases kept t m ack later (c + 1) within with held | ⟨s, after, before, ledBetween, missing⟩
      · exact held
      · exact absurd (ih s before after ledBetween) missing
    have rooted : ledger.Rooted termOf initial := by
      obtain ⟨rest, whole⟩ := start
      have taken : initial = (ledger.leaderLog t').take initial.length := by simp [← whole]
      rw [taken]
      exact (complete.sound.leaderRooted t' led).take _
    refine (complete.sound.carries fresh ledEarlier found current rooted ascending held ?_).trans start
    intro s after recent ledBetween
    refine ih s ?_ after ledBetween
    by_cases empty : initial = []
    · rw [empty] at recent
      exact absurd (after.trans_le recent) (Nat.not_lt_zero _)
    · obtain ⟨last, atEnd⟩ := exists_last (length_pos_of_ne_nil empty)
      have ending : lastTerm termOf initial = termOf last := lastTerm_of_getElem? atEnd
      have := old last (mem_of_getElem? atEnd)
      omega

theorem Complete.acknowledged_holds {n : ν} (ack : (n, t, m) ∈ ledger.acks) (within : c < m) :
    (ledger.leaderLog t).take (c + 1) <+: ledger.log n := by
  obtain ⟨_, _, _, kept⟩ := complete.acked n t m ack
  rcases kept (c + 1) within with held | ⟨t', after, _, led, missing⟩
  · exact held
  · exact absurd (complete.leader_completeness meet certified after led) missing

end

theorem Certified.grow (certified : ledger.Certified termOf quorum t c)
    (grows : Extends termOf ledger.toView ledger'.toView)
    (acks : ledger.acks ⊆ ledger'.acks) : ledger'.Certified termOf quorum t c := by
  obtain ⟨led, ⟨entry, found, current⟩, holders, enough, holds⟩ := certified
  obtain ⟨stillLed, fresh, grown, _⟩ := grows t led
  refine ⟨stillLed, ⟨entry, ?_, current⟩, holders, enough, fun n member => ?_⟩
  · have inside := (List.getElem?_eq_some_iff.mp found).1
    rw [grown, getElem?_append_left inside]
    exact found
  · obtain ⟨m, within, ack⟩ := holds n member
    exact ⟨m, within, acks ack⟩

structure Grows (termOf : ε → Nat) (ledger ledger' : Ledger ν ε) : Prop where
  view : Extends termOf ledger.toView ledger'.toView
  ballots : ledger.ballots ⊆ ledger'.ballots
  acks : ledger.acks ⊆ ledger'.acks
  commits : ledger.commits ⊆ ledger'.commits

theorem Grows.refl (termOf : ε → Nat) (ledger : Ledger ν ε) : Grows termOf ledger ledger :=
  ⟨.refl termOf _, Subset.refl _, Subset.refl _, Subset.refl _⟩

theorem Grows.trans {ledger'' : Ledger ν ε} (before : Grows termOf ledger ledger')
    (after : Grows termOf ledger' ledger'') : Grows termOf ledger ledger'' :=
  ⟨before.view.trans after.view, before.ballots.trans after.ballots, before.acks.trans after.acks,
    before.commits.trans after.commits⟩

section Moves

variable [DecidableEq ν] (ledger : Ledger ν ε) (n : ν)

def raise (t : Nat) : Ledger ν ε := { ledger with toView := ledger.toView.raise n t }

def vote (candidate : ν) : Ledger ν ε :=
  { ledger with ballots := insert (ledger.term n, candidate, n, ledger.log n) ledger.ballots }

def elect : Ledger ν ε := { ledger with toView := ledger.toView.elect n }

def append (entries : List ε) : Ledger ν ε := { ledger with toView := ledger.toView.append n entries }

def adopt (k : Nat) : Ledger ν ε := { ledger with toView := ledger.toView.adopt n k }

def ack (m : Nat) : Ledger ν ε := { ledger with acks := insert (n, ledger.term n, m) ledger.acks }

def commit (c : Nat) : Ledger ν ε :=
  { ledger with commits := insert (ledger.term n, c) ledger.commits }

/-- One move of a node: a vote is given while the term has no leader, an election needs a quorum of
    votes of nodes that are not ahead, and adopting a log drops nothing that is shared with it. -/
inductive Move (termOf : ε → Nat) (quorum : Finset ν → Prop) : Ledger ν ε → Ledger ν ε → Prop
  | raise (ledger : Ledger ν ε) (n : ν) (t : Nat) (later : ledger.term n ≤ t) :
      Move termOf quorum ledger (ledger.raise n t)
  | vote (ledger : Ledger ν ε) (n candidate : ν) (vacant : ledger.leader (ledger.term n) = none) :
      Move termOf quorum ledger (ledger.vote n candidate)
  | elect (ledger : Ledger ν ε) (n : ν) (electors : Finset ν)
      (vacant : ledger.leader (ledger.term n) = none) (majority : quorum electors)
      (votes : ∀ v ∈ electors, ∃ entries, (ledger.term n, n, v, entries) ∈ ledger.ballots ∧
        UpToDate termOf (ledger.log n) entries) : Move termOf quorum ledger (ledger.elect n)
  | append (ledger : Ledger ν ε) (n : ν) (entries : List ε)
      (leads : ledger.leader (ledger.term n) = some n)
      (fresh : ∀ entry ∈ entries, termOf entry = ledger.term n) :
      Move termOf quorum ledger (ledger.append n entries)
  | adopt (ledger : Ledger ν ε) (n : ν) (k : Nat) (led : (ledger.leader (ledger.term n)).isSome)
      (other : ledger.leader (ledger.term n) ≠ some n)
      (shared : SharedWithin (ledger.log n) (ledger.leaderLog (ledger.term n)) k) :
      Move termOf quorum ledger (ledger.adopt n k)
  | ack (ledger : Ledger ν ε) (n : ν) (m : Nat) (led : (ledger.leader (ledger.term n)).isSome)
      (inside : m ≤ (ledger.leaderLog (ledger.term n)).length)
      (held : (ledger.leaderLog (ledger.term n)).take m <+: ledger.log n) :
      Move termOf quorum ledger (ledger.ack n m)
  | commit (ledger : Ledger ν ε) (n : ν) (c : Nat)
      (certified : ledger.Certified termOf quorum (ledger.term n) c) :
      Move termOf quorum ledger (ledger.commit n c)

end Moves

section

variable (complete : ledger.Complete termOf quorum)
include complete

theorem Complete.early {n : ν} (vacant : ledger.leader (ledger.term n) = none) :
    ∀ entry ∈ ledger.log n, termOf entry < ledger.term n := by
  intro entry member
  obtain ⟨k, found⟩ := getElem?_of_mem member
  have led := (complete.sound.rooted n k entry found).1
  have bound := (complete.sound.ascending n).2 entry member
  have other : termOf entry ≠ ledger.term n := by
    intro same
    rw [same, vacant] at led
    cases led
  omega

theorem Complete.vote (n candidate : ν) (vacant : ledger.leader (ledger.term n) = none) :
    (ledger.vote n candidate).Complete termOf quorum := by
  refine
    { sound := complete.sound, acked := complete.acked, voted := ?_, elected := ?_
      committed := fun t c noted =>
        (complete.committed t c noted).grow (.refl termOf ledger.toView) (Subset.refl _) }
  · intro t c v entries ballot
    rcases mem_insert_iff.mp ballot with new | old
    · cases new
      refine ⟨le_rfl, complete.sound.ascending n, fun s m ack _ => ?_⟩
      obtain ⟨_, _, _, held⟩ := complete.acked n s m ack
      intro j small
      rcases held j small with held | ⟨t', after, before, led, missing⟩
      · exact .inl held
      · have distinct : t' ≠ ledger.term n := by
          rintro rfl
          rw [vacant] at led
          cases led
        exact .inr ⟨t', after, by omega, led, missing⟩
    · exact complete.voted t c v entries old
  · intro t c leads
    obtain ⟨initial, start, early, electors, majority, votes⟩ := complete.elected t c leads
    refine ⟨initial, start, early, electors, majority, fun v member => ?_⟩
    obtain ⟨entries, ballot, fresh⟩ := votes v member
    exact ⟨entries, mem_insert_of_mem _ ballot, fresh⟩

theorem Complete.ack (n : ν) (m : Nat) (led : (ledger.leader (ledger.term n)).isSome)
    (inside : m ≤ (ledger.leaderLog (ledger.term n)).length)
    (held : (ledger.leaderLog (ledger.term n)).take m <+: ledger.log n) :
    (ledger.ack n m).Complete termOf quorum := by
  refine
    { sound := complete.sound, acked := ?_, voted := ?_, elected := complete.elected
      committed := fun t c noted =>
        (complete.committed t c noted).grow (.refl termOf ledger.toView) (subset_insert _ _) }
  · intro v t k ack
    rcases mem_insert_iff.mp ack with new | old
    · cases new
      refine ⟨le_rfl, led, inside, fun j small => .inl ?_⟩
      exact (take_prefix_take_left small).trans held
    · exact complete.acked v t k old
  · intro t c v entries ballot
    obtain ⟨reached, ascending, kept⟩ := complete.voted t c v entries ballot
    refine ⟨reached, ascending, fun s k ack before => ?_⟩
    rcases mem_insert_iff.mp ack with new | old
    · cases new
      exact absurd before (not_lt.mpr reached)
    · exact kept s k old before

theorem Complete.commit (n : ν) (c : Nat) (certified : ledger.Certified termOf quorum (ledger.term n) c) :
    (ledger.commit n c).Complete termOf quorum := by
  refine { complete with committed := ?_ }
  intro t k noted
  have same : Extends termOf ledger.toView (ledger.commit n c).toView := .refl termOf ledger.toView
  rcases mem_insert_iff.mp noted with new | old
  · cases new
    exact certified.grow same (Subset.refl _)
  · exact (complete.committed t k old).grow same (Subset.refl _)

end

variable [DecidableEq ν]

theorem Move.turn (move : Move termOf quorum ledger ledger') :
    ledger'.toView = ledger.toView ∨ Turn termOf ledger.toView ledger'.toView := by
  cases move with
  | raise n t later => exact .inr (.raise n t later)
  | elect n electors vacant majority votes => exact .inr (.elect n vacant)
  | append n entries leads fresh => exact .inr (.append n entries leads fresh)
  | adopt n k led other shared => exact .inr (.adopt n k led other)
  | _ => exact .inl rfl

theorem Move.extends (move : Move termOf quorum ledger ledger') (sound : ledger.Sound termOf) :
    Extends termOf ledger.toView ledger'.toView := by
  rcases move.turn with same | turn
  · rw [same]
    exact .refl termOf ledger.toView
  · exact turn.extends sound

section

variable (complete : ledger.Complete termOf quorum)
include complete

theorem Complete.turn {view' : View ν ε} (turn : Turn termOf ledger.toView view')
    (terms : ∀ n, ledger.term n ≤ view'.term n)
    (kept : ∀ n t m, (n, t, m) ∈ ledger.acks → view'.Kept t m (ledger.term n + 1) (ledger.log n) →
      view'.Kept t m (view'.term n + 1) (view'.log n))
    (elected : ∀ t c, view'.leader t = some c → ledger.leader t = some c ∨
      (∀ entry ∈ view'.leaderLog t, termOf entry < t) ∧ ∃ electors, quorum electors ∧
        ∀ v ∈ electors, ∃ entries, (t, c, v, entries) ∈ ledger.ballots ∧
          UpToDate termOf (view'.leaderLog t) entries) :
    ({ ledger with toView := view' } : Ledger ν ε).Complete termOf quorum := by
  have grows := turn.extends complete.sound
  refine
    { sound := turn.sound complete.sound, acked := ?_, voted := ?_, elected := ?_
      committed := fun t c noted => (complete.committed t c noted).grow grows (Subset.refl _) }
  · intro n t m ack
    obtain ⟨reached, led, inside, held⟩ := complete.acked n t m ack
    obtain ⟨stillLed, fresh, grown, _⟩ := grows t led
    refine ⟨reached.trans (terms n), stillLed, ?_, ?_⟩
    · rw [grown, length_append]
      omega
    · exact kept n t m ack (held.grow complete.sound led inside grows)
  · intro t c v entries ballot
    obtain ⟨reached, ascending, held⟩ := complete.voted t c v entries ballot
    refine ⟨reached.trans (terms v), ascending, fun s m ack before => ?_⟩
    obtain ⟨_, led, inside, _⟩ := complete.acked v s m ack
    exact (held s m ack before).grow complete.sound led inside grows
  · intro t c leads
    rcases elected t c leads with old | ⟨early, electors, majority, votes⟩
    · obtain ⟨initial, start, early, rest⟩ := complete.elected t c old
      obtain ⟨_, fresh, grown, _⟩ := grows t (by rw [old]; rfl)
      refine ⟨initial, ?_, early, rest⟩
      rw [grown]
      exact start.trans (prefix_append _ _)
    · exact ⟨view'.leaderLog t, prefix_rfl, early, electors, majority, votes⟩

theorem Complete.raise (n : ν) (t : Nat) (later : ledger.term n ≤ t) :
    (ledger.raise n t).Complete termOf quorum := by
  have terms : ∀ m, ledger.term m ≤ (ledger.toView.raise n t).term m := by
    intro m
    by_cases same : m = n
    · subst same
      simpa [View.raise] using later
    · simp [View.raise, same]
  exact complete.turn (.raise n t later) terms (fun m _ _ _ held => held.mono (Nat.succ_le_succ (terms m)) prefix_rfl)
    (fun _ _ leads => .inl leads)

theorem Complete.elect (n : ν) {electors : Finset ν} (vacant : ledger.leader (ledger.term n) = none)
    (majority : quorum electors)
    (votes : ∀ v ∈ electors, ∃ entries, (ledger.term n, n, v, entries) ∈ ledger.ballots ∧
      UpToDate termOf (ledger.log n) entries) : (ledger.elect n).Complete termOf quorum := by
  refine complete.turn (.elect n vacant) (fun _ => le_rfl) (fun _ _ _ _ held => held) ?_
  intro t c leads
  by_cases same : t = ledger.term n
  · subst same
    simp only [View.elect, Function.update_self, Option.some.injEq] at leads ⊢
    subst leads
    exact .inr ⟨complete.early vacant, electors, majority, votes⟩
  · simp only [View.elect, Function.update_of_ne same] at leads
    exact .inl leads

theorem Complete.append (n : ν) (entries : List ε) (leads : ledger.leader (ledger.term n) = some n)
    (fresh : ∀ entry ∈ entries, termOf entry = ledger.term n) :
    (ledger.append n entries).Complete termOf quorum := by
  refine complete.turn (.append n entries leads fresh) (fun _ => le_rfl) ?_ (fun _ _ leads => .inl leads)
  intro m _ _ _ held
  refine held.mono le_rfl ?_
  by_cases same : m = n
  · subst same
    simp [View.append]
  · simp [View.append, same]

theorem Complete.adopt (n : ν) (k : Nat) (led : (ledger.leader (ledger.term n)).isSome)
    (other : ledger.leader (ledger.term n) ≠ some n)
    (shared : SharedWithin (ledger.log n) (ledger.leaderLog (ledger.term n)) k) :
    (ledger.adopt n k).Complete termOf quorum := by
  refine complete.turn (.adopt n k led other) (fun _ => le_rfl) ?_ (fun _ _ leads => .inl leads)
  intro v t m ack held
  by_cases same : v = n
  · subst same
    obtain ⟨reached, _, inside, _⟩ := complete.acked v t m ack
    intro j small
    -- What was held is shared with the leader and stays, or the leader lacks it.
    rcases held j small with held | missing
    · by_cases common : (ledger.leaderLog t).take j <+: ledger.leaderLog (ledger.term v)
      · left
        simp only [View.adopt, Function.update_self]
        exact prefix_take_iff.mpr ⟨common, shared _ held common⟩
      right
      refine ⟨ledger.term v, ?_, Nat.lt_succ_self _, led, common⟩
      rcases lt_or_ge t (ledger.term v) with before | same
      · exact before
      · obtain rfl : t = ledger.term v := le_antisymm reached same
        exact absurd ( take_prefix j _) common
    · exact .inr missing
  · simpa [View.adopt, same] using held

end

theorem Move.complete (move : Move termOf quorum ledger ledger')
    (complete : ledger.Complete termOf quorum) : ledger'.Complete termOf quorum := by
  cases move with
  | raise n t later => exact complete.raise n t later
  | vote n candidate vacant => exact complete.vote n candidate vacant
  | elect n electors vacant majority votes => exact complete.elect n vacant majority votes
  | append n entries leads fresh => exact complete.append n entries leads fresh
  | adopt n k led other shared => exact complete.adopt n k led other shared
  | ack n m led inside held => exact complete.ack n m led inside held
  | commit n c certified => exact complete.commit n c certified

theorem Move.grows (move : Move termOf quorum ledger ledger') (sound : ledger.Sound termOf) :
    Grows termOf ledger ledger' where
  view := move.extends sound
  ballots := by
    cases move with
    | vote => exact subset_insert _ _
    | _ => exact Subset.refl _
  acks := by
    cases move with
    | ack => exact subset_insert _ _
    | _ => exact Subset.refl _
  commits := by
    cases move with
    | commit => exact subset_insert _ _
    | _ => exact Subset.refl _

section

variable (moves : Relation.ReflTransGen (Move termOf quorum) ledger ledger')
  (complete : ledger.Complete termOf quorum)
include moves complete

theorem moves_complete : ledger'.Complete termOf quorum := by
  induction moves with
  | refl => exact complete
  | tail _ move ih => exact move.complete ih

theorem moves_grow : Grows termOf ledger ledger' := by
  induction moves with
  | refl => exact .refl termOf ledger
  | tail before move ih => exact ih.trans (move.grows (moves_complete before complete).sound)

end

end Ledger

end Foundation
