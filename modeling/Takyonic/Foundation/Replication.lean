import Mathlib

/-! Lists of entries that carry a term: when two of them agree, and what is left of one after a
batch of another has been written over it. -/

namespace Foundation

open List

variable {ε : Type*} {termOf : ε → Nat} {n k : Nat}

def Agree (termOf : ε → Nat) (first second : List ε) : Prop :=
  ∀ k a b, first[k]? = some a → second[k]? = some b → termOf a = termOf b →
    first.take (k + 1) = second.take (k + 1)

def SharedWithin (first second : List ε) (k : Nat) : Prop :=
  ∀ common, common <+: first → common <+: second → common.length ≤ k

/-- Write `batch` from position `k` on: entries that are there with their term stay, the first one
    that is not replaces everything from its position on. -/
def overwrite (termOf : ε → Nat) (full : List ε) : Nat → List ε → List ε
  | _, [] => full
  | k, entry :: rest =>
    match full[k]? with
    | some old =>
      if termOf old = termOf entry then overwrite termOf full (k + 1) rest
      else full.take k ++ entry :: rest
    | none => full ++ entry :: rest

/-- What `overwrite` keeps before it adds anything. -/
def cut (termOf : ε → Nat) (full : List ε) : Nat → List ε → List ε
  | _, [] => full
  | k, entry :: rest =>
    match full[k]? with
    | some old => if termOf old = termOf entry then cut termOf full (k + 1) rest else full.take k
    | none => full

variable {second first : List ε}

theorem getElem?_of_take_eq (same : first.take n = second.take n) (below : k < n) : first[k]? = second[k]? := by
  have step := congrArg (fun entries => entries[k]?) same
  simpa [getElem?_take, below] using step

theorem sharedWithin_of_ne {a b : ε} (atFirst : first[k]? = some a) (atSecond : second[k]? = some b)
    (different : a ≠ b) (bound : k ≤ n) : SharedWithin first second n := by
  intro common inFirst inSecond
  by_contra long
  have below : k < common.length := by omega
  have fromFirst := prefix_iff_getElem?.mp inFirst k below
  have fromSecond := prefix_iff_getElem?.mp inSecond k below
  exact different (by simp_all)

theorem sharedWithin_of_length (bound : first.length ≤ n) : SharedWithin first second n :=
  fun _ inFirst _ => Nat.le_trans inFirst.length_le bound

variable {source : List ε} {entry : ε}

theorem slice_cons {rest : List ε} (slice : entry :: rest = (source.drop k).take (rest.length + 1)) :
    source[k]? = some entry ∧ rest = (source.drop (k + 1)).take rest.length := by
  have atSource : source[k]? = some entry := by
    have first := congrArg (fun entries => entries[0]?) slice
    simpa [getElem?_take, getElem?_drop] using first.symm
  obtain ⟨inside, _⟩ := List.getElem?_eq_some_iff.mp atSource
  rw [drop_eq_getElem_cons inside] at slice
  exact ⟨atSource, (cons.inj slice).2⟩

variable {batch : List ε}

theorem slice_mono {longer : List ε} (continued : source <+: longer)
    (slice : batch = (source.drop k).take batch.length) : batch = (longer.drop k).take batch.length := by
  obtain ⟨more, rfl⟩ := continued
  have lengths := congrArg length slice
  simp only [length_take, length_drop] at lengths
  rcases Nat.eq_zero_or_pos batch.length with none | some
  · rw [length_eq_zero_iff.mp none]
    simp
  · rw [drop_append_of_le_length (by omega), take_append_of_le_length (by simp; omega)]
    exact slice

variable {full : List ε}

theorem mem_overwrite (member : entry ∈ overwrite termOf full k batch) : entry ∈ full ∨ entry ∈ batch := by
  induction batch generalizing k with
  | nil => exact .inl member
  | cons first rest ih =>
    unfold overwrite at member
    split at member
    · split at member
      · exact (ih member).imp_right (mem_cons_of_mem _)
      · rcases mem_append.mp member with old | new
        · exact .inl (mem_of_mem_take old)
        · exact .inr new
    · exact mem_append.mp member

theorem mem_cut (member : entry ∈ cut termOf full k batch) : entry ∈ full := by
  induction batch generalizing k with
  | nil => exact member
  | cons first rest ih =>
    unfold cut at member
    split at member
    · split at member
      · exact ih member
      · exact mem_of_mem_take member
    · exact member

theorem overwrite_slice (agree : Agree termOf full source) (batch : List ε) (k : Nat)
    (same : full.take k = source.take k) (inside : k ≤ full.length)
    (slice : batch = (source.drop k).take batch.length) :
    overwrite termOf full k batch = full ∧
        full.take (k + batch.length) = source.take (k + batch.length) ∨
      overwrite termOf full k batch = source.take (k + batch.length) ∧
        SharedWithin full source (k + batch.length) := by
  induction batch generalizing k with
  | nil => exact .inl ⟨rfl, by simpa using same⟩
  | cons entry rest ih =>
    obtain ⟨atSource, later⟩ := slice_cons slice
    have written : source.take k ++ entry :: rest = source.take (k + (rest.length + 1)) := by
      rw [take_add, ← length_cons, ← slice]
    simp only [overwrite, length_cons]
    cases found : full[k]? with
    | none =>
      have ended : full.length ≤ k := getElem?_eq_none_iff.mp found
      right
      refine ⟨?_, sharedWithin_of_length (by omega)⟩
      rw [← written, ← same, take_of_length_le ended]
    | some old =>
      dsimp only
      split
      · rename_i equal
        have next := agree k old entry found atSource equal
        have within : k + 1 ≤ full.length := by
          have := (List.getElem?_eq_some_iff.mp found).1
          omega
        have result := ih (k + 1) next within later
        rwa [show k + 1 + rest.length = k + (rest.length + 1) by omega] at result
      · rename_i unequal
        right
        refine ⟨by rw [same, written], ?_⟩
        exact sharedWithin_of_ne found atSource (fun equal => unequal (by rw [equal])) (by omega)

theorem cut_slice (agree : Agree termOf full source) (batch : List ε) (k : Nat) (same : full.take k = source.take k)
    (slice : batch = (source.drop k).take batch.length) :
    cut termOf full k batch = full ∨
      ∃ n, cut termOf full k batch = source.take n ∧ SharedWithin full source n := by
  induction batch generalizing k with
  | nil => exact .inl rfl
  | cons entry rest ih =>
    obtain ⟨atSource, later⟩ := slice_cons slice
    simp only [cut]
    cases found : full[k]? with
    | none => exact .inl rfl
    | some old =>
      dsimp only
      split
      · rename_i equal
        exact ih (k + 1) (agree k old entry found atSource equal) later
      · rename_i unequal
        refine .inr ⟨k, same, ?_⟩
        exact sharedWithin_of_ne found atSource (fun equal => unequal (by rw [equal])) (Nat.le_refl k)

/-! A replicated log with one writer per term. Every node has a term and a log; a term may have a
leader, whose log it writes. Nodes move to later terms, win a vacant term, append as its leader or
take over a beginning of its leader's log, and that is all. -/

open Function

structure View (ν ε : Type*) where
  term : ν → Nat
  log : ν → List ε
  leader : Nat → Option ν
  leaderLog : Nat → List ε

namespace View

variable {ν ε : Type*} {termOf : ε → Nat}

def Rooted (termOf : ε → Nat) (view : View ν ε) (entries : List ε) : Prop :=
  ∀ k entry, entries[k]? = some entry → (view.leader (termOf entry)).isSome ∧
    entries.take (k + 1) = (view.leaderLog (termOf entry)).take (k + 1)

def Ascending (termOf : ε → Nat) (bound : Nat) (entries : List ε) : Prop :=
  entries.Pairwise (fun a b => termOf a ≤ termOf b) ∧ ∀ entry ∈ entries, termOf entry ≤ bound

structure Sound (termOf : ε → Nat) (view : View ν ε) : Prop where
  rooted : ∀ n, view.Rooted termOf (view.log n)
  leaderRooted : ∀ t, (view.leader t).isSome → view.Rooted termOf (view.leaderLog t)
  ascending : ∀ n, Ascending termOf (view.term n) (view.log n)
  leaderAscending : ∀ t, (view.leader t).isSome → Ascending termOf t (view.leaderLog t)
  reached : ∀ n t, view.leader t = some n → t ≤ view.term n
  own : ∀ n, view.leader (view.term n) = some n → view.log n = view.leaderLog (view.term n)

variable {view : View ν ε}

theorem Rooted.agree {first second : List ε} (left : view.Rooted termOf first) (right : view.Rooted termOf second) :
    Agree termOf first second := by
  intro k a b atFirst atSecond same
  rw [(left k a atFirst).2, (right k b atSecond).2, same]

variable {entries : List ε}

theorem Rooted.take (rooted : view.Rooted termOf entries) (n : Nat) : view.Rooted termOf (entries.take n) := by
  intro k entry found
  have below : k < n := by
    have := (List.getElem?_eq_some_iff.mp found).1
    simp only [length_take] at this
    omega
  have there : entries[k]? = some entry := by simpa [List.getElem?_take, below] using found
  refine ⟨(rooted k entry there).1, ?_⟩
  rw [← (rooted k entry there).2, take_take, Nat.min_eq_left (by omega)]

theorem Ascending.take {bound : Nat} (ascending : Ascending termOf bound entries) (n : Nat) :
    Ascending termOf bound (entries.take n) :=
  ⟨ascending.1.sublist (take_sublist n entries),
    fun entry member => ascending.2 entry (mem_of_mem_take member)⟩

theorem Ascending.mono {small large : Nat} (bound : small ≤ large) (ascending : Ascending termOf small entries) :
    Ascending termOf large entries :=
  ⟨ascending.1, fun entry member => Nat.le_trans (ascending.2 entry member) bound⟩

theorem Ascending.append {bound : Nat} {fresh : List ε} (ascending : Ascending termOf bound entries)
    (new : ∀ entry ∈ fresh, termOf entry = bound) : Ascending termOf bound (entries ++ fresh) := by
  constructor
  · refine pairwise_append.mpr ⟨ascending.1, ?_, ?_⟩
    · refine pairwise_of_forall_mem_list ?_
      intro a inFresh b inFresh'
      exact Nat.le_of_eq ((new a inFresh).trans (new b inFresh').symm)
    · intro a inOld b inFresh
      rw [new b inFresh]
      exact ascending.2 a inOld
  · refine forall_mem_append.mpr ⟨ascending.2, fun entry fresh => ?_⟩
    exact Nat.le_of_eq (new entry fresh)

variable {view view' : View ν ε}

theorem Rooted.grow (rooted : view.Rooted termOf entries)
    (leaders : ∀ t, (view.leader t).isSome → (view'.leader t).isSome ∧ view.leaderLog t <+: view'.leaderLog t) :
    view'.Rooted termOf entries := by
  intro k entry found
  obtain ⟨led, same⟩ := rooted k entry found
  obtain ⟨stillLed, suffix, grown⟩ := leaders _ led
  refine ⟨stillLed, ?_⟩
  have long : k + 1 ≤ (view.leaderLog (termOf entry)).length := by
    have lengths := congrArg List.length same
    have inside := (List.getElem?_eq_some_iff.mp found).1
    simp only [length_take] at lengths
    omega
  rw [same, ← grown, take_append_of_le_length long]

section Moves

variable [DecidableEq ν] (view : View ν ε) (n : ν)

def raise (t : Nat) : View ν ε := { view with term := update view.term n t }

def elect : View ν ε :=
  { view with
    leader := update view.leader (view.term n) (some n)
    leaderLog := update view.leaderLog (view.term n) (view.log n) }

def append (entries : List ε) : View ν ε :=
  { view with
    log := update view.log n (view.log n ++ entries)
    leaderLog := update view.leaderLog (view.term n) (view.log n ++ entries) }

def adopt (k : Nat) : View ν ε :=
  { view with log := update view.log n ((view.leaderLog (view.term n)).take k) }

end Moves

inductive Turn [DecidableEq ν] (termOf : ε → Nat) (view : View ν ε) : View ν ε → Prop
  | raise (n : ν) (t : Nat) (later : view.term n ≤ t) : Turn termOf view (view.raise n t)
  | elect (n : ν) (vacant : view.leader (view.term n) = none) : Turn termOf view (view.elect n)
  | append (n : ν) (entries : List ε) (leads : view.leader (view.term n) = some n)
      (fresh : ∀ entry ∈ entries, termOf entry = view.term n) :
      Turn termOf view (view.append n entries)
  | adopt (n : ν) (k : Nat) (led : (view.leader (view.term n)).isSome)
      (other : view.leader (view.term n) ≠ some n) : Turn termOf view (view.adopt n k)

variable [DecidableEq ν]

theorem Turn.leaderLog_prefix (turn : Turn termOf view view') (sound : view.Sound termOf) {t : Nat}
    {n : ν} (led : view.leader t = some n) :
    view'.leader t = some n ∧ view.leaderLog t <+: view'.leaderLog t := by
  cases turn with
  | raise => exact ⟨led, prefix_rfl⟩
  | elect m vacant =>
    have other : t ≠ view.term m := by
      rintro rfl
      rw [vacant] at led
      cases led
    simp [View.elect, other, led]
  | append m entries leads fresh =>
    refine ⟨led, ?_⟩
    by_cases same : t = view.term m
    · subst same
      simp [View.append, ← sound.own m leads]
    · simp [View.append, same]
  | adopt => exact ⟨led, prefix_rfl⟩

theorem Turn.grows (turn : Turn termOf view view') (sound : view.Sound termOf) (t : Nat)
    (led : (view.leader t).isSome) :
    (view'.leader t).isSome ∧ view.leaderLog t <+: view'.leaderLog t := by
  obtain ⟨n, led⟩ := Option.isSome_iff_exists.mp led
  obtain ⟨still, grown⟩ := turn.leaderLog_prefix sound led
  exact ⟨by rw [still]; rfl, grown⟩

section

variable (sound : view.Sound termOf)
include sound

theorem Sound.raise (n : ν) (t : Nat) (later : view.term n ≤ t) : (view.raise n t).Sound termOf where
  rooted := sound.rooted
  leaderRooted := sound.leaderRooted
  ascending := by
    intro m
    by_cases same : m = n
    · subst same
      simpa [View.raise] using (sound.ascending m).mono later
    · simpa [View.raise, same] using sound.ascending m
  leaderAscending := sound.leaderAscending
  reached := by
    intro m s led
    by_cases same : m = n
    · subst same
      simpa [View.raise] using Nat.le_trans (sound.reached m s led) later
    · simpa [View.raise, same] using sound.reached m s led
  own := by
    intro m leads
    by_cases same : m = n
    · subst same
      simp only [View.raise, update_self] at leads ⊢
      have bound := sound.reached m t leads
      obtain rfl : t = view.term m := Nat.le_antisymm bound later
      exact sound.own m leads
    · simp only [View.raise, update_of_ne same] at leads ⊢
      exact sound.own m leads

theorem Sound.elect (n : ν) (vacant : view.leader (view.term n) = none) : (view.elect n).Sound termOf := by
  have turn : Turn termOf view (view.elect n) := .elect n vacant
  have grow : ∀ {entries}, view.Rooted termOf entries → (view.elect n).Rooted termOf entries :=
    fun rooted => rooted.grow (turn.grows sound)
  refine
    { rooted := fun m => grow (sound.rooted m), leaderRooted := ?_, ascending := sound.ascending
      leaderAscending := ?_, reached := ?_, own := ?_ }
  · intro t led
    by_cases same : t = view.term n
    · subst same
      simpa [View.elect] using grow (sound.rooted n)
    · simp only [View.elect, update_of_ne same] at led ⊢
      exact grow (sound.leaderRooted t led)
  · intro t led
    by_cases same : t = view.term n
    · subst same
      simpa [View.elect] using sound.ascending n
    · simp only [View.elect, update_of_ne same] at led ⊢
      exact sound.leaderAscending t led
  · intro m t led
    by_cases same : t = view.term n
    · subst same
      simp only [View.elect, update_self, Option.some.injEq] at led
      subst led
      exact Nat.le_refl _
    · simp only [View.elect, update_of_ne same] at led
      exact sound.reached m t led
  · intro m leads
    by_cases same : view.term m = view.term n
    · simp only [View.elect, same, update_self, Option.some.injEq] at leads ⊢
      rw [leads]
    · simp only [View.elect, update_of_ne same] at leads ⊢
      exact sound.own m leads

theorem Sound.append (n : ν) (entries : List ε) (leads : view.leader (view.term n) = some n)
    (fresh : ∀ entry ∈ entries, termOf entry = view.term n) : (view.append n entries).Sound termOf := by
  have turn : Turn termOf view (view.append n entries) := .append n entries leads fresh
  have grow : ∀ {entries}, view.Rooted termOf entries → (view.append _ _).Rooted termOf entries :=
    fun rooted => rooted.grow (turn.grows sound)
  -- The new entries are rooted in the very log they extend.
  have extended : (view.append n entries).Rooted termOf (view.log n ++ entries) := by
    intro k entry found
    by_cases old : k < (view.log n).length
    · have there : (view.log n)[k]? = some entry := by rwa [List.getElem?_append_left old] at found
      obtain ⟨led, same⟩ := grow (sound.rooted n) k entry there
      refine ⟨led, ?_⟩
      rw [take_append_of_le_length (by omega)]
      exact same
    · have new : entry ∈ entries := by
        rw [List.getElem?_append_right (by omega)] at found
        exact mem_of_getElem? found
      rw [fresh entry new]
      simp [View.append, leads]
  refine
    { rooted := ?_, leaderRooted := ?_, ascending := ?_, leaderAscending := ?_, reached := sound.reached, own := ?_ }
  · intro m
    by_cases same : m = n
    · subst same
      simpa [View.append] using extended
    · simpa [View.append, same] using grow (sound.rooted m)
  · intro t led
    by_cases same : t = view.term n
    · subst same
      simpa [View.append] using extended
    · simpa [View.append, same] using grow (sound.leaderRooted t led)
  · intro m
    by_cases same : m = n
    · subst same
      simpa [View.append] using (sound.ascending m).append fresh
    · simpa [View.append, same] using sound.ascending m
  · intro t led
    by_cases same : t = view.term n
    · subst same
      simpa [View.append] using (sound.ascending n).append fresh
    · simpa [View.append, same] using sound.leaderAscending t led
  · intro m leading
    by_cases same : m = n
    · subst same
      simp [View.append]
    · have other : view.term m ≠ view.term n := by
        intro equal
        simp only [View.append, equal, leads, Option.some.injEq] at leading
        exact same leading.symm
      simpa [View.append, same, other] using sound.own m leading

theorem Sound.adopt (n : ν) (k : Nat) (led : (view.leader (view.term n)).isSome)
    (other : view.leader (view.term n) ≠ some n) : (view.adopt n k).Sound termOf where
  rooted := by
    intro m
    show view.Rooted termOf ((view.adopt n k).log m)
    by_cases same : m = n
    · subst same
      simpa [View.adopt] using (sound.leaderRooted _ led).take k
    · simpa [View.adopt, same] using sound.rooted m
  leaderRooted := sound.leaderRooted
  ascending := by
    intro m
    by_cases same : m = n
    · subst same
      simpa [View.adopt] using (sound.leaderAscending _ led).take k
    · simpa [View.adopt, same] using sound.ascending m
  leaderAscending := sound.leaderAscending
  reached := sound.reached
  own := by
    intro m leading
    by_cases same : m = n
    · subst same
      exact absurd leading other
    · simpa [View.adopt, same] using sound.own m leading

end

theorem Turn.sound (turn : Turn termOf view view') (sound : view.Sound termOf) :
    view'.Sound termOf := by
  cases turn with
  | raise n t later => exact sound.raise n t later
  | elect n vacant => exact sound.elect n vacant
  | append n entries leads fresh => exact sound.append n entries leads fresh
  | adopt n k led other => exact sound.adopt n k led other

section

variable (turns : Relation.ReflTransGen (Turn termOf) view view') (sound : view.Sound termOf)
include turns sound

theorem turns_sound : view'.Sound termOf := by
  induction turns with
  | refl => exact sound
  | tail _ turn ih => exact turn.sound ih

theorem turns_leaderLog_prefix {t : Nat} {n : ν} (led : view.leader t = some n) :
    view'.leader t = some n ∧ view.leaderLog t <+: view'.leaderLog t := by
  induction turns with
  | refl => exact ⟨led, prefix_rfl⟩
  | tail before turn ih =>
    obtain ⟨still, grown⟩ := ih
    obtain ⟨led, more⟩ := turn.leaderLog_prefix (turns_sound before sound) still
    exact ⟨led, grown.trans more⟩

end

end View

/-! Folds of updates that each leave a cell of the state alone or overwrite it. A history can then be
replayed from an earlier point on without an effect on the outcome. -/

variable {σ ω ν : Type*}

def Writes (cell : σ → ν) (update : σ → σ) : Prop :=
  (∀ state, cell (update state) = cell state) ∨ ∃ value, ∀ state, cell (update state) = value

variable {cell : σ → ν} {apply : σ → ω → σ}

theorem Writes.foldl (writes : ∀ op, Writes cell (fun state => apply state op)) (ops : List ω) :
    Writes cell (fun state => ops.foldl apply state) := by
  induction ops with
  | nil => exact .inl (fun _ => rfl)
  | cons op rest ih =>
    rcases ih with kept | ⟨value, written⟩
    · rcases writes op with keptHere | ⟨value, writtenHere⟩
      · exact .inl (fun state => (kept _).trans (keptHere state))
      · exact .inr ⟨value, fun state => (kept _).trans (writtenHere state)⟩
    · exact .inr ⟨value, fun state => written _⟩

theorem Writes.rebase (cell : σ → ν) (writes : ∀ op, Writes cell (fun state => apply state op)) {first second : σ}
    (mid post : List ω) (same : cell (post.foldl apply first) = cell ((mid ++ post).foldl apply second)) :
    cell ((mid ++ post).foldl apply first) = cell ((mid ++ post).foldl apply second) := by
  rw [List.foldl_append] at same ⊢
  rw [List.foldl_append]
  rcases Writes.foldl writes post with kept | ⟨value, written⟩
  · rw [kept, kept] at same
    rw [kept, kept]
    rcases Writes.foldl writes mid with keptMid | ⟨value, writtenMid⟩
    · rw [keptMid]
      exact same
    · rw [writtenMid, writtenMid]
  · rw [written, written]

end Foundation
