import Mathlib

/-! Runs of a deterministic step function over a list of labels, the induction rules for what
holds along them, and forward simulation by an abstract relation. -/

namespace Foundation

variable {σ ℓ α : Type*}

def run (step : σ → ℓ → σ) (start : σ) (labels : List ℓ) : σ := labels.foldl step start

/-- Every step of the run, taken in the state where it is taken, meets `cond`. -/
def Along (step : σ → ℓ → σ) (cond : σ → ℓ → Prop) : σ → List ℓ → Prop
  | _, [] => True
  | state, label :: rest => cond state label ∧ Along step cond (step state label) rest

instance Along.decidable (step : σ → ℓ → σ) (cond : σ → ℓ → Prop) [∀ state label, Decidable (cond state label)] :
    (state : σ) → (labels : List ℓ) → Decidable (Along step cond state labels)
  | _, [] => isTrue True.intro
  | state, label :: rest =>
    have := Along.decidable step cond (step state label) rest
    inferInstanceAs (Decidable (_ ∧ _))

variable {step : σ → ℓ → σ} {cond : σ → ℓ → Prop} {labels : List ℓ}

@[simp] theorem run_nil (start : σ) : run step start [] = start := rfl

@[simp] theorem run_cons (start : σ) (label : ℓ) (rest : List ℓ) :
    run step start (label :: rest) = run step (step start label) rest := rfl

theorem run_append (start : σ) (first second : List ℓ) :
    run step start (first ++ second) = run step (run step start first) second :=
  List.foldl_append

variable {start : σ} {P : σ → Prop}

theorem run_invariant {allowed : ℓ → Prop} (each : ∀ label ∈ labels, allowed label) (initial : P start)
    (preserved : ∀ state label, P state → allowed label → P (step state label)) : P (run step start labels) := by
  induction labels generalizing start with
  | nil => exact initial
  | cons label rest ih =>
    exact ih (fun other member => each other (List.mem_cons_of_mem _ member))
      (preserved start label initial (each label List.mem_cons_self))

theorem Along.append {first second : List ℓ} :
    Along step cond start (first ++ second) ↔
      Along step cond start first ∧ Along step cond (run step start first) second := by
  induction first generalizing start with
  | nil => simp [Along]
  | cons label rest ih => simp [Along, ih, and_assoc]

variable {other : σ → ℓ → Prop}

theorem Along.and (first : Along step cond start labels) (second : Along step other start labels) :
    Along step (fun state label => cond state label ∧ other state label) start labels := by
  induction labels generalizing start with
  | nil => exact True.intro
  | cons label rest ih => exact ⟨⟨first.1, second.1⟩, ih first.2 second.2⟩

section

variable (along : Along step cond start labels)
include along

theorem Along.mono (weaker : ∀ state label, cond state label → other state label) :
    Along step other start labels := by
  induction labels generalizing start with
  | nil => exact True.intro
  | cons label rest ih => exact ⟨weaker _ _ along.1, ih along.2⟩

theorem Along.invariant (initial : P start)
    (preserved : ∀ state label, P state → cond state label → P (step state label)) : P (run step start labels) := by
  induction labels generalizing start with
  | nil => exact initial
  | cons label rest ih => exact ih along.2 (preserved _ _ initial along.1)

theorem Along.each {result : σ → ℓ → Prop} (initial : P start)
    (stepwise : ∀ state label, P state → cond state label → P (step state label) ∧ result state label) :
    Along step result start labels := by
  induction labels generalizing start with
  | nil => exact True.intro
  | cons label rest ih =>
    have here := stepwise start label initial along.1
    exact ⟨here.2, ih along.2 here.1⟩

theorem Along.simulation {related : σ → α → Prop} {move : α → α → Prop} {abstract : α}
    (initial : related start abstract) (matched : ∀ state label view, related state view → cond state label →
      ∃ view', Relation.ReflTransGen move view view' ∧ related (step state label) view') :
    ∃ view', Relation.ReflTransGen move abstract view' ∧
      related (run step start labels) view' := by
  induction labels generalizing start abstract with
  | nil => exact ⟨abstract, .refl, initial⟩
  | cons label rest ih =>
    obtain ⟨middle, first, here⟩ := matched _ _ _ initial along.1
    obtain ⟨last, second, there⟩ := ih along.2 here
    exact ⟨last, first.trans second, there⟩

end

/-! The calls in progress have different ids, and a step replaces one of them or ends it. -/

open List

variable {ι : Type*} {id : α → ι} {front back : List α} {call other : α} {next : Option α}

theorem mem_replaced (distinct : (front ++ call :: back).Pairwise fun first second => id first ≠ id second)
    (present : other ∈ front ++ (next.toList ++ back)) :
    other ∈ front ++ call :: back ∧ id other ≠ id call ∨ other ∈ next := by
  rw [pairwise_append, pairwise_cons] at distinct
  obtain ⟨_, ⟨behind, _⟩, across⟩ := distinct
  rcases mem_append.mp present with present | present
  · exact .inl ⟨mem_append_left _ present, across other present call mem_cons_self⟩
  rcases mem_append.mp present with present | present
  · exact .inr (Option.mem_toList.mp present)
  · exact .inl ⟨mem_append_right _ (mem_cons_of_mem _ present), (behind other present).symm⟩

theorem mem_changed (present : other ∈ front ++ (next.toList ++ back)) :
    other ∈ front ++ call :: back ∨ other ∈ next := by
  simp only [mem_append, Option.mem_toList] at present ⊢
  tauto

theorem mem_unreplaced (member : other ∈ front ++ call :: back) (apart : id other ≠ id call) :
    other ∈ front ++ (next.toList ++ back) := by
  have ne : other ≠ call := fun same => apart (congrArg id same)
  simp only [mem_append, mem_cons] at member ⊢
  tauto

theorem mem_replacement {new : α} (present : new ∈ next) : new ∈ front ++ (next.toList ++ back) :=
  mem_append_right _ (mem_append_left _ (Option.mem_toList.mpr present))

theorem pairwise_replaced (distinct : (front ++ call :: back).Pairwise fun first second => id first ≠ id second)
    (same : ∀ new ∈ next, id new = id call) :
    (front ++ (next.toList ++ back)).Pairwise fun first second => id first ≠ id second := by
  cases next with
  | none => exact distinct.sublist ((sublist_cons_self call back).append_left front)
  | some new =>
    rw [pairwise_append, pairwise_cons] at distinct
    rw [Option.toList_some, singleton_append, pairwise_append, pairwise_cons, same new rfl]
    refine ⟨distinct.1, distinct.2.1, fun first member second inside => ?_⟩
    rcases mem_cons.mp inside with rfl | inside
    · rw [same second rfl]
      exact distinct.2.2 first member call mem_cons_self
    · exact distinct.2.2 first member second (mem_cons_of_mem _ inside)

end Foundation
