import Mathlib

/-! Containment of JSON values, the operator `@>`. -/

namespace Takyonic.Sql

/-- A `serde_json` value over the numbers it can hold. A map holds one value for each of its keys. -/
inductive Json (ν : Type) where
  | null
  | bool (value : Bool)
  | number (value : ν)
  | string (value : String)
  | array (length : Nat) (elements : Fin length → Json ν)
  | object (keys : Finset String) (fields : {key // key ∈ keys} → Json ν)

variable {ν : Type} [BEq ν]

def jsonValueContains : Json ν → Json ν → Bool
  | .null, .null => true
  | _, .null => false
  | .object keys fields, .object needed needs =>
    decide (∀ key : needed, ∃ held : key.1 ∈ keys, jsonValueContains (fields ⟨key, held⟩) (needs key) = true)
  | .array _ elements, .array _ needs => decide (∀ j, ∃ i, jsonValueContains (elements i) (needs j) = true)
  | .array _ elements, other => decide (∃ i, jsonValueContains (elements i) other = true)
  | .bool left, .bool right => left == right
  | .number left, .number right => left == right
  | .string left, .string right => left == right
  | _, _ => false

variable [EquivBEq ν]

theorem jsonValueContains_refl (value : Json ν) : jsonValueContains value value := by
  induction value with
  | null => rfl
  | bool value | string value | number value => simp [jsonValueContains]
  | array length elements ih =>
    simp only [jsonValueContains, decide_eq_true_eq]
    exact fun j => ⟨j, ih j⟩
  | object keys fields ih =>
    simp only [jsonValueContains, decide_eq_true_eq]
    exact fun key => ⟨key.2, ih key⟩

theorem jsonValueContains_trans {hay middle need : Json ν} (first : jsonValueContains hay middle)
    (second : jsonValueContains middle need) : jsonValueContains hay need := by
  induction hay generalizing middle need with
  | null => cases middle with
    | null => exact second
    | _ => simp only [jsonValueContains, Bool.false_eq_true] at first
  | bool value | string value =>
    cases middle <;> simp only [jsonValueContains, Bool.false_eq_true, beq_iff_eq] at first
    subst first
    exact second
  | number value =>
    cases middle <;> simp only [jsonValueContains, Bool.false_eq_true] at first
    cases need <;> simp only [jsonValueContains, Bool.false_eq_true] at second ⊢
    exact BEq.trans first second
  | object keys fields ih =>
    cases middle <;> simp only [jsonValueContains, Bool.false_eq_true, decide_eq_true_eq] at first
    cases need <;> simp only [jsonValueContains, Bool.false_eq_true, decide_eq_true_eq] at second ⊢
    intro key
    obtain ⟨has, below⟩ := second key
    obtain ⟨held, above⟩ := first ⟨key, has⟩
    exact ⟨held, ih _ above below⟩
  | array length elements ih =>
    cases middle with
    | null => simp only [jsonValueContains, Bool.false_eq_true] at first
    | array _ between =>
      simp only [jsonValueContains, decide_eq_true_eq] at first
      have lifted : ∀ {need : Json ν}, (∃ j, jsonValueContains (between j) need) →
          ∃ i, jsonValueContains (elements i) need := by
        rintro need ⟨j, below⟩
        obtain ⟨i, above⟩ := first j
        exact ⟨i, ih i above below⟩
      cases need <;> simp only [jsonValueContains, decide_eq_true_eq, reduceCtorEq] at second ⊢
      case array => exact fun k => lifted (second k)
      all_goals exact lifted second
    | bool | number | string | object =>
      simp only [jsonValueContains, decide_eq_true_eq] at first
      obtain ⟨i, above⟩ := first
      have held := ih i above second
      cases need <;> simp only [jsonValueContains, decide_eq_true_eq, reduceCtorEq] at second ⊢
      all_goals exact ⟨i, held⟩

theorem jsonValueContains_preorder : (∀ value : Json ν, jsonValueContains value value) ∧
    ∀ hay middle need : Json ν, jsonValueContains hay middle → jsonValueContains middle need →
      jsonValueContains hay need :=
  ⟨jsonValueContains_refl, fun _ _ _ => jsonValueContains_trans⟩

theorem jsonValueContains_preorder_nested :
    jsonValueContains (.array 1 fun _ => .array 1 fun _ => .number 1) (.number (1 : Int)) :=
  jsonValueContains_preorder.2 _ (.array 1 fun _ => .number 1) _ (by decide) (by decide)

end Takyonic.Sql
