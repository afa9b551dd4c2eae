import Mathlib

/-! Floating-point numbers: their decimal texts, their integer parts and their order. -/

namespace Foundation

open Float.Model Int64

def splitSign : List Char → Bool × List Char
  | '-' :: rest => (true, rest)
  | '+' :: rest => (false, rest)
  | rest => (false, rest)

def natOfDigits (digits : List Char) : Nat :=
  digits.foldl (fun number digit => 10 * number + (digit.toNat - 48)) 0

def parseExponent : List Char → Option Int
  | [] => some 0
  | mark :: rest =>
    let (negative, digits) := splitSign rest
    if mark.toLower ≠ 'e' ∨ digits = [] ∨ ¬ digits.all Char.isDigit then none
    else some (if negative then -natOfDigits digits else natOfDigits digits)

def parseUnsigned (text : List Char) : Option Float :=
  let (whole, rest) := text.span Char.isDigit
  let (fraction, rest) := match rest with
    | '.' :: rest => rest.span Char.isDigit
    | rest => ([], rest)
  if whole = [] ∧ fraction = [] then none
  else (parseExponent rest).map fun exponent =>
    ⟨.ofScientific (natOfDigits (whole ++ fraction)) (exponent - fraction.length)⟩

def parseFloat (text : String) : Option Float :=
  let (negative, rest) := splitSign text.toList
  let lower := rest.map Char.toLower
  let magnitude : Option Float :=
    if lower = ['i', 'n', 'f'] ∨ lower = ['i', 'n', 'f', 'i', 'n', 'i', 't', 'y'] then
      some ⟨pack (.infinity .positive)⟩
    else if lower = ['n', 'a', 'n'] then some ⟨pack .notANumber⟩
    else parseUnsigned rest
  magnitude.map fun number => if negative then -number else number

def decimalPlaces (num den : Nat) : Int :=
  if den ≤ num then (Nat.toDigits 10 (num / den)).length
  else 1 - ((Nat.toDigits 10 ((den - 1) / num)).length : Int)

def roundTrip (number : Float.Model) (num den : Nat) (count : Nat) : Option (Nat × Int) :=
  let shift := (count : Int) - decimalPlaces num den
  let num := num * 10 ^ shift.toNat
  let den := den * 10 ^ (-shift).toNat
  let low := num / den
  let nearest := if 2 * (num % den) < den then [low, low + 1] else [low + 1, low]
  (nearest.find? fun digits => ofScientific digits (-shift) = number).map fun digits =>
    if digits = 10 ^ count then (1, count - shift) else (digits, -shift)

def positional (digits : Nat) (exponent : Int) : List Char :=
  let text := Nat.toDigits 10 digits
  if 0 ≤ exponent then text ++ List.replicate exponent.toNat '0'
  else
    let places := (-exponent).toNat
    let text := List.replicate (places + 1 - text.length) '0' ++ text
    text.take (text.length - places) ++ '.' :: text.drop (text.length - places)

def signed (sign : UnpackedFloat.Sign) (text : List Char) : String :=
  match sign with
  | .negative => String.ofList ('-' :: text)
  | .positive => String.ofList text

def floatToString (number : Float) : String :=
  match number.toModel.unpack with
  | .notANumber => "NaN"
  | .infinity sign => signed sign ['i', 'n', 'f']
  | .zero sign => signed sign ['0']
  | .finite sign mantissa exponent _ =>
    let num := mantissa * 2 ^ exponent.toNat
    let den := 2 ^ (-exponent).toNat
    let (digits, places) := ((List.range' 1 17).findSome? (roundTrip number.toModel.abs num den)).getD (num / den, 0)
    signed sign (positional digits places)

example : ["0.1", "-1e3", "2.50", ".5", "1e-7", "-0.0", "INF"].map (fun text => (parseFloat text).map floatToString) =
    [some "0.1", some "-1000", some "2.5", some "0.5", some "0.0000001", some "-0", some "inf"] := by
  decide +kernel

def floatOfInt (number : Int) : Float := ⟨.ofInt number⟩

def clampInt64 (number : Int) : Int64 :=
  ofInt (max (-(2 ^ 63)) (min number (2 ^ 63 - 1)))

/-- The conversion of a float whose magnitude is rounded by `round` to an integer, saturating at the bounds. -/
def floatToInt64 (round : Nat → Int → Nat) (number : Float) : Int64 :=
  match number.toModel.unpack with
  | .notANumber => 0
  | .infinity .positive => maxValue
  | .infinity .negative => minValue
  | .zero _ => 0
  | .finite sign mantissa exponent _ => clampInt64 (sign.apply (round mantissa exponent))

def truncated (mantissa : Nat) (exponent : Int) : Nat :=
  mantissa * 2 ^ exponent.toNat / 2 ^ (-exponent).toNat

def roundedHalfUp (mantissa : Nat) (exponent : Int) : Nat :=
  (2 * mantissa * 2 ^ exponent.toNat / 2 ^ (-exponent).toNat + 1) / 2

example : ["2.5", "-2.5", "1e30", "nan"].map (fun text => (parseFloat text).map fun number =>
    (floatToInt64 truncated number, floatToInt64 roundedHalfUp number)) =
    [some (2, 3), some (-2, -3), some (maxValue, maxValue), some (0, 0)] := by
  decide +kernel

/-- Where a float stands in the order, unless it is not a number: by its sign, then by its exponent and mantissa. -/
def floatRank : UnpackedFloat → Option (ℤ ×ₗ ℤ ×ₗ ℤ)
  | .notANumber => none
  | .infinity .positive => some (toLex (2, toLex (0, 0)))
  | .infinity .negative => some (toLex (-2, toLex (0, 0)))
  | .zero _ => some (toLex (0, toLex (0, 0)))
  | .finite .positive mantissa exponent _ => some (toLex (1, toLex (exponent, mantissa)))
  | .finite .negative mantissa exponent _ => some (toLex (-1, toLex (-exponent, -mantissa)))

theorem cmp_lex {α β : Type*} [LinearOrder α] [LinearOrder β] (a a' : α) (b b' : β) :
    cmp (toLex (a, b)) (toLex (a', b')) = (cmp a a').then (cmp b b') := by
  simp only [cmp_eq_compare]
  rfl

theorem cmp_neg_neg (a b : ℤ) : cmp (-a) (-b) = (cmp a b).swap := by
  rw [cmp_swap, cmp, cmp, cmpUsing, cmpUsing]
  simp

theorem unpacked_compare (first second : UnpackedFloat) :
    first.compare second = (floatRank first).bind fun rank => (floatRank second).map (cmp rank) := by
  cases first with
  | notANumber => rfl
  | infinity sign =>
    cases sign <;> cases second with
    | finite sign' => cases sign' <;> simp [UnpackedFloat.compare, floatRank, cmp_lex] <;> rfl
    | infinity sign' => cases sign' <;> rfl
    | _ => rfl
  | zero sign =>
    cases second with
    | infinity sign' | finite sign' => cases sign' <;> simp [UnpackedFloat.compare, floatRank, cmp_lex] <;> rfl
    | _ => rfl
  | finite sign m e pos =>
    cases sign <;> cases second with
    | notANumber => rfl
    | infinity sign' | zero sign' => cases sign' <;> simp [UnpackedFloat.compare, floatRank, cmp_lex] <;> rfl
    | finite sign' m' e' pos' =>
      have whole : cmp (m : ℤ) m' = compare m m' := by simp [← cmp_eq_compare, cmp, cmpUsing]
      have exponents : compare e e' = cmp e e' := (cmp_eq_compare e e').symm
      cases sign'
      all_goals simp [UnpackedFloat.compare, floatRank, cmp_lex, cmp_neg_neg, whole, exponents, Ordering.swap_then]
      all_goals rfl

theorem float_lt_iff {first second : Float} :
    first < second ↔ first.toModel.unpack.compare second.toModel.unpack = some .lt := by
  simp [LT.lt, Float.lt, Float.Model.lt, UnpackedFloat.lt]

theorem exists_floatRank {number : Float} (real : number.isNaN = false) :
    ∃ rank, floatRank number.toModel.unpack = some rank := by
  rw [Float.isNaN, Float.Model.isNaN] at real
  cases unpacked : number.toModel.unpack with
  | notANumber => simp [unpacked, UnpackedFloat.isNaN] at real
  | infinity sign | finite sign => cases sign <;> exact ⟨_, rfl⟩
  | zero sign => exact ⟨_, rfl⟩

theorem float_lt_of_rank {first second : Float} {rank rank' : ℤ ×ₗ ℤ ×ₗ ℤ}
    (one : floatRank first.toModel.unpack = some rank) (two : floatRank second.toModel.unpack = some rank') :
    first < second ↔ rank < rank' := by
  rw [float_lt_iff, unpacked_compare, one, two]
  simp [cmp_eq_lt_iff]

theorem float_lt_asymm {first second : Float} (below : first < second) : ¬ second < first := by
  rw [float_lt_iff, unpacked_compare] at *
  obtain ⟨rank, one, rest⟩ := Option.bind_eq_some_iff.mp below
  obtain ⟨rank', two, last⟩ := Option.map_eq_some_iff.mp rest
  rw [one, two]
  simp [(cmp_eq_lt_iff _ _).mp last, cmp_eq_lt_iff, le_of_lt]

end Foundation
