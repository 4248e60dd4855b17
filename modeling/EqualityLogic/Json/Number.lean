import EqualityLogic.Json.Reader

/-!
# Numbers

The numbers of JSON. Only natural numbers below 2^64 written without fraction and exponent have a
use here; of the others it matters only whether a double-precision number can approximate them,
because a number that is too large for that counts as malformed.

The approximation multiplies a significand below 2^64, which takes digits as long as they fit, by a
power of ten. Both factors are rounded to 53 bits, and the product must stay below the point halfway
between the largest double and the power of two after it.
-/

set_option autoImplicit false

namespace EqualityLogic.Json

/-- A number as it is written. -/
structure Numeral where
  /-- Whether it starts with a minus sign. -/
  negative : Bool
  /-- The digits before the point. -/
  whole : List Char
  /-- The digits after the point, if there is one. -/
  fraction : Option (List Char)
  /-- The sign and the digits of the exponent, if there is one. -/
  exponent : Option (Bool × List Char)

namespace Numeral

/-- The value of a digit. -/
def digit (c : Char) : Nat := c.toNat - '0'.toNat

/-- Adds a digit to a significand. Once one does not fit, it and those after it shift the exponent
instead. -/
def addWhole (s : Nat × Nat) (c : Char) : Nat × Nat :=
  if s.2 = 0 ∧ s.1 * 10 + digit c < Nat.pow 2 64 then (s.1 * 10 + digit c, 0) else (s.1, s.2 + 1)

/-- The significand and the exponent of the digits before the point. -/
def wholeParts (n : Numeral) : Nat × Nat := n.whole.foldl addWhole (0, 0)

/-- Adds the digits after the point to a significand, as long as they fit. -/
def addFraction (significand : Nat) (exponent : Int) : List Char → Nat × Int
  | [] => (significand, exponent)
  | c :: cs =>
    if significand * 10 + digit c < Nat.pow 2 64 then
      addFraction (significand * 10 + digit c) (exponent - 1) cs
    else (significand, exponent)

/-- The significand and the power of ten that a number stands for. -/
def parts (n : Numeral) : Nat × Int :=
  let (significand, exponent) := n.wholeParts
  let (significand, exponent) := addFraction significand exponent (n.fraction.getD [])
  match n.exponent with
  | none => (significand, exponent)
  | some (negative, digits) =>
    let e : Nat := digits.foldl (fun e c => e * 10 + digit c) 0
    (significand, if negative then exponent - e else exponent + e)

/-- A number rounded to 53 significant bits, halves to the even neighbour. -/
def round53 (n : Nat) : Nat :=
  let unit := Nat.pow 2 (n.log2 + 1 - 53)
  let q := n / unit
  let r := n % unit
  if unit < 2 * r ∨ (unit = 2 * r ∧ q % 2 = 1) then (q + 1) * unit else q * unit

/-- Whether a number is too large for double precision. -/
def isHuge (n : Numeral) : Bool :=
  let (significand, exponent) := n.parts
  significand != 0 && (308 < exponent || (0 ≤ exponent &&
    Nat.pow 2 1024 - Nat.pow 2 970 ≤
      round53 significand * round53 (Nat.pow 10 exponent.toNat)))

/-- The natural number below 2^64 that a number without sign, fraction and exponent writes. -/
def natural? (n : Numeral) : Option Nat :=
  let (significand, exponent) := n.wholeParts
  if n.negative = false ∧ n.fraction = none ∧ n.exponent = none ∧ exponent = 0 then
    some significand
  else none

end Numeral

namespace Reader

/-- Digits, at least one. -/
def digits : Reader (List Char) := do
  match ← run Char.isDigit with
  | [] =>
    match ← peek with
    | none => fail .incomplete
    | some _ => fail .malformed
  | ds => return ds

/-- Digits of which only a lone one may be zero at the front. -/
def wholeDigits : Reader (List Char) := do
  match ← digits with
  | '0' :: _ :: _ => fail .malformed
  | ds => return ds

/-- A point and digits after it, if there is a point. -/
def fraction : Reader (Option (List Char)) := do
  match ← peek with
  | some '.' => skip; some <$> digits
  | _ => return none

/-- An exponent, if there is one. -/
def exponent : Reader (Option (Bool × List Char)) := do
  match ← peek with
  | some 'e' | some 'E' =>
    skip
    match ← peek with
    | some '-' => skip; return some (true, ← digits)
    | some '+' => skip; return some (false, ← digits)
    | _ => return some (false, ← digits)
  | _ => return none

/-- A number from its first character on. -/
def numeral : Reader Numeral := do
  let negative := (← peek) = some '-'
  if negative then skip
  return { negative, whole := ← wholeDigits, fraction := ← fraction, exponent := ← exponent }

/-- A number that double precision can approximate. -/
def number : Reader Numeral := do
  let n ← numeral
  if n.isHuge then fail .malformed else return n

/-- Passes over a number of any size. One that is cut short is malformed here. -/
def skipNumber : Reader Unit := fun cs =>
  match numeral cs with
  | .ok ⟨(_, rest), h⟩ => .ok ⟨((), rest), h⟩
  | .error _ => .error .malformed

end Reader

end EqualityLogic.Json
