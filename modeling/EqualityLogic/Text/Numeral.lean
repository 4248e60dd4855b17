/-!
# Numerals

Decimal numerals as they are read from text: digits with leading zeros allowed, after a plus sign
or, for signed numbers, a minus sign. A numeral that does not fit into 64 bits is none.
-/

set_option autoImplicit false

namespace EqualityLogic.Text

/-- The number that a nonempty list of digits writes. -/
def digits? (cs : List Char) : Option Nat :=
  if cs ≠ [] ∧ cs.all Char.isDigit then
    some (cs.foldl (fun n c => 10 * n + (c.toNat - '0'.toNat)) 0)
  else none

/-- The numeral of an unsigned 64-bit number. -/
def natural? (w : String) : Option Nat :=
  let n? := match w.toList with
    | '+' :: cs => digits? cs
    | cs => digits? cs
  n?.filter (· < Nat.pow 2 64)

/-- The numeral of a signed 64-bit number. -/
def integer? (w : String) : Option Int :=
  let n? : Option Int := match w.toList with
    | '-' :: cs => (digits? cs).map fun n => -n
    | '+' :: cs => (digits? cs).map fun n => n
    | cs => (digits? cs).map fun n => n
  n?.filter fun n => -Int.pow 2 63 ≤ n ∧ n < Int.pow 2 63

end EqualityLogic.Text
