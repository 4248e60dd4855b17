import EqualityLogic.Json.Reader

/-!
# Strings

The inside of a JSON string, read from behind its opening quote through its closing one. Two escapes
for a surrogate pair write one character, and a surrogate that is not part of a pair is malformed.
`skipText` passes over a string without judging surrogates.
-/

set_option autoImplicit false

namespace EqualityLogic.Json.Reader

/-- The value of a hexadecimal digit. -/
def hexDigit? (c : Char) : Option Nat :=
  if '0' ≤ c ∧ c ≤ '9' then some (c.toNat - '0'.toNat)
  else if 'a' ≤ c ∧ c ≤ 'f' then some (c.toNat - 'a'.toNat + 10)
  else if 'A' ≤ c ∧ c ≤ 'F' then some (c.toNat - 'A'.toNat + 10)
  else none

/-- Four hexadecimal digits. A text of fewer than four bytes ends too early. -/
def hex4 : Reader Nat := fun
  | a :: b :: c :: d :: rest =>
    match hexDigit? a, hexDigit? b, hexDigit? c, hexDigit? d with
    | some a, some b, some c, some d =>
      .ok ⟨(((a * 16 + b) * 16 + c) * 16 + d, rest), by simp only [List.length_cons]; omega⟩
    | _, _, _, _ => .error .malformed
  | cs => .error (if cs.foldl (fun n c => n + c.utf8Size) 0 < 4 then .incomplete else .malformed)

/-- The character that a one-letter escape writes. -/
def escaped? : Char → Option Char
  | '"' => some '"'
  | '\\' => some '\\'
  | '/' => some '/'
  | 'b' => some '\x08'
  | 'f' => some '\x0c'
  | 'n' => some '\n'
  | 'r' => some '\r'
  | 't' => some '\t'
  | _ => none

/-- A character of a string, which has to be there. -/
def next : Reader Char := do
  match ← peek with
  | none => fail .incomplete
  | some c => skip; return c

/-- Takes one of a pair of characters that introduce the second half of a surrogate pair. -/
def joint (c : Char) : Reader Unit := do
  if (← next) = c then pure () else fail .malformed

/-- The character that a numeric escape writes, read from behind its letter. -/
def codePoint : Reader Char := do
  let high ← hex4
  if 0xdc00 ≤ high ∧ high ≤ 0xdfff then fail .malformed
  else if high < 0xd800 ∨ 0xdbff < high then return Char.ofNat high
  else
    joint '\\'
    joint 'u'
    let low ← hex4
    if 0xdc00 ≤ low ∧ low ≤ 0xdfff then
      return Char.ofNat (0x10000 + (high - 0xd800) * 0x400 + (low - 0xdc00))
    else fail .malformed

/-- The character that an escape writes, read from behind its backslash. -/
def escape : Reader Char := do
  let c ← next
  if c = 'u' then codePoint
  else
    match escaped? c with
    | some d => return d
    | none => fail .malformed

/-- Passes over an escape, read from behind its backslash. -/
def skipEscape : Reader Unit := do
  let c ← next
  if c = 'u' then
    let _ ← hex4
  else if (escaped? c).isNone then fail .malformed

/-- The characters of a string up to its closing quote, which is taken too. Escapes are read by
`escape`. -/
def chars {α : Type} (escape : Reader α) (plain : Char → α) :
    (cs : List Char) → Outcome (List α) cs
  | [] => .error .incomplete
  | '"' :: rest => .ok ⟨([], rest), Nat.le_succ _⟩
  | '\\' :: rest =>
    match escape rest with
    | .error e => .error e
    | .ok ⟨(a, rest'), h⟩ =>
      match chars escape plain rest' with
      | .error e => .error e
      | .ok ⟨(as, r), h'⟩ => .ok ⟨(a :: as, r), Nat.le_succ_of_le (Nat.le_trans h' h)⟩
  | c :: rest =>
    if c < ' ' then .error .malformed
    else
      match chars escape plain rest with
      | .error e => .error e
      | .ok ⟨(as, r), h⟩ => .ok ⟨(plain c :: as, r), Nat.le_succ_of_le h⟩
termination_by cs => cs.length
decreasing_by
  · exact Nat.lt_succ_of_le h
  · exact Nat.lt_succ_self _

/-- The string up to its closing quote. -/
def text : Reader String := do
  let cs ← chars escape id
  return String.ofList cs

/-- Passes over a string up to its closing quote. -/
def skipText : Reader Unit := do
  let _ ← chars skipEscape fun _ => ()

end EqualityLogic.Json.Reader
