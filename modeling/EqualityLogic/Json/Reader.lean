/-!
# Reading JSON from the front

A reader takes characters off the front of a text and never puts any back: its result carries the
proof that what is left is no longer than what it was given. A fault says which of three ways the
text failed, and is always the first one met from left to right.
-/

set_option autoImplicit false

namespace EqualityLogic.Json

/-- How a text fails. -/
inductive Fault where
  /-- The text is no JSON, or not of the shape that was asked for. -/
  | malformed
  /-- A value is well formed but not one that was asked for. -/
  | unsuitable
  /-- The text ends too early. -/
  | incomplete
deriving DecidableEq

/-- What a reader makes of a text: a result with what is left, or a fault. -/
abbrev Outcome (α : Type) (cs : List Char) :=
  Except Fault { r : α × List Char // r.2.length ≤ cs.length }

/-- The outcome for a text is one for any text at least as long. -/
def Outcome.weaken {α : Type} {cs cs' : List Char} (h : cs'.length ≤ cs.length) :
    Outcome α cs' → Outcome α cs
  | .error e => .error e
  | .ok ⟨r, h'⟩ => .ok ⟨r, Nat.le_trans h' h⟩

/-- A reader of values of a type. -/
def Reader (α : Type) := (cs : List Char) → Outcome α cs

namespace Reader

instance : Monad Reader where
  pure a cs := .ok ⟨(a, cs), Nat.le_refl _⟩
  bind p f cs :=
    match p cs with
    | .error e => .error e
    | .ok ⟨(a, rest), h⟩ => (f a rest).weaken h

/-- Fails. -/
def fail {α : Type} (e : Fault) : Reader α := fun _ => .error e

/-- The next character, left where it is. -/
def peek : Reader (Option Char) := fun cs => .ok ⟨(cs.head?, cs), Nat.le_refl _⟩

/-- Takes the next character, if there is one. -/
def skip : Reader Unit := fun cs => .ok ⟨((), cs.tail), by simp⟩

/-- Takes the longest run of characters of a class. -/
def run (p : Char → Bool) : Reader (List Char) := fun cs =>
  .ok ⟨(cs.takeWhile p, cs.dropWhile p), (List.dropWhile_suffix p).length_le⟩

/-- The characters that may stand between tokens. -/
def isBlank (c : Char) : Bool := c = ' ' || c = '\n' || c = '\t' || c = '\r'

/-- A text without the blanks at its front. -/
def dropBlanks (cs : List Char) : List Char := cs.dropWhile isBlank

/-- Dropping blanks makes no text longer. This and the two lemmas below are what a recursive reader
needs to see that it gets on. -/
theorem length_dropBlanks_le (cs : List Char) : (dropBlanks cs).length ≤ cs.length :=
  (List.dropWhile_suffix isBlank).length_le

/-- The same of a text that is known to be what is left when blanks have been dropped, as it is
inside a `match`. -/
theorem length_le_of_dropBlanks {cs cs' : List Char} (h : dropBlanks cs = cs') :
    cs'.length ≤ cs.length :=
  h ▸ length_dropBlanks_le cs

/-- Behind the first character that is no blank, no more is left than there was at the start. The
readers call each other on such rests, and come to an end because these get shorter. -/
theorem length_tail_le_of_dropBlanks {c : Char} {cs rest : List Char}
    (h : dropBlanks cs = c :: rest) : rest.length ≤ cs.length :=
  Nat.le_trans (Nat.le_succ _) (length_le_of_dropBlanks h)

/-- The next character that is no blank, left where it is. A text without one ends too early. -/
def token : Reader Char := do
  let _ ← run isBlank
  match ← peek with
  | some c => return c
  | none => fail .incomplete

/-- Takes a given character, after blanks. -/
def expect (c : Char) : Reader Unit := do
  if (← token) = c then skip else fail .malformed

/-- Takes the given characters. -/
def word : List Char → Reader Unit
  | [] => pure ()
  | c :: cs => do
    match ← peek with
    | none => fail .incomplete
    | some d => if d = c then skip; word cs else fail .malformed

end Reader

end EqualityLogic.Json
