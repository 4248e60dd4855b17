import EqualityLogic.Json.Number
import EqualityLogic.Json.Text

/-!
# Passing over values

`Reader.skipValue` takes a JSON value of any kind and depth off a text. It keeps the brackets that
are open in a list, so depth is not limited.
-/

set_option autoImplicit false

namespace EqualityLogic.Json

/-- A bracket that is open. -/
inductive Bracket where
  | array
  | object
deriving DecidableEq

/-- The character that closes a bracket. -/
def Bracket.close : Bracket → Char
  | .array => ']'
  | .object => '}'

/-- What comes next while values are passed over. -/
inductive Expectation where
  /-- The end of a bracket, or an item in it. -/
  | itemOrClose (b : Bracket)
  /-- An item: a value, after a key and a colon in an object. -/
  | item (b : Bracket)
  /-- A value. -/
  | value
  /-- The end of the innermost bracket, or a comma and another item; nothing if no bracket is
  open. -/
  | commaOrClose

/-- Expectations fall in this rank when no character is taken. -/
def Expectation.rank : Expectation → Nat
  | .itemOrClose _ => 3
  | .item _ => 2
  | .value => 1
  | .commaOrClose => 0

namespace Reader

/-- Passes over a value without brackets, which starts with the given character. -/
def skipScalar (c : Char) : Reader Unit :=
  if c = 'n' then word ['n', 'u', 'l', 'l']
  else if c = 't' then word ['t', 'r', 'u', 'e']
  else if c = 'f' then word ['f', 'a', 'l', 's', 'e']
  else if c = '"' then do skip; skipText
  else if c = '-' || c.isDigit then skipNumber
  else fail .malformed

/-- The key of a member, read from behind its opening quote, and the colon after it. -/
def skipKey : Reader Unit := do
  skipText
  expect ':'

/-- Passes over what is expected and over all that follows up to the end of the outermost of the
brackets that are open around it, innermost first. -/
def skipOn (brackets : List Bracket) (e : Expectation) (cs : List Char) : Outcome Unit cs :=
  match e, brackets with
  | .commaOrClose, [] => .ok ⟨((), cs), Nat.le_refl _⟩
  | .commaOrClose, b :: outer =>
    match _h : dropBlanks cs with
    | [] => .error .incomplete
    | c :: rest =>
      if c = ',' then (skipOn outer (.item b) rest).weaken (length_tail_le_of_dropBlanks _h)
      else if c = b.close then
        (skipOn outer .commaOrClose rest).weaken (length_tail_le_of_dropBlanks _h)
      else .error .malformed
  | .value, _ =>
    match _h : dropBlanks cs with
    | [] => .error .incomplete
    | c :: rest =>
      if c = '[' then
        (skipOn brackets (.itemOrClose .array) rest).weaken (length_tail_le_of_dropBlanks _h)
      else if c = '{' then
        (skipOn brackets (.itemOrClose .object) rest).weaken (length_tail_le_of_dropBlanks _h)
      else
        match skipScalar c (c :: rest) with
        | .error e => .error e
        | .ok ⟨(_, rest'), _hr⟩ =>
          (skipOn brackets .commaOrClose rest').weaken
            (Nat.le_trans _hr (length_le_of_dropBlanks _h))
  | .item .array, _ => skipOn (.array :: brackets) .value cs
  | .item .object, _ =>
    match _h : dropBlanks cs with
    | [] => .error .incomplete
    | c :: rest =>
      if c = '"' then
        match skipKey rest with
        | .error e => .error e
        | .ok ⟨(_, rest'), _hr⟩ =>
          (skipOn (.object :: brackets) .value rest').weaken
            (Nat.le_trans _hr (length_tail_le_of_dropBlanks _h))
      else .error .malformed
  | .itemOrClose b, _ =>
    match _h : dropBlanks cs with
    | [] => .error .incomplete
    | c :: rest =>
      if c = b.close then
        (skipOn brackets .commaOrClose rest).weaken (length_tail_le_of_dropBlanks _h)
      else (skipOn brackets (.item b) (c :: rest)).weaken (length_le_of_dropBlanks _h)
termination_by (cs.length, e.rank)
decreasing_by
  all_goals try have := length_le_of_dropBlanks _h
  all_goals simp only [Prod.lex_def, Expectation.rank, List.length_cons, true_and] at *
  all_goals omega

/-- Passes over a value. -/
def skipValue : Reader Unit := skipOn [] .value

end Reader

end EqualityLogic.Json
