import EqualityLogic.Cnf.Formula
import EqualityLogic.Text.Line
import EqualityLogic.Text.Numeral

/-!
# The DIMACS format

A text in DIMACS format starts with comment lines and a line `p cnf V C`, the numbers of variables
and clauses. The words of the lines after it are numbers, wherever the lines break: each zero ends
a clause. Reading stops at the end of clause number `C`, and what follows is not looked at.
-/

set_option autoImplicit false

namespace EqualityLogic.Dimacs

/-- Why a text is refused. -/
inductive Error where
  /-- A line before the body is neither a comment nor a complete header. -/
  | badHeaderLine (line : String)
  /-- A line of the body holds a word that is no number. -/
  | badClauseLine (line : String)
  /-- The header names a format other than `cnf`. -/
  | unexpectedFormat (format : String)
  /-- A variable is larger than any that a search accepts. -/
  | variableOutOfRange (word : String)
  /-- There is no header. -/
  | missingHeader
  /-- A variable is larger than the header says. -/
  | wrongVariableCount (expected actual : Nat)
  /-- There are fewer clauses than the header says. -/
  | wrongClauseCount (expected actual : Nat)
deriving DecidableEq

/-- The wording of an error. -/
def Error.message : Error → String
  | .badHeaderLine line => "cannot parse prelude line '" ++ line ++ "'"
  | .badClauseLine line => "cannot parse clause line '" ++ line ++ "'"
  | .unexpectedFormat format => "unexpected format '" ++ format ++ "'"
  | .variableOutOfRange word =>
    "variable " ++ word ++ " is out of range, the largest allowed is " ++ toString maxVariable
  | .missingHeader => "missing 'p cnf' prelude line"
  | .wrongVariableCount expected actual =>
    "wrong number of variables, expected " ++ toString expected ++ " but got " ++ toString actual
  | .wrongClauseCount expected actual =>
    "wrong number of clauses, expected " ++ toString expected ++ " but got " ++ toString actual

/-- What the header announces. -/
structure Header where
  /-- The number of variables. -/
  varCount : Nat
  /-- The number of clauses. -/
  clauseCount : Nat
deriving DecidableEq

/-- The header of a text, and the lines after it. -/
def header : List String → Except Error (Header × List String)
  | [] => .error .missingHeader
  | line :: rest =>
    match Text.words line with
    | [] => header rest
    | "c" :: _ => header rest
    | "p" :: "cnf" :: v :: c :: _ =>
      match Text.natural? v, Text.natural? c with
      | some v, some c => .ok (⟨v, c⟩, rest)
      | _, _ => .error (.badHeaderLine line)
    | ["p", "cnf"] => .error (.badHeaderLine line)
    | ["p", "cnf", _] => .error (.badHeaderLine line)
    | "p" :: format :: _ => .error (.unexpectedFormat format)
    | _ => .error (.badHeaderLine line)

/-- What has been read of a body. -/
structure Body where
  /-- The finished clauses. -/
  clauses : Formula := []
  /-- The clause under way. -/
  clause : Clause := []
  /-- The largest variable. -/
  largest : Nat := 0

/-- Reads words, each given with its line, up to the end of clause number `wanted`. -/
def readBody (wanted : Nat) (b : Body) : List (String × String) → Except Error Body
  | [] => .ok b
  | (word, line) :: rest =>
    match Text.integer? word with
    | none => .error (.badClauseLine line)
    | some n =>
      if h : n = 0 then
        let b := { b with clauses := b.clauses ++ [b.clause], clause := [] }
        if b.clauses.length = wanted then .ok b else readBody wanted b rest
      else if maxVariable < n.natAbs then .error (.variableOutOfRange word)
      else
        let b := { b with clause := b.clause ++ [⟨n, h⟩], largest := max b.largest n.natAbs }
        readBody wanted b rest

/-- The words of lines, each with its line. -/
def wordsWithLines (lines : List String) : List (String × String) :=
  lines.flatMap fun line => (Text.words line).map (·, line)

/-- The formula that lines in DIMACS format write. -/
def ofLines (lines : List String) : Except Error Formula := do
  let (header, rest) ← header lines
  let body ←
    -- a body without clauses is not looked at, so it may hold anything
    if header.clauseCount = 0 then .ok {}
    else readBody header.clauseCount {} (wordsWithLines rest)
  if header.varCount < body.largest then
    .error (.wrongVariableCount header.varCount body.largest)
  else if body.clauses.length ≠ header.clauseCount then
    .error (.wrongClauseCount header.clauseCount body.clauses.length)
  else .ok body.clauses

/-- The formula that a text in DIMACS format writes. -/
def ofString (text : String) : Except Error Formula := ofLines (Text.lines text)

end EqualityLogic.Dimacs
