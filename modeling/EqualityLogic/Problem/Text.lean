import EqualityLogic.Dimacs
import EqualityLogic.Problem.Draft
import EqualityLogic.Text.Name

/-!
# The text of a problem

A problem is written as a header, a line `--`, and a formula in DIMACS format. The lines of the
header declare names (`vars a b`) or equations (`== a b`), which also declare their names and are
numbered from 1. Empty lines and comments (`c`) are skipped.

Faults are reported in the order of reading: the first bad line of the header, then a missing
separator, then a fault of the formula, then one of the problem as a whole.
-/

set_option autoImplicit false

namespace EqualityLogic

/-- Why a text is no problem. Lines are counted from 1. -/
inductive ProblemTextError where
  /-- A line starts with none of the keywords, but with the characters given (at most two). -/
  | badKeyword (line : Nat) (found : List Char)
  /-- An equation lacks a name. -/
  | missingName (line : Nat)
  /-- A character cannot stand where it does. -/
  | unexpected (line : Nat) (found : Char)
  /-- There is no separator line. -/
  | missingSeparator
  /-- The formula is at fault. -/
  | dimacs (e : Dimacs.Error)
  /-- The parts do not fit together. -/
  | draft (e : DraftError)
deriving DecidableEq

/-- The wording of an error. -/
def ProblemTextError.message : ProblemTextError → String
  | .badKeyword line found =>
    "line " ++ toString line ++ ": cannot parse equality symbol, expected '==' but got " ++
      match found with
      | [] => "an empty line"
      | cs => "'" ++ String.ofList cs ++ "'"
  | .missingName line => "line " ++ toString line ++ ": expected a variable name"
  | .unexpected line found =>
    "line " ++ toString line ++ ": unexpected '" ++ found.toString ++ "'"
  | .missingSeparator => "missing '--' line between the atoms and the DIMACS formula"
  | .dimacs e => "cannot parse DIMACS: " ++ e.message
  | .draft e => e.message

/-- A line of a header. -/
inductive HeaderLine where
  /-- An empty line or a comment. -/
  | blank
  /-- The end of the header. -/
  | separator
  /-- Names to declare. -/
  | names (names : List String)
  /-- An equation between two names. -/
  | equation (left right : String)
deriving DecidableEq

namespace HeaderLine

/-- The names that make up a text, with blanks between them where they do not separate
themselves. -/
def readNames (line : Nat) (cs : List Char) : Except ProblemTextError (List String) :=
  match _hs : Text.skipBlanks cs with
  | [] => .ok []
  | c :: cs' =>
    match _hn : Text.name? (c :: cs') with
    | none => .error (.unexpected line c)
    | some (name, rest) => do return name :: (← readNames line rest)
termination_by cs.length
decreasing_by
  have := Text.length_lt_of_name? _hn
  have := Text.length_skipBlanks_le cs
  simp only [_hs] at this
  omega

/-- The name after blanks, and what follows it. -/
def readName (line : Nat) (cs : List Char) : Except ProblemTextError (String × List Char) :=
  match Text.name? (Text.skipBlanks cs) with
  | none => .error (.missingName line)
  | some r => .ok r

/-- The two names of an equation, with nothing but blanks after them. -/
def readEquation (line : Nat) (cs : List Char) : Except ProblemTextError HeaderLine := do
  let (left, cs) ← readName line cs
  let (right, cs) ← readName line cs
  match Text.skipBlanks cs with
  | [] => return .equation left right
  | c :: _ => throw (.unexpected line c)

/-- Reads a line without the blanks around it. -/
def readTrimmed (line : Nat) : List Char → Except ProblemTextError HeaderLine
  | ['-', '-'] => .ok .separator
  | [] => .ok .blank
  | ['c'] => .ok .blank
  | 'c' :: ' ' :: _ => .ok .blank
  | 'v' :: 'a' :: 'r' :: 's' :: cs => .names <$> readNames line cs
  | '=' :: '=' :: cs => readEquation line cs
  | cs => .error (.badKeyword line (cs.take 2))

/-- Reads the line with the given number. -/
def read (line : Nat) (text : String) : Except ProblemTextError HeaderLine :=
  readTrimmed line (Text.trim text.toList)

end HeaderLine

namespace Problem

/-- Adds the lines of a header to a draft, the first one numbered `line`. What follows the
separator is left. -/
def readHeader (line : Nat) (d : Draft) :
    List String → Except ProblemTextError (Draft × List String)
  | [] => .error .missingSeparator
  | text :: rest =>
    match HeaderLine.read line text with
    | .error e => .error e
    | .ok .separator => .ok (d, rest)
    | .ok .blank => readHeader (line + 1) d rest
    | .ok (.names names) => readHeader (line + 1) (d.declareAll names) rest
    | .ok (.equation left right) =>
      let id := d.equations.length + 1
      readHeader (line + 1) (((d.declare left).declare right).equate id left right) rest

/-- The problem that a text writes. -/
def ofString (text : String) : Except ProblemTextError Problem :=
  match readHeader 1 .empty (Text.lines text) with
  | .error e => .error e
  | .ok (d, rest) =>
    match Dimacs.ofLines rest with
    | .error e => .error (.dimacs e)
    | .ok f => (d.addClauses f.toNumbers).build.mapError .draft

end Problem

end EqualityLogic
