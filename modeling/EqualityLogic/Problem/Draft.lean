import EqualityLogic.Problem.Basic

/-!
# Drafts

A draft collects the parts of a problem in any order: declarations of names, equations between
names, and clauses of numbers. `Draft.build` makes a problem of it or names the first fault; the
equations are judged before the clauses.
-/

set_option autoImplicit false

namespace EqualityLogic

/-- Why a draft makes no problem. -/
inductive DraftError where
  /-- An equation cannot be an atom. -/
  | atom (e : AtomError)
  /-- A clause, counted from 0, holds a zero. -/
  | zeroLiteral (clause : Nat)
  /-- A clause, counted from 0, names a variable that is too large. -/
  | literalOutOfRange (clause : Nat) (literal : Int)
deriving DecidableEq

/-- The wording of an error. -/
def DraftError.message : DraftError → String
  | .atom e => e.message
  | .zeroLiteral clause => "clause " ++ toString clause ++ " contains the literal 0"
  | .literalOutOfRange clause literal =>
    "clause " ++ toString clause ++ " contains " ++ toString literal ++ ", which is out of range"

/-- An equation between names, with the number of its atom. -/
structure Equation where
  /-- The atom's identifier. -/
  id : Int
  /-- The name on the left side. -/
  left : String
  /-- The name on the right side. -/
  right : String
deriving DecidableEq

/-- The parts of a problem, not judged yet. -/
structure Draft where
  /-- The declared names, each once, in the order of their first declarations. -/
  names : List String
  /-- The equations. -/
  equations : List Equation
  /-- The clauses. -/
  clauses : List (List Int)
  /-- No name is listed twice. -/
  distinct : names.Nodup

namespace Draft

/-- The draft without parts. -/
def empty : Draft := ⟨[], [], [], .nil⟩

/-- Declares a name. A second declaration changes nothing. -/
def declare (d : Draft) (name : String) : Draft :=
  if h : name ∈ d.names then d
  else
    { d with
      names := d.names ++ [name]
      distinct := List.nodup_append.2 ⟨d.distinct, by simp, by
        intro a ha b hb e
        exact h ((List.mem_singleton.1 hb) ▸ e ▸ ha)⟩ }

/-- Declares names in turn. -/
def declareAll (d : Draft) (names : List String) : Draft := names.foldl declare d

/-- Adds an equation. Its names may be declared later. -/
def equate (d : Draft) (id : Int) (left right : String) : Draft :=
  { d with equations := d.equations ++ [⟨id, left, right⟩] }

/-- Adds a clause. -/
def addClause (d : Draft) (ns : List Int) : Draft :=
  { d with clauses := d.clauses ++ [ns] }

/-- Adds clauses in turn. -/
def addClauses (d : Draft) (clauses : List (List Int)) : Draft :=
  { d with clauses := d.clauses ++ clauses }

/-! ### Building -/

/-- The index of a name that the equation `id` mentions. -/
def resolve (d : Draft) (id : Int) (name : String) : Except AtomError (Fin d.names.length) :=
  match d.names.finIdxOf? name with
  | some i => .ok i
  | none => .error (.unknownVariable id name)

/-- Enters an equation into a table: the left name is looked up first, then the right one. -/
def enter (d : Draft) (t : AtomTable d.names.length) (e : Equation) :
    Except AtomError (AtomTable d.names.length) := do
  let left ← d.resolve e.id e.left
  let right ← d.resolve e.id e.right
  t.insert e.id left right

/-- The atoms that the equations make. -/
def table (d : Draft) : Except AtomError (AtomTable d.names.length) :=
  d.equations.foldlM d.enter (.empty _)

/-- The clause number `i`. A zero is reported before a variable that is too large. -/
def clause (i : Nat) (ns : List Int) : Except DraftError Clause :=
  match Clause.ofNumbers ns with
  | .error .zero => .error (.zeroLiteral i)
  | .ok c =>
    match ns.find? fun n => maxVariable < n.natAbs with
    | some n => .error (.literalOutOfRange i n)
    | none => .ok c

/-- The clauses from number `i` on. -/
def formulaFrom (i : Nat) : List (List Int) → Except DraftError Formula
  | [] => .ok []
  | ns :: rest => do
    let c ← clause i ns
    let f ← formulaFrom (i + 1) rest
    return c :: f

/-- The problem that a draft makes. -/
def build (d : Draft) : Except DraftError Problem :=
  match d.table with
  | .error e => .error (.atom e)
  | .ok atoms =>
    match formulaFrom 0 d.clauses with
    | .error e => .error e
    | .ok formula => .ok { names := d.names, atoms, formula, distinct := d.distinct }

end Draft

end EqualityLogic
