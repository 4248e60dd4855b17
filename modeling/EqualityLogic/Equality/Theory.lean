import EqualityLogic.Equality.Atom
import EqualityLogic.Equality.Forest
import EqualityLogic.Theory.Basic

/-!
# The theory of equality

Literals of atoms are equations, when positive, and disequations, when negative, between variables
without further structure; other literals mean nothing to the theory. An assignment is consistent
when no disequation joins two variables that its equations force to be equal.

A check forgets the classes of the check before it, merges the two sides of every equation and then
looks at the disequations. A rejection is explained by the negations of all equations and
disequations of the assignment, once: the check is used up then.
-/

set_option autoImplicit false

namespace EqualityLogic

/-- What a check has found. -/
structure EqualityCheck where
  /-- The assignment that was judged. -/
  model : Assignment
  /-- The atom of the last disequation that fails, if one does. -/
  conflict : Option Nat
deriving DecidableEq

/-- The theory of equality over `n` variables, between two calls. -/
structure EqualityTheory (n : Nat) where
  /-- What the atoms stand for. -/
  atoms : AtomTable n
  /-- The classes that the equations of the latest check make. -/
  forest : Forest n
  /-- The latest check, until it is used up. -/
  last : Option EqualityCheck
  /-- The number of checks so far. -/
  checks : Nat
deriving DecidableEq

namespace AtomTable

variable {n : Nat} (atoms : AtomTable n) (m : Assignment)

/-- The literals of an assignment that have an atom, with it. -/
def theoryLiterals : List (Literal × Atom n) :=
  m.filterMap fun l => (atoms.atomOf? l).map (l, ·)

/-- The literals that a check looks at are those of the assignment that have an atom, each with its
own. All others mean nothing to the theory. -/
theorem mem_theoryLiterals {l : Literal} {a : Atom n} :
    (l, a) ∈ atoms.theoryLiterals m ↔ l ∈ m ∧ atoms.atomOf? l = some a := by
  simp [theoryLiterals]

/-- Merges the two sides of every equation of an assignment, in order. -/
def mergeEquations (f : Forest n) : Forest n :=
  ((atoms.theoryLiterals m).filter fun p => !p.1.isNegated).foldl
    (fun f p => f.merge p.2.left p.2.right) f

/-- The atom of the last disequation of an assignment whose sides are in one class. -/
def conflict? (classes : Forest n) : Option Nat :=
  ((atoms.theoryLiterals m).filter fun p =>
    p.1.isNegated && classes.sameClass p.2.left p.2.right).getLast?.map (·.2.id)

/-- The clause that rules an assignment's equations and disequations out. -/
def explanation : Clause :=
  (atoms.theoryLiterals m).map (·.1.negate)

/-- An explanation negates literals of the assignment that was judged, and nothing else. So it is
false under that assignment, which is what makes the theory lawful. -/
theorem negate_mem_of_mem_explanation {l : Literal} (h : l ∈ atoms.explanation m) :
    l.negate ∈ m := by
  obtain ⟨⟨k, a⟩, hk, rfl⟩ := List.mem_map.1 h
  simpa using ((mem_theoryLiterals atoms m).1 hk).1

end AtomTable

namespace EqualityTheory

variable {n : Nat}

/-- The theory of a table of atoms before its first check. -/
def ofAtoms (atoms : AtomTable n) : EqualityTheory n where
  atoms := atoms
  forest := .discrete n
  last := none
  checks := 0

/-- What the latest check has found, unless it is used up. -/
def verdict (t : EqualityTheory n) : Verdict :=
  match t.last with
  | none => .unknown
  | some c => if c.conflict.isSome then .inconsistent else .consistent

/-- The atom at fault in the latest check, unless it is used up. -/
def conflict (t : EqualityTheory n) : Option Nat := t.last.bind EqualityCheck.conflict

/-- Judges an assignment, whatever was judged before. -/
def check (t : EqualityTheory n) (m : Assignment) : EqualityTheory n :=
  let forest := t.atoms.mergeEquations m t.forest.reset
  { atoms := t.atoms
    forest := forest
    last := some ⟨m, t.atoms.conflict? m forest⟩
    checks := t.checks + 1 }

/-- Explains the latest check, if it found a conflict, and uses it up. -/
def learn (t : EqualityTheory n) : Except TheoryError Clause × EqualityTheory n :=
  match t.last with
  | none => (.error .noPriorCheck, t)
  | some c =>
    if c.conflict.isSome then (.ok (t.atoms.explanation c.model), { t with last := none })
    else (.error (.notInconsistent .consistent), t)

instance : Theory (EqualityTheory n) where
  check t m :=
    let t := t.check m
    (t.verdict, t)
  learn := learn

instance : LawfulTheory (EqualityTheory n) where
  negate_mem {t m c l} _ h hl := by
    have h : ((t.check m).learn).1 = .ok c := h
    simp only [learn, check] at h
    split at h
    · cases h
      exact t.atoms.negate_mem_of_mem_explanation m hl
    · cases h

end EqualityTheory

end EqualityLogic
