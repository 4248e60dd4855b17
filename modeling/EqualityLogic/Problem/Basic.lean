import EqualityLogic.Equality.Theory

/-!
# Problems

A problem names the theory's variables, says which propositional variables are atoms, and gives a
formula over atoms and auxiliary variables alike. `Problem.describe` shows an assignment as the
partition of the names that its equations make.
-/

set_option autoImplicit false

namespace EqualityLogic

/-- A formula over equations between named variables. -/
structure Problem where
  /-- The names of the theory's variables, in the order of their indexes. -/
  names : List String
  /-- What the atoms stand for. -/
  atoms : AtomTable names.length
  /-- The formula. -/
  formula : Formula
  /-- No two variables have the same name. -/
  distinct : names.Nodup

namespace Problem

/-- The variable with a given name. -/
def indexOf? (p : Problem) (name : String) : Option (Fin p.names.length) :=
  p.names.finIdxOf? name

/-- The name of a variable. -/
def nameOf (p : Problem) (i : Fin p.names.length) : String := p.names[i]

/-- The number of propositional variables that an assignment has to cover: all atoms and all
variables of the formula. -/
def numVars (p : Problem) : Nat := max p.formula.maxVar p.atoms.maxId

/-- The theory of the problem's atoms before its first check. -/
def theory (p : Problem) : EqualityTheory p.names.length := .ofAtoms p.atoms

/-- The classes of names that the equations of an assignment make, single names included. Names
stand in the order of their variables. -/
def describe (p : Problem) (m : Assignment) : List (List String) :=
  let classes := (p.theory.check m).forest
  classes.roots.map fun root =>
    ((classes.classOf root).mergeSort fun a b => a ≤ b).map p.nameOf

end Problem

end EqualityLogic
