import EqualityLogic.Integration.Rounds
import EqualityLogic.Integration.Supervision
import EqualityLogic.Problem.Text
import EqualityLogic.Search.Solve
import EqualityLogic.Settings.Basic

/-!
# Solving

The strategies with the built-in search, and the ways into them: a formula alone
(`Formula.satisfying?`), a problem (`Problem.solve`), and the text of a problem (`solveText`).
-/

set_option autoImplicit false

namespace EqualityLogic

/-- An assignment of the variables of a formula that satisfies it, if there is one. -/
def Formula.satisfying? (f : Formula) : Except TheoryError (Option Assignment) :=
  (Search.solve {} f f.maxVar).map fun
    | .sat m => some m
    | _ => none

/-- Whether some assignment satisfies a formula. -/
def Formula.isSatisfiable (f : Formula) : Except TheoryError Bool :=
  f.satisfying?.map Option.isSome

/-- The built-in search as an engine of lazy refinement. -/
def Refinement.engine (o : Search.Options) (_ : Unit) (f : Formula) (n : Nat) :
    Except TheoryError Answer × Unit :=
  (Search.solve o f n, ())

/-- The assignments of the built-in search satisfy the clauses it is given, and name no variable
beyond those in sight. This is what refinement asks of an engine, so its rounds come to an end. -/
theorem Refinement.sound_engine (o : Search.Options) : Sound (engine o) := fun _ _ _ _ sat =>
  Search.holds_of_solveWith sat

/-- The built-in search as an engine of supervised search. -/
def Supervision.engine (n : Nat) (o : Search.Options) : Engine n Unit :=
  fun _ f numVars t oversight => (Search.solveWith o f numVars t oversight, ())

namespace Problem

/-- The outcome of lazy refinement. -/
def refine (p : Problem) (s : Settings) : Except TheoryError Outcome :=
  (Refinement.solve (Refinement.sound_engine s.toOptions) s.refinementLimit p ()).1

/-- The outcome of a search that the theory supervises. -/
def supervise (p : Problem) (s : Settings) (oversight : Oversight) : Except TheoryError Outcome :=
  (Supervision.solve p (Supervision.engine _ s.toOptions) oversight ()).1

/-- The outcome with a given strategy, whatever the settings name. -/
def solveBy (p : Problem) (s : Settings) : Strategy → Except TheoryError Outcome
  | .lazy => p.refine s
  | .callback => p.supervise s .complete
  | .propagation => p.supervise s .partialAssignments

/-- The outcome with the strategy that the settings name. -/
def solve (p : Problem) (s : Settings) : Except TheoryError Outcome := p.solveBy s s.strategy

end Problem

/-- Why a text was not solved. -/
inductive SolveError where
  /-- The text is no problem. -/
  | text (e : ProblemTextError)
  /-- The theory failed to explain a rejection. -/
  | theory (e : TheoryError)
deriving DecidableEq

/-- The wording of an error. -/
def SolveError.message : SolveError → String
  | .text e => e.message
  | .theory e => e.message

/-- Reads a problem and solves it. -/
def solveText (text : String) (s : Settings) : Except SolveError (Problem × Outcome) :=
  match Problem.ofString text with
  | .error e => .error (.text e)
  | .ok p =>
    match p.solve s with
    | .error e => .error (.theory e)
    | .ok o => .ok (p, o)

end EqualityLogic
