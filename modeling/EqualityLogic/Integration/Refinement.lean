import EqualityLogic.Integration.Outcome

/-!
# Lazy refinement

The search knows nothing of the theory. Each round searches the clauses gathered so far from the
start and lets the theory judge the assignment that is found; a rejected one is ruled out by a
clause, and the next round follows. The engine that searches may be any function with a state of
its own.
-/

set_option autoImplicit false

namespace EqualityLogic.Refinement

/-- A refinement between two rounds, over `n` theory variables. -/
structure State (n : Nat) (ε : Type) where
  /-- The problem's clauses followed by the learned ones. -/
  clauses : Formula
  /-- The number of learned clauses. -/
  lemmas : Nat
  /-- The theory. -/
  theory : EqualityTheory n
  /-- The engine. -/
  engine : ε

variable {n : Nat} {ε : Type}

/-- Ends the refinement with an answer. -/
def State.finish (s : State n ε) (a : Answer) : Step (State n ε) (Except TheoryError Outcome × ε) :=
  .done (.ok ⟨a, s.clauses, s.lemmas, s.theory.checks⟩, s.engine)

/-- Rules the rejected assignment out, unless as many clauses have been learned as allowed. -/
def State.refine (s : State n ε) (limit : Option Nat) :
    Step (State n ε) (Except TheoryError Outcome × ε) :=
  if limit.any (· ≤ s.lemmas) then s.finish .unknown
  else
    match s.theory.learn with
    | (.ok c, t) =>
      .next { s with clauses := s.clauses ++ [c], lemmas := s.lemmas + 1, theory := t }
    | (.error e, _) => .done (.error e, s.engine)

/-- One round. -/
def step (solve : ε → Formula → Nat → Except TheoryError Answer × ε) (limit : Option Nat)
    (numVars : Nat) (s : State n ε) : Step (State n ε) (Except TheoryError Outcome × ε) :=
  match solve s.engine s.clauses numVars with
  | (.error e, engine) => .done (.error e, engine)
  | (.ok (.sat m), engine) =>
    let s := { s with theory := s.theory.check m, engine }
    match s.theory.verdict with
    | .consistent => s.finish (.sat m)
    | .inconsistent => s.refine limit
    | .unknown => s.finish .unknown
  | (.ok a, engine) => { s with engine }.finish a

/-- The state before the first round. -/
def start (p : Problem) (engine : ε) : State p.names.length ε := ⟨p.formula, 0, p.theory, engine⟩

/-- The outcome with a given engine, if it comes within a number of rounds. -/
def solveWithin (fuel : Nat) (solve : ε → Formula → Nat → Except TheoryError Answer × ε)
    (limit : Option Nat) (p : Problem) (engine : ε) : Option (Except TheoryError Outcome × ε) :=
  Process.upTo (step solve limit p.numVars) fuel (start p engine)

end EqualityLogic.Refinement
