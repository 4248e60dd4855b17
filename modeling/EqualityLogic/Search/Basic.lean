import EqualityLogic.Cnf.AsymmetricTautology
import EqualityLogic.Process
import EqualityLogic.Search.Trail
import EqualityLogic.Theory.Basic

/-!
# Search with a theory

The search for an assignment that satisfies a formula and that a theory accepts, as a process. A
state holds a trail, the clauses that the search works on, and the whole formula that the caller
gets back. A step does the first of these things that applies:

* reverse the latest decision, when a clause is false, or answer that there is no such assignment;
* let the theory judge the trail, if it is to see partial assignments and has not seen this one;
* make true what an open clause forces;
* decide a literal of an open clause, unless the budget of decisions is used up;
* decide a variable that has no value, once no clause is open, free of charge;
* let the theory judge the complete assignment, and answer with it.

When the theory rejects an assignment, the clause that explains this joins the formula and the
search goes on; that clause is false, so the next step reverses a decision.
-/

set_option autoImplicit false

namespace EqualityLogic

/-- When a search consults the theory. -/
inductive Oversight where
  /-- Once the assignment is complete. -/
  | complete
  /-- Whenever the assignment has changed. -/
  | partialAssignments
deriving DecidableEq

/-- The answer of a search. -/
inductive Answer where
  /-- An assignment, by ascending variable. -/
  | sat (m : Assignment)
  /-- There is none. -/
  | unsat
  /-- The budget is used up. -/
  | unknown
deriving DecidableEq

namespace Search

/-- What steers a search. -/
structure Options where
  /-- The value that a decision tries first. -/
  phase : Bool := false
  /-- The largest number of decisions while some clause is open. -/
  decisionLimit : Option Nat := none
  /-- Whether to leave asymmetric tautologies out of the search. -/
  simplify : Bool := true
deriving DecidableEq

/-- A search under way. -/
structure State (τ : Type) where
  /-- What is assigned. -/
  trail : Trail
  /-- The clauses that the search works on. -/
  working : Formula
  /-- The given clauses, followed by the learned ones. -/
  clauses : Formula
  /-- The theory. -/
  theory : τ
  /-- The number of decisions made while some clause was open. -/
  decisions : Nat
  /-- Whether the trail has changed since the theory saw it. -/
  changed : Bool

/-- What a search leaves behind. -/
structure Result (τ : Type) where
  /-- The answer, or why the theory failed to explain a rejection. -/
  answer : Except TheoryError Answer
  /-- The given clauses, followed by the learned ones. -/
  clauses : Formula
  /-- The theory. -/
  theory : τ

namespace State

variable {τ : Type}

/-- Makes a literal true. -/
def assume (s : State τ) (l : Literal) (r : Reason) : State τ :=
  { s with trail := s.trail.push l r, changed := true }

/-- Ends the search. -/
def finish (s : State τ) (a : Answer) : Step (State τ) (Result τ) :=
  .done ⟨.ok a, s.clauses, s.theory⟩

/-- Reverses the latest decision. Without one, the clauses cannot be satisfied. -/
def backtrack (s : State τ) : Step (State τ) (Result τ) :=
  match s.trail.backtrack? with
  | some t => .next { s with trail := t, changed := true }
  | none => s.finish .unsat

/-- Adds the clause that explains the rejection of the current assignment. -/
def learn [Theory τ] (s : State τ) : Step (State τ) (Result τ) :=
  match Theory.learn s.theory with
  | (.ok c, t) =>
    .next { s with working := s.working ++ [c], clauses := s.clauses ++ [c], theory := t }
  | (.error e, t) => .done ⟨.error e, s.clauses, t⟩

/-- Lets the theory judge the assignment, and does what follows unless it is rejected. -/
def consult [Theory τ] (s : State τ) (accepted : State τ → Step (State τ) (Result τ)) :
    Step (State τ) (Result τ) :=
  match Theory.check s.theory s.trail.assignment with
  | (.inconsistent, t) => learn { s with theory := t, changed := false }
  | (_, t) => accepted { s with theory := t, changed := false }

/-- Decides a literal of an open clause, which the budget is charged for. -/
def decide (s : State τ) (l : Literal) (limit : Option Nat) : Step (State τ) (Result τ) :=
  if limit.any (· ≤ s.decisions) then s.finish .unknown
  else .next { s.assume l .decision with decisions := s.decisions + 1 }

/-- Ends the search with a complete assignment, unless the theory has yet to see it and rejects
it. -/
def accept [Theory τ] (s : State τ) : Oversight → Step (State τ) (Result τ)
  | .complete => s.consult fun s => s.finish (.sat s.trail.assignment)
  | .partialAssignments => s.finish (.sat s.trail.assignment)

/-- Extends a trail under which no clause is false: by a forced literal, else by a literal of an
open clause, else, free of charge, by a variable that no open clause needs. -/
def extend [Theory τ] (s : State τ) (o : Options) (oversight : Oversight) :
    Step (State τ) (Result τ) :=
  match s.working.unit? s.trail with
  | some l => .next (s.assume l .propagation)
  | none =>
    match s.working.free? s.trail with
    | some l => s.decide (l.atom.withPolarity o.phase) o.decisionLimit
    | none =>
      match s.trail.firstFree? with
      | some l => .next (s.assume (l.withPolarity o.phase) .decision)
      | none => s.accept oversight

/-- The state before the first step. -/
def start (o : Options) (f : Formula) (n : Nat) (theory : τ) : State τ where
  trail := .empty (max n f.maxVar)
  working := if o.simplify then f.prune else f
  clauses := f
  theory := theory
  decisions := 0
  changed := false

end State

variable {τ : Type} [Theory τ]

/-- One step of a search. -/
def step (o : Options) (oversight : Oversight) (s : State τ) : Step (State τ) (Result τ) :=
  if s.working.value s.trail = some false then s.backtrack
  else if oversight = .partialAssignments ∧ s.changed then s.consult .next
  else s.extend o oversight

/-- The result of a search, if it comes within a number of steps. -/
def solveWithin (fuel : Nat) (o : Options) (f : Formula) (n : Nat) (theory : τ)
    (oversight : Oversight) : Option (Result τ) :=
  Process.upTo (step o oversight) fuel (.start o f n theory)

end Search

end EqualityLogic
