import EqualityLogic.Problem.Basic
import EqualityLogic.Search.Basic

/-!
# Strategies and outcomes

There are three ways to combine propositional search with the theory of equality, which differ in
who leads and in when the theory is consulted. All of them report an `Outcome`: the answer, the
clauses at the end, and how much was learned and checked on the way.
-/

set_option autoImplicit false

namespace EqualityLogic

/-- How search and theory are combined. -/
inductive Strategy where
  /-- Search the formula alone, check the assignment found, rule it out if the theory rejects it,
  and search again from the start. -/
  | lazy
  /-- The search consults the theory about complete assignments and goes on after a rejection. -/
  | callback
  /-- As `callback`, about partial assignments too. -/
  | propagation
deriving DecidableEq

namespace Strategy

/-- All strategies, in the order in which they are listed. -/
def all : List Strategy := [.lazy, .callback, .propagation]

/-- The name of a strategy. -/
def text : Strategy → String
  | .lazy => "lazy"
  | .callback => "callback"
  | .propagation => "propagation"

/-- The strategy of a given name. -/
def ofName? (name : String) : Option Strategy := all.find? fun s => s.text = name

/-- The strategy of a given name, with ASCII letters of either case. -/
def ofNameAnyCase? (name : String) : Option Strategy := ofName? (name.map Char.toLower)

end Strategy

/-- What a strategy reports of a problem. -/
structure Outcome where
  /-- The answer, with the accepted assignment. -/
  answer : Answer
  /-- The problem's clauses followed by the learned ones. -/
  clauses : Formula
  /-- The number of learned clauses. -/
  lemmas : Nat
  /-- The number of assignments that the theory judged. -/
  theoryChecks : Nat
deriving DecidableEq

/-- The learned clauses. -/
def Outcome.learned (o : Outcome) : Formula := o.clauses.drop (o.clauses.length - o.lemmas)

end EqualityLogic
