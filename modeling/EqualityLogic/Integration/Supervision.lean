import EqualityLogic.Integration.Outcome

/-!
# Supervised search

The search leads, with the theory as its oracle. A rejected assignment restarts nothing: the clause
that rules it out joins the clauses of the search, which backs out of it as out of any other
conflict. The engine that searches may be any function with a state of its own.
-/

set_option autoImplicit false

namespace EqualityLogic.Supervision

/-- A search for an assignment that a theory over `n` variables accepts, by an engine. -/
abbrev Engine (n : Nat) (ε : Type) :=
  ε → Formula → Nat → EqualityTheory n → Oversight → Search.Result (EqualityTheory n) × ε

/-- The outcome of one search of a problem, with what the engine has become. -/
def solve {ε : Type} (p : Problem) (search : Engine p.names.length ε) (oversight : Oversight)
    (engine : ε) : Except TheoryError Outcome × ε :=
  let (r, engine) := search engine p.formula p.numVars p.theory oversight
  (r.answer.map fun a =>
    { answer := a
      clauses := r.clauses
      lemmas := r.clauses.length - p.formula.length
      theoryChecks := r.theory.checks }, engine)

end EqualityLogic.Supervision
