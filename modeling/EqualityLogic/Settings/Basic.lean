import EqualityLogic.Integration.Outcome

/-!
# Settings

What steers the solution of a problem: a strategy, the options of the search, and a limit on lazy
refinement. Each setting has a default.
-/

set_option autoImplicit false

namespace EqualityLogic

/-- How to solve a problem. -/
structure Settings extends Search.Options where
  /-- How search and theory are combined. -/
  strategy : Strategy := .lazy
  /-- The largest number of clauses that lazy refinement may learn. -/
  refinementLimit : Option Nat := none
deriving DecidableEq

end EqualityLogic
