import EqualityLogic.Cnf.Valuation

/-!
# The trail of a search

A trail lists the literals that a search has made true, the latest first, with the reason for each,
beside a table of the values they give to the variables. Backtracking takes literals off until it
finds a decision and puts the opposite literal in its place.

Clauses and formulas have a value under a trail: true, false, or none as long as it is open.
-/

set_option autoImplicit false

namespace EqualityLogic

/-- Why a literal is on a trail. -/
inductive Reason where
  /-- It was the only way left to satisfy a clause. -/
  | propagation
  /-- It was chosen. -/
  | decision
  /-- Its negation was chosen before and failed. -/
  | backjump
deriving DecidableEq

/-- A table of the values of variables. A variable beyond its end has none. -/
abbrev Values := Array (Option Bool)

namespace Values

/-- The table that gives no value to the variables up to `n`. It has an unused slot for 0. -/
def blank (n : Nat) : Values := Array.replicate (n + 1) none

/-- The value of a variable. -/
def lookup (values : Values) (v : Nat) : Option Bool := values[v]?.join

/-- The table with a value for one variable, made longer if it has no slot for it. -/
def assign (values : Values) (v : Nat) (b : Bool) : Values :=
  if v < values.size then values.setIfInBounds v (some b)
  else (values ++ Array.replicate (v - values.size) none).push (some b)

/-- The table without a value for one variable. -/
def clear (values : Values) (v : Nat) : Values := values.setIfInBounds v none

end Values

/-- The literals made true so far, and the values they give. -/
structure Trail where
  /-- The literals with their reasons, the latest first. -/
  entries : List (Literal × Reason)
  /-- The values of the variables. -/
  values : Values
deriving DecidableEq

namespace Trail

/-- The trail of a search over variables 1 to `n` that has assigned none. -/
def empty (n : Nat) : Trail := ⟨[], .blank n⟩

/-- The value of a literal. -/
def value (t : Trail) (l : Literal) : Option Bool :=
  (t.values.lookup l.var).map (· != l.isNegated)

/-- Makes a literal true. -/
def push (t : Trail) (l : Literal) (r : Reason) : Trail :=
  ⟨(l, r) :: t.entries, t.values.assign l.var !l.isNegated⟩

/-- Takes entries off, and their values out of the table, up to the latest decision, whose negation
then takes its place. -/
def backtrackFrom (values : Values) : List (Literal × Reason) → Option Trail
  | [] => none
  | (l, r) :: es =>
    if r = .decision then some (push ⟨es, values.clear l.var⟩ l.negate .backjump)
    else backtrackFrom (values.clear l.var) es

/-- The trail with its latest decision reversed, if it holds one. -/
def backtrack? (t : Trail) : Option Trail := backtrackFrom t.values t.entries

/-- The smallest variable of the table that has no value, as a positive literal. -/
def firstFree? (t : Trail) : Option Literal :=
  (List.range (t.values.size - 1)).findSome? fun i =>
    if t.values.lookup (i + 1) = none then some (Literal.ofVar (i + 1) (Nat.succ_ne_zero i))
    else none

/-- The literals of the trail, by ascending variable. -/
def assignment (t : Trail) : Assignment :=
  (t.entries.map Prod.fst).reverse.mergeSort fun a b => a.var ≤ b.var

end Trail

/-- A clause is true with a true literal, false when all its literals are, and open otherwise. -/
def Clause.value (t : Trail) (c : Clause) : Option Bool :=
  if ∃ l ∈ c, t.value l = some true then some true
  else if ∀ l ∈ c, t.value l = some false then some false
  else none

/-- A formula is false with a false clause, true when all its clauses are, and open otherwise. -/
def Formula.value (t : Trail) (f : Formula) : Option Bool :=
  if ∃ c ∈ f, c.value t = some false then some false
  else if ∀ c ∈ f, c.value t = some true then some true
  else none

/-- The literal that an open clause forces: its free literals are all one. -/
def Clause.unit? (t : Trail) (c : Clause) : Option Literal :=
  match c.filter fun l => t.value l = none with
  | [] => none
  | l :: ls => if c.value t = none ∧ ∀ k ∈ ls, k = l then some l else none

/-- The first free literal of a clause, if the clause is open. -/
def Clause.free? (t : Trail) (c : Clause) : Option Literal :=
  if c.value t = none then c.find? fun l => t.value l = none else none

/-- The literal that the first forcing clause forces. -/
def Formula.unit? (t : Trail) (f : Formula) : Option Literal :=
  f.findSome? (Clause.unit? t)

/-- The first free literal of the first open clause. -/
def Formula.free? (t : Trail) (f : Formula) : Option Literal :=
  f.findSome? (Clause.free? t)

end EqualityLogic
