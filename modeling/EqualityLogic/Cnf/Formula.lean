import EqualityLogic.Cnf.Literal

/-!
# Clauses and formulas

A clause is a list of literals, read as "one of them holds", and a formula is a list of clauses,
read as "all of them hold". Order and repetition are kept, since both show when a formula is
written (`Formula.text`) or compared: lists compare lexicographically, literals by signed number.
-/

set_option autoImplicit false

namespace EqualityLogic

/-- A disjunction of literals. A variable may occur with both signs, or repeatedly. -/
abbrev Clause := List Literal

/-- A conjunction of clauses. -/
abbrev Formula := List Clause

namespace Clause

/-- The clause with the given signed numbers. -/
def ofNumbers (ns : List Int) : Except Literal.Error Clause :=
  ns.mapM Literal.ofNumber

/-- The signed numbers of a clause. -/
def toNumbers (c : Clause) : List Int :=
  c.map Literal.number

/-- A clause is written in parentheses, with bars between its literals. -/
def text (c : Clause) : String :=
  "(" ++ " || ".intercalate (c.map Literal.text) ++ ")"

end Clause

namespace Formula

/-- The formula with the given signed numbers. -/
def ofNumbers (ns : List (List Int)) : Except Literal.Error Formula :=
  ns.mapM Clause.ofNumbers

/-- The signed numbers of a formula, clause by clause. -/
def toNumbers (f : Formula) : List (List Int) :=
  f.map Clause.toNumbers

/-- A formula is written as its clauses with ampersands between them. -/
def text (f : Formula) : String :=
  " && ".intercalate (f.map Clause.text)

/-- The largest variable of a formula, or 0 if it has no literal. -/
def maxVar (f : Formula) : Nat :=
  (f.flatten.map Literal.var).foldr max 0

/-! ### The largest variable -/

/-- No literal exceeds the largest variable. So a table of values with a slot for each variable up
to the largest has one for every literal of the formula. -/
theorem var_le_maxVar {f : Formula} {c : Clause} {l : Literal} (hc : c ∈ f) (hl : l ∈ c) :
    l.var ≤ f.maxVar := by
  have mem : l.var ∈ f.flatten.map Literal.var :=
    List.mem_map_of_mem (List.mem_flatten.2 ⟨c, hc, hl⟩)
  rw [maxVar, List.foldr_eq_foldl, List.foldl_max]
  exact Nat.le_trans (List.le_max?_getD_of_mem mem) (Nat.le_max_right _ _)

/-- A bound on all literals bounds the largest variable. It is 0 where there is no literal, which
every bound allows. -/
theorem maxVar_le {f : Formula} {b : Nat} (h : ∀ c ∈ f, ∀ l ∈ c, l.var ≤ b) : f.maxVar ≤ b := by
  refine List.foldrRecOn (motive := (· ≤ b)) _ max (Nat.zero_le b) ?_
  intro largest le v hv
  obtain ⟨l, hl, rfl⟩ := List.mem_map.1 hv
  obtain ⟨c, hc, hlc⟩ := List.mem_flatten.1 hl
  exact Nat.max_le.2 ⟨h c hc l hlc, le⟩

end Formula

end EqualityLogic
