import EqualityLogic.Integration.Outcome
import EqualityLogic.Proofs.Equality.Check
import EqualityLogic.Proofs.Search.Coverage
import Mathlib.Data.List.MinMax

/-!
# What a problem means

A problem is satisfiable when a valuation and an interpretation together satisfy it: the formula
holds, and the atoms have the truth values of their equations. A `Solution` is an assignment from
which both can be read off (`Solution.satisfiable`).

The clauses that a strategy gathers are `Certified` when each of them is one of the problem or a law
of the theory. Such clauses are satisfied by all that satisfies the problem, so if nothing satisfies
them, the problem is not satisfiable (`Certified.not_satisfiable`). An explained rejection keeps
clauses certified (`Certified.append_learned`); this is all that the strategies have to show of what
they learn.
-/

set_option autoImplicit false

namespace EqualityLogic

namespace Problem

variable {p : Problem}

/-- A valuation and an interpretation together satisfy the problem. -/
def Satisfiable (p : Problem) : Prop :=
  ∃ (D : Type) (I : Fin p.names.length → D) (ρ : Valuation),
    p.formula.holds ρ = true ∧ p.atoms.Agrees ρ I

/-- An assignment that lists each variable once and in order, makes all clauses true, and is
realised by some interpretation. -/
structure Solution (p : Problem) (m : Assignment) : Prop where
  vars : m.map Literal.var = List.range' 1 p.numVars
  satisfies : ∀ c ∈ p.formula, ∃ l ∈ c, l ∈ m
  realisable : p.atoms.Realisable m

/-- The variables of the formula are variables of the problem. So the search of a problem asks for
no fewer variables than its formula has. -/
theorem maxVar_le_numVars (p : Problem) : p.formula.maxVar ≤ p.numVars := Nat.le_max_left _ _

/-- The numbers of the atoms are variables of the problem, also those that the formula leaves out.
-/
theorem id_le_numVars {a : Atom p.names.length} (ha : a ∈ p.atoms.atoms) : a.id ≤ p.numVars := by
  have le : a.id ≤ p.atoms.maxId := List.le_max_of_le' 0 (List.mem_map_of_mem ha) (Nat.le_refl _)
  exact Nat.le_trans le (Nat.le_max_right _ _)

/-- A solution satisfies the problem: its own valuation makes the formula true, and an
interpretation that realises it gives the atoms the same truth values. Since the solution has a
literal for each variable, this settles all atoms. -/
theorem Solution.satisfiable {m : Assignment} (h : p.Solution m) : p.Satisfiable := by
  obtain ⟨D, I, realises⟩ := h.realisable
  have consistent :=
    Assignment.consistent_of_ascending (Assignment.ascending_of_map_var h.vars)
  refine ⟨D, I, m.valuation, ?_, fun a ha => ?_⟩
  · refine Formula.holds_iff.2 fun c hc => ?_
    obtain ⟨l, hl, hlm⟩ := h.satisfies c hc
    exact Clause.holds_iff.2 ⟨l, hl, consistent.holds hlm⟩
  · -- the assignment lists the atom, with one sign
    have hmem : a.id ∈ m.map Literal.var := by
      have hid := (p.atoms.inRange a ha).1
      have := id_le_numVars ha
      rw [h.vars, List.mem_range'_1]
      omega
    obtain ⟨l, hl, hvar⟩ := List.mem_map.1 hmem
    rw [← realises l hl a (AtomTable.atomOf?_eq_some.2 ⟨ha, hvar.symm⟩), ← hvar]
    have hholds := consistent.holds hl
    unfold Literal.holds at hholds
    cases hneg : l.isNegated <;> simp_all

/-- What an answer says of the problem. To give up is right where a limit was set. -/
def Correct (p : Problem) (limited : Prop) : Answer → Prop
  | .sat m => p.Solution m
  | .unsat => ¬ p.Satisfiable
  | .unknown => limited

/-- Of a satisfiable problem a right answer that does not give up shows a solution, as the other two
answers would be wrong. -/
theorem Correct.exists_sat {limited : Prop} {a : Answer} (h : p.Correct limited a)
    (unlimited : ¬ limited) (satisfiable : p.Satisfiable) : ∃ m, a = .sat m := by
  cases a with
  | sat m => exact ⟨m, rfl⟩
  | unsat => exact absurd satisfiable h
  | unknown => exact absurd h unlimited

/-- Of any other problem it says that there is none. With the lemma above, right answers leave no
choice but that of the solution. -/
theorem Correct.eq_unsat {limited : Prop} {a : Answer} (h : p.Correct limited a)
    (unlimited : ¬ limited) (unsatisfiable : ¬ p.Satisfiable) : a = .unsat := by
  cases a with
  | sat m => exact absurd (Solution.satisfiable h) unsatisfiable
  | unsat => rfl
  | unknown => exact absurd h unlimited

/-- Each clause is one of the problem or a law of its theory, and those of the problem come
first. -/
structure Certified (p : Problem) (clauses : Formula) : Prop where
  given : p.formula <+: clauses
  certified : ∀ c ∈ clauses, c ∈ p.formula ∨ p.atoms.Valid c

/-- The clauses of the problem are certified by themselves. Every strategy starts with these. -/
theorem certified_formula (p : Problem) : p.Certified p.formula where
  given := List.prefix_rfl
  certified _ hc := .inl hc

/-- A law of the theory may join certified clauses, at their end. -/
theorem Certified.append {clauses : Formula} (h : p.Certified clauses) {c : Clause}
    (valid : p.atoms.Valid c) : p.Certified (clauses ++ [c]) where
  given := h.given.trans (List.prefix_append _ _)
  certified := List.forall_mem_append.2 ⟨h.certified, List.forall_mem_singleton.2 (.inr valid)⟩

/-- What explains a rejection may join. The theory has to have the atoms of the problem, which no
call changes, so the history of calls does not matter. -/
theorem Certified.append_learned {clauses : Formula} (h : p.Certified clauses)
    {t : EqualityTheory p.names.length} (hatoms : t.atoms = p.atoms) {m : Assignment} {c : Clause}
    (rejected : (t.check m).verdict = .inconsistent) (explained : (t.check m).learn.1 = .ok c) :
    p.Certified (clauses ++ [c]) := by
  rw [EqualityTheory.learn_check rejected] at explained
  cases explained
  have valid :=
    AtomTable.valid_explanation (EqualityTheory.verdict_check_eq_inconsistent.1 rejected)
  rw [hatoms] at valid ⊢
  exact h.append valid

/-- What satisfies the problem satisfies certified clauses. So if nothing satisfies them, nothing
satisfies the problem. -/
theorem Certified.not_satisfiable {clauses : Formula} (h : p.Certified clauses)
    (unsat : ∀ ρ, clauses.holds ρ = false) : ¬ p.Satisfiable := by
  rintro ⟨D, I, ρ, holds, agrees⟩
  have hclauses : clauses.holds ρ = true := by
    refine Formula.holds_iff.2 fun c hc => ?_
    -- the formula and the theory judge the same valuation
    rcases h.certified c hc with hf | valid
    · exact Formula.holds_iff.1 holds c hf
    · exact valid D I ρ agrees
  rw [unsat ρ] at hclauses
  cases hclauses

/-- An assignment that solves certified clauses and that the theory accepts is a solution. The
clauses that were learned may be forgotten here, since those of the problem are in front of them. -/
theorem Certified.solution {clauses : Formula} (h : p.Certified clauses) {b : Nat} {m : Assignment}
    (solves : m.Solves clauses b) (vars : m.map Literal.var = List.range' 1 p.numVars)
    (realisable : p.atoms.Realisable m) : p.Solution m :=
  ⟨vars, fun c hc => solves.satisfies c (h.given.subset hc), realisable⟩

end Problem

end EqualityLogic
