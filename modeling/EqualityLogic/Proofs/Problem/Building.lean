import EqualityLogic.Proofs.Cnf.Numbers
import EqualityLogic.Proofs.Problem.Equations
import Mathlib.Data.List.MinMax
import Mathlib.Order.Nat

/-!
# Building a problem, exactly

`Draft.build` gives a problem with the parts of the draft (`Problem.MadeOf`), or the first fault of
its equations, or the first fault of its clauses if there is none among the equations. The two loops
of `build` stop at the first fault of their list (`judges_enter`, `judges_clause`), so that
`build_eq_ok_iff` and `build_eq_error_iff` leave nothing open.

The parts determine the problem, the equations in whatever order (`Problem.eq_of_spelled`).
-/

set_option autoImplicit false

namespace EqualityLogic

/-! ### Clauses -/

/-- What is wrong with a clause of numbers that comes after others. A zero is reported before a
variable that is too large, and of several such variables the first is. -/
def Clause.fault (before : List (List Int)) (ns : List Int) : Option DraftError :=
  if 0 ∈ ns then some (.zeroLiteral before.length)
  else (ns.find? fun n => maxVariable < n.natAbs).map (.literalOutOfRange before.length)

/-- A clause without fault has no zero, and its numbers are in range. What comes before it only
gives it its place in an error. -/
theorem Clause.fault_eq_none_iff {before : List (List Int)} {ns : List Int} :
    fault before ns = none ↔ 0 ∉ ns ∧ ∀ n ∈ ns, n.natAbs ≤ maxVariable := by
  unfold fault
  by_cases zero : 0 ∈ ns
  · simp [zero]
  · simp [zero, List.find?_eq_none]

/-- Clauses are without fault if each is, since none of them depends on another. -/
theorem Clause.faultless_iff {cs : List (List Int)} :
    Faultless fault cs ↔ ∀ ns ∈ cs, 0 ∉ ns ∧ ∀ n ∈ ns, n.natAbs ≤ maxVariable := by
  induction cs using List.reverseRecOn with
  | nil => simp [faultless_nil]
  | append_singleton cs ns ih =>
      rw [faultless_append_singleton, ih, fault_eq_none_iff, List.forall_mem_append,
        List.forall_mem_singleton]

/-- A formula whose variables are in range makes such clauses. The clauses of a text come from a
formula that has been read, so they are of this kind. -/
theorem Clause.faultless_toNumbers {f : Formula} (inRange : ∀ c ∈ f, ∀ l ∈ c, l.var ≤ maxVariable) :
    Faultless fault f.toNumbers := by
  rw [faultless_iff, Formula.toNumbers, List.forall_mem_map]
  intro c hc
  exact ⟨zero_notMem_toNumbers c, List.forall_mem_map.2 (inRange c hc)⟩

namespace Draft

/-- Numbers without fault are made into a clause with just these numbers. It is the one half of what
`judges_clause` asks for. -/
theorem clause_of_fault_eq_none {before : List (List Int)} {ns : List Int}
    (fine : Clause.fault before ns = none) :
    ∃ c, clause before.length ns = .ok c ∧ c.toNumbers = ns := by
  obtain ⟨nonzero, small⟩ := Clause.fault_eq_none_iff.1 fine
  obtain ⟨c, rfl⟩ := Clause.exists_toNumbers nonzero
  have none_ : c.toNumbers.find? (fun n => decide (maxVariable < n.natAbs)) = none := by
    refine List.find?_eq_none.2 fun n hn large => ?_
    exact absurd (small n hn) (Nat.not_le.2 (of_decide_eq_true large))
  refine ⟨c, ?_, rfl⟩
  unfold clause
  rw [Clause.ofNumbers_toNumbers]
  simp only [none_]

/-- Numbers with a fault are refused, with that fault as the error. The order of the two checks is
that of `Clause.fault`. -/
theorem clause_of_fault_eq_some {before : List (List Int)} {ns : List Int} {e : DraftError}
    (wrong : Clause.fault before ns = some e) : clause before.length ns = .error e := by
  unfold Clause.fault at wrong
  unfold clause
  by_cases zero : 0 ∈ ns
  · rw [if_pos zero] at wrong
    rw [Clause.ofNumbers_of_zero_mem zero, Option.some.inj wrong]
  · rw [if_neg zero] at wrong
    obtain ⟨n, found, rfl⟩ := Option.map_eq_some_iff.1 wrong
    obtain ⟨c, rfl⟩ := Clause.exists_toNumbers zero
    rw [Clause.ofNumbers_toNumbers]
    simp only [found]

/-- The last clause is judged when those before it have been. The function works from the front, and
first faults are found by adding clauses at the end, so the two have to be brought together. -/
theorem formulaFrom_append_singleton (i : Nat) (cs : List (List Int)) (ns : List Int) :
    formulaFrom i (cs ++ [ns]) = do
      let f ← formulaFrom i cs
      let c ← clause (i + cs.length) ns
      return f ++ [c] := by
  induction cs generalizing i with
  | nil =>
      show (do let c ← clause i ns; let f ← formulaFrom (i + 1) []; return c :: f) = _
      cases clause i ns <;> rfl
  -- the clause in front is judged first on both sides
  | cons ns' cs ih =>
      rw [List.cons_append, formulaFrom, formulaFrom, ih, List.length_cons,
        show i + (cs.length + 1) = i + 1 + cs.length from by omega]
      cases clause i ns' with
      | error e => rfl
      | ok c =>
          cases formulaFrom (i + 1) cs with
          | error e => rfl
          | ok f => cases clause (i + 1 + cs.length) ns <;> rfl

/-- Clauses are taken in turn up to the first one with a fault. What is known of those taken is
their numbers, which determine them. -/
theorem judges_clause :
    Judges Clause.fault (formulaFrom 0) fun cs f => f.toNumbers = cs where
  start := ⟨[], rfl, rfl⟩
  take {cs ns f} ok numbers fine := by
    obtain ⟨c, ok', rfl⟩ := clause_of_fault_eq_none fine
    refine ⟨f ++ [c], ?_, ?_⟩
    · rw [formulaFrom_append_singleton, ok, Nat.zero_add, ok']
      rfl
    · rw [Formula.toNumbers, List.map_append, ← numbers]
      rfl
  refuse ok numbers wrong := by
    rw [formulaFrom_append_singleton, ok, Nat.zero_add, clause_of_fault_eq_some wrong]
    rfl
  stop failed := by
    rw [formulaFrom_append_singleton, failed]
    rfl

end Draft

/-! ### Problems and their parts -/

/-- The largest of some numbers, or zero, is no more than a bound if all of them are. -/
theorem max?_getD_le_iff {ns : List Nat} {b : Nat} : ns.max?.getD 0 ≤ b ↔ ∀ n ∈ ns, n ≤ b := by
  cases h : ns.max? with
  | none => simp [List.max?_eq_none_iff.1 h]
  | some m => exact List.max?_le_iff h

namespace Problem

/-- The names in their order, the atoms as equations in some order, and the clauses in theirs. -/
structure MadeOf (p : Problem) (names : List String) (equations : List Equation)
    (clauses : List (List Int)) : Prop where
  names : p.names = names
  equations : (p.atoms.spelled p.names).Perm equations
  clauses : p.formula.toNumbers = clauses

variable {p q : Problem} {names : List String} {equations : List Equation}
  {clauses : List (List Int)}

/-- Names, atoms and formula make up a problem, the atoms in whatever order. A table sorts its atoms
by number, so the order in which they are given leaves no trace. -/
theorem eq_of_spelled (names : p.names = q.names)
    (atoms : (p.atoms.spelled p.names).Perm (q.atoms.spelled q.names))
    (formula : p.formula = q.formula) : p = q := by
  obtain ⟨names_, atoms_, formula_, distinct⟩ := p
  obtain ⟨names', atoms', formula', _⟩ := q
  obtain rfl : names_ = names' := names
  obtain rfl : formula_ = formula' := formula
  obtain rfl := AtomTable.eq_of_spelled_perm distinct atoms
  rfl

/-- There is one problem of given parts. So to say what the parts of a problem are is to say which
problem it is. -/
theorem MadeOf.unique (hp : p.MadeOf names equations clauses)
    (hq : q.MadeOf names equations clauses) : p = q := by
  refine eq_of_spelled (hp.names.trans hq.names.symm) (hp.equations.trans hq.equations.symm) ?_
  exact Formula.toNumbers_inj (hp.clauses.trans hq.clauses.symm)

/-- The variables of a problem are bounded by what bounds its atoms and its literals. -/
theorem numVars_le_iff {b : Nat} :
    p.numVars ≤ b ↔
      (∀ a ∈ p.atoms.atoms, a.id ≤ b) ∧ ∀ c ∈ p.formula, ∀ l ∈ c, l.var ≤ b := by
  rw [numVars, Nat.max_le]
  constructor
  · intro ⟨formula, atoms⟩
    refine ⟨fun a ha => ?_, fun c hc l hl => Nat.le_trans (Formula.var_le_maxVar hc hl) formula⟩
    exact Nat.le_trans (List.le_max_of_le' 0 (List.mem_map_of_mem ha) (Nat.le_refl _)) atoms
  · intro ⟨atoms, formula⟩
    refine ⟨Formula.maxVar_le formula, ?_⟩
    exact List.max_le_of_forall_le _ b (List.forall_mem_map.2 atoms)

/-- The number of variables is the largest number of an equation or a literal, and zero if there are
none. -/
theorem MadeOf.numVars_eq (h : p.MadeOf names equations clauses) :
    p.numVars =
      (equations.map (·.id.natAbs) ++ clauses.flatten.map Int.natAbs).max?.getD 0 := by
  -- both numbers have the same upper bounds, which do not depend on an order
  have bounded : ∀ b, p.numVars ≤ b ↔
      (equations.map (·.id.natAbs) ++ clauses.flatten.map Int.natAbs).max?.getD 0 ≤ b := by
    intro b
    rw [numVars_le_iff, max?_getD_le_iff, List.forall_mem_append]
    refine and_congr ?_ ?_
    · have spelled : (∀ e ∈ p.atoms.spelled p.names, e.id.natAbs ≤ b) ↔
          ∀ a ∈ p.atoms.atoms, a.id ≤ b := List.forall_mem_map
      rw [← spelled, List.forall_mem_map]
      exact forall_congr' fun e => imp_congr_left h.equations.mem_iff
    · have numbers : p.formula.toNumbers.flatten = p.formula.flatten.map Literal.number :=
        List.map_flatten.symm
      rw [← h.clauses, numbers, List.map_map, List.forall_mem_map, List.forall_mem_flatten]
      exact .rfl
  exact Nat.le_antisymm ((bounded _).2 (Nat.le_refl _)) ((bounded _).1 (Nat.le_refl _))

end Problem

namespace Draft

variable {d : Draft}

/-- A draft without fault makes the problem of its parts. Both loops get to their ends, the
equations first. -/
theorem build_of_faultless (equations : Faultless (Equation.fault d.names) d.equations)
    (clauses : Faultless Clause.fault d.clauses) :
    ∃ p, d.build = .ok p ∧ p.MadeOf d.names d.equations d.clauses := by
  obtain ⟨t, table, spelled⟩ := d.judges_enter.run_of_faultless equations
  obtain ⟨f, formula, numbers⟩ := judges_clause.run_of_faultless clauses
  rw [build, Draft.table, table]
  simp only [formula]
  exact ⟨_, rfl, rfl, spelled, numbers⟩

/-- A fault of an equation is reported before all faults of clauses, since the table is made first.
-/
theorem build_of_equation {e : AtomError}
    (wrong : FirstFault (Equation.fault d.names) d.equations e) : d.build = .error (.atom e) := by
  have table : d.table = .error e := d.judges_enter.run_of_firstFault wrong
  rw [build, table]

/-- A fault of a clause is reported if no equation is at fault. The hypothesis on equations is
needed because their faults come first. -/
theorem build_of_clause {e : DraftError}
    (equations : Faultless (Equation.fault d.names) d.equations)
    (wrong : FirstFault Clause.fault d.clauses e) : d.build = .error e := by
  obtain ⟨t, table, -⟩ := d.judges_enter.run_of_faultless equations
  rw [build, Draft.table, table]
  simp only [judges_clause.run_of_firstFault wrong]

/-- Nothing else can be the case: no fault at all, a first one among the equations, or a first one
among the clauses. -/
theorem fault_cases (d : Draft) :
    Faultless (Equation.fault d.names) d.equations ∧ Faultless Clause.fault d.clauses ∨
    (∃ e, FirstFault (Equation.fault d.names) d.equations e) ∨
    Faultless (Equation.fault d.names) d.equations ∧ ∃ e, FirstFault Clause.fault d.clauses e := by
  rcases faultless_or_firstFault (Equation.fault d.names) d.equations with equations | wrong
  · rcases faultless_or_firstFault Clause.fault d.clauses with clauses | wrong
    · exact .inl ⟨equations, clauses⟩
    · exact .inr (.inr ⟨equations, wrong⟩)
  · exact .inr (.inl wrong)

/-- A draft makes the problem of its parts if nothing is at fault, and no other problem. -/
theorem build_eq_ok_iff {p : Problem} :
    d.build = .ok p ↔ Faultless (Equation.fault d.names) d.equations ∧
      Faultless Clause.fault d.clauses ∧ p.MadeOf d.names d.equations d.clauses := by
  constructor
  · intro built
    rcases d.fault_cases with ⟨equations, clauses⟩ | ⟨e, wrong⟩ | ⟨equations, e, wrong⟩
    · obtain ⟨q, ok, made⟩ := build_of_faultless equations clauses
      rw [built] at ok
      cases ok
      exact ⟨equations, clauses, made⟩
    · rw [build_of_equation wrong] at built
      cases built
    · rw [build_of_clause equations wrong] at built
      cases built
  · intro ⟨equations, clauses, made⟩
    -- the problem that is built has the same parts, so it is the same one
    obtain ⟨q, ok, made'⟩ := build_of_faultless equations clauses
    rw [ok, made'.unique made]

/-- A draft makes no problem because of its first fault, with the equations before the clauses. -/
theorem build_eq_error_iff {err : DraftError} :
    d.build = .error err ↔
      (∃ e, FirstFault (Equation.fault d.names) d.equations e ∧ err = .atom e) ∨
        Faultless (Equation.fault d.names) d.equations ∧ FirstFault Clause.fault d.clauses err := by
  constructor
  · intro failed
    rcases d.fault_cases with ⟨equations, clauses⟩ | ⟨e, wrong⟩ | ⟨equations, e, wrong⟩
    · obtain ⟨q, ok, -⟩ := build_of_faultless equations clauses
      rw [failed] at ok
      cases ok
    · rw [build_of_equation wrong] at failed
      exact .inl ⟨e, wrong, (Except.error.inj failed).symm⟩
    · rw [build_of_clause equations wrong] at failed
      cases failed
      exact .inr ⟨equations, wrong⟩
  · intro h
    rcases h with ⟨e, wrong, rfl⟩ | ⟨equations, wrong⟩
    · exact build_of_equation wrong
    · exact build_of_clause equations wrong

end Draft

end EqualityLogic
