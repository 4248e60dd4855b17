import EqualityLogic.Proofs.Integration.Correctness
import EqualityLogic.Proofs.Integration.Engines
import EqualityLogic.Proofs.Search.Tolerance

/-!
# Problems without atoms

Where no variable is an atom, the theory of equality has nothing to object to
(`EqualityTheory.tolerant_of_no_atoms`). Lazy refinement is over after its first round, and a
supervised search is one with a theory that rejects nothing. So all strategies report the answer of
the search of the formula alone, and learn nothing (`Problem.solveBy_of_no_atoms`).
-/

set_option autoImplicit false

namespace EqualityLogic

/-- Without atoms every interpretation realises every assignment, since no literal is about an
equation. -/
theorem AtomTable.realisable_of_no_atoms {n : Nat} {atoms : AtomTable n} (none_ : atoms.atoms = [])
    (m : Assignment) : atoms.Realisable m := by
  refine ⟨Unit, fun _ => (), fun l _ a ha => ?_⟩
  have mem := (AtomTable.atomOf?_eq_some.1 ha).1
  rw [none_] at mem
  cases mem

/-- Without atoms the theory of equality rejects nothing, and goes on so after any calls, as these
do not give it atoms. -/
theorem EqualityTheory.tolerant_of_no_atoms {n : Nat} {t : EqualityTheory n}
    (none_ : t.atoms.atoms = []) : Theory.Tolerant t := by
  intro calls m rejected
  refine verdict_check_eq_inconsistent.1 rejected (AtomTable.realisable_of_no_atoms ?_ m)
  rw [atoms_after]
  exact none_

/-- A search covers the variables of its formula, so it makes no difference to ask for some of them.
-/
theorem Search.solve_of_le (o : Search.Options) {f : Formula} {n : Nat} (le : n ≤ f.maxVar) :
    Search.solve o f n = Search.solve o f f.maxVar := by
  have ends := ends_solveWith o f n EmptyTheory.mk .complete
  have same : State.start o f n EmptyTheory.mk = State.start o f f.maxVar EmptyTheory.mk := by
    unfold State.start
    rw [Nat.max_eq_right le, Nat.max_self]
  rw [same] at ends
  exact congrArg Result.answer (ends.unique (ends_solveWith o f f.maxVar EmptyTheory.mk .complete))

namespace Problem

variable {p : Problem}

/-- Without atoms the variables of a problem are those of its formula, so a strategy asks the search
for just these. -/
theorem numVars_of_no_atoms (none_ : p.atoms.atoms = []) : p.numVars = p.formula.maxVar := by
  unfold numVars AtomTable.maxId
  rw [none_]
  exact Nat.max_eq_left (Nat.zero_le _)

/-- A refinement ends with its first round. The number of checks is left open; it depends on whether
an assignment was found. -/
theorem refine_of_no_atoms (none_ : p.atoms.atoms = []) (s : Settings) {a : Answer}
    (found : Search.solve s.toOptions p.formula p.numVars = .ok a) :
    ∃ checks, p.refine s = .ok ⟨a, p.formula, 0, checks⟩ := by
  -- before the first round nothing is excluded
  have given : p.excluding [] = p.formula := List.append_nil _
  have first : ∃ checks, Refinement.Last p s.refinementLimit [] (.ok a)
      (.ok ⟨a, p.excluding [], 0, checks⟩) := by
    cases a with
    | unsat => exact ⟨_, .unsat⟩
    | unknown => exact ⟨_, .unknown⟩
    | sat m =>
        refine ⟨_, .accepted ?_⟩
        exact EqualityTheory.verdict_check_eq_consistent.2
          (AtomTable.realisable_of_no_atoms none_ m)
  obtain ⟨checks, first⟩ := first
  rw [given] at first
  refine ⟨checks, ?_⟩
  have ends : Process.Ends (Refinement.step (Refinement.engine s.toOptions) s.refinementLimit
      p.numVars) (Refinement.start p ()) (.ok ⟨a, p.formula, 0, checks⟩, ()) := by
    refine Refinement.ends_iff.2 ⟨[], (), .none, ?_, rfl⟩
    rw [given]
    show Refinement.Last p s.refinementLimit [] (Search.solve s.toOptions p.formula p.numVars) _
    rw [found]
    exact first
  exact congrArg Prod.fst ((p.ends_refine s).unique ends)

/-- A supervised search ends as the search of the formula alone, whenever the theory is consulted.
-/
theorem supervise_of_no_atoms (none_ : p.atoms.atoms = []) (s : Settings) (oversight : Oversight)
    {a : Answer} (found : Search.solve s.toOptions p.formula p.numVars = .ok a) :
    ∃ checks, p.supervise s oversight = .ok ⟨a, p.formula, 0, checks⟩ := by
  have tolerant : Theory.Tolerant p.theory := EqualityTheory.tolerant_of_no_atoms none_
  obtain ⟨th, ends⟩ :=
    Search.ends_of_tolerant s.toOptions p.formula p.numVars tolerant oversight
  have result := (Search.ends_solveWith _ _ _ _ _).unique ends
  refine ⟨th.checks, ?_⟩
  -- the clauses at the end are those of the problem, so no lemma is counted
  rw [supervise_eq, result, found]
  simp only [Except.map, Nat.sub_self]

/-- Of a problem without atoms, each strategy reports the answer for the formula alone, and has
learned nothing. An assignment is the same in each case, not just as good. -/
theorem solveBy_of_no_atoms (none_ : p.atoms.atoms = []) (s : Settings) (strategy : Strategy) :
    ∃ out, p.solveBy s strategy = .ok out ∧
      Search.solve s.toOptions p.formula p.formula.maxVar = .ok out.answer ∧
      out.clauses = p.formula ∧ out.lemmas = 0 := by
  have answered : ∃ a, Search.solve s.toOptions p.formula p.numVars = .ok a := by
    rcases Search.solve_cases s.toOptions p.formula p.numVars with ⟨_, h, -⟩ | ⟨h, -⟩ | ⟨h, -⟩ <;>
      exact ⟨_, h⟩
  obtain ⟨a, found⟩ := answered
  -- the strategies differ in how often they ask the theory, and in nothing else
  have reported : ∃ checks, p.solveBy s strategy = .ok ⟨a, p.formula, 0, checks⟩ := by
    cases strategy with
    | lazy => exact refine_of_no_atoms none_ s found
    | callback => exact supervise_of_no_atoms none_ s .complete found
    | propagation => exact supervise_of_no_atoms none_ s .partialAssignments found
  obtain ⟨checks, reported⟩ := reported
  rw [numVars_of_no_atoms none_] at found
  exact ⟨_, reported, found, rfl, rfl⟩

end Problem

end EqualityLogic
