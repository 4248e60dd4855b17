import EqualityLogic.Proofs.Integration.Refinement
import EqualityLogic.Proofs.Integration.Supervision

/-!
# The strategies are right

Whatever the problem and the settings, each strategy answers, and its answer is right
(`solveBy_correct`): an assignment is a solution of the problem, without one the problem is not
satisfiable, and a strategy gives up only on a limit that it obeys. Only lazy refinement obeys the
limit on learned clauses.

So without limits all strategies give the same answer, up to the assignment that they find, and it
says whether the problem is satisfiable.
-/

set_option autoImplicit false

namespace EqualityLogic.Problem

/-- What must be set for a strategy to give up. -/
def Limited (s : Settings) : Strategy → Prop
  | .lazy => s.decisionLimit.isSome = true ∨ s.refinementLimit.isSome = true
  | .callback | .propagation => s.decisionLimit.isSome = true

/-- Each strategy answers, and its answer is right. The two kinds of strategies have their own
proofs, which agree on `Correct` as what to say. -/
theorem exists_outcome (p : Problem) (s : Settings) (strategy : Strategy) :
    ∃ out, p.solveBy s strategy = .ok out ∧ p.Correct (Limited s strategy) out.answer := by
  cases strategy with
  | lazy => exact p.refine_correct s
  | callback => exact p.supervise_correct s .complete
  | propagation => exact p.supervise_correct s .partialAssignments

/-- Each strategy answers, and its answer is right. Without limits, all of them say whether the
problem is satisfiable.

The second part follows from the first: an answer that is not the right one of the two would be
wrong, and giving up takes a limit. -/
theorem solveBy_correct (p : Problem) (s : Settings) :
    (∀ strategy, ∃ out, p.solveBy s strategy = .ok out ∧
      (∀ m, out.answer = .sat m → p.Solution m) ∧
      (out.answer = .unsat → ¬ p.Satisfiable) ∧
      (out.answer = .unknown → s.decisionLimit.isSome = true ∨
        strategy = .lazy ∧ s.refinementLimit.isSome = true)) ∧
    (s.decisionLimit = none → s.refinementLimit = none →
      (p.Satisfiable → ∀ strategy, ∃ out m, p.solveBy s strategy = .ok out ∧ out.answer = .sat m) ∧
      (¬ p.Satisfiable → ∀ strategy, ∃ out, p.solveBy s strategy = .ok out ∧
        out.answer = .unsat)) := by
  constructor
  · intro strategy
    obtain ⟨out, hout, correct⟩ := p.exists_outcome s strategy
    refine ⟨out, hout, fun m sat => ?_, fun unsat => ?_, fun unknown => ?_⟩
    · rwa [sat] at correct
    · rwa [unsat] at correct
    · -- only lazy refinement looks at the limit on clauses
      rw [unknown] at correct
      cases strategy with
      | lazy => exact correct.imp_right fun limited => ⟨rfl, limited⟩
      | callback => exact .inl correct
      | propagation => exact .inl correct
  · intro noDecisionLimit noRefinementLimit
    -- without limits no strategy may give up, so the answer is one of the other two
    have unlimited : ∀ strategy, ¬ Limited s strategy := by
      intro strategy
      cases strategy <;> simp [Limited, noDecisionLimit, noRefinementLimit]
    constructor
    · intro satisfiable strategy
      obtain ⟨out, hout, correct⟩ := p.exists_outcome s strategy
      obtain ⟨m, sat⟩ := correct.exists_sat (unlimited strategy) satisfiable
      exact ⟨out, m, hout, sat⟩
    · intro unsatisfiable strategy
      obtain ⟨out, hout, correct⟩ := p.exists_outcome s strategy
      exact ⟨out, hout, correct.eq_unsat (unlimited strategy) unsatisfiable⟩

/-- Two equations force the third, which the formula rules out. The formula alone can be satisfied,
so no strategy comes to its answer without the theory. -/
theorem solveBy_correct_triangle :
    let p : Problem :=
      { names := ["a", "b", "c"]
        atoms := ⟨[⟨1, ⟨0, by decide⟩, ⟨1, by decide⟩⟩, ⟨2, ⟨1, by decide⟩, ⟨2, by decide⟩⟩,
          ⟨3, ⟨0, by decide⟩, ⟨2, by decide⟩⟩], by decide, by decide⟩
        formula := [[⟨1, by decide⟩], [⟨2, by decide⟩], [⟨-3, by decide⟩]]
        distinct := by decide }
    ¬ p.Satisfiable ∧ ∀ strategy, ∃ out, p.solveBy {} strategy = .ok out ∧ out.answer = .unsat := by
  intro p
  have unsatisfiable : ¬ p.Satisfiable := by
    rintro ⟨D, I, ρ, holds, agrees⟩
    have clauses : (ρ 1 = true ∧ ρ 2 = true) ∧ ρ 3 = false := by
      simpa [p, Formula.holds, Clause.holds, Literal.holds, Literal.var, Literal.isNegated,
        and_assoc] using holds
    have ab := (agrees _ List.mem_cons_self).1 clauses.1.1
    have bc := (agrees _ (List.mem_cons_of_mem _ List.mem_cons_self)).1 clauses.1.2
    have ac : ρ 3 = true := (agrees _ (List.mem_cons_of_mem _ (List.mem_cons_of_mem _
      List.mem_cons_self))).2 (ab.trans bc)
    rw [clauses.2] at ac
    cases ac
  exact ⟨unsatisfiable, ((solveBy_correct p {}).2 rfl rfl).2 unsatisfiable⟩

end EqualityLogic.Problem
