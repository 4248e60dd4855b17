import EqualityLogic.Search.Termination

/-!
# The result of a search

With a lawful theory every search comes to an end, so it has a result: `solveWith`. Its defining
property is that the steps of the search end with it (`ends_solveWith`). `solve` is the search of a
formula alone.
-/

set_option autoImplicit false

namespace EqualityLogic.Search

variable {τ : Type} [Theory τ] [LawfulTheory τ]

/-- The result of a search for an assignment of the variables from 1 to `n` and all others of the
formula. -/
def solveWith (o : Options) (f : Formula) (n : Nat) (theory : τ) (oversight : Oversight) :
    Result τ :=
  Process.run (step o oversight) (.start o f n theory)
    (acc_start o oversight f n (Theory.lawful theory))

/-- The steps of a search end with its result. All that is known of `solveWith` is known through
this, and nothing depends on how it is computed. -/
theorem ends_solveWith (o : Options) (f : Formula) (n : Nat) (theory : τ) (oversight : Oversight) :
    Process.Ends (step o oversight) (.start o f n theory) (solveWith o f n theory oversight) :=
  Process.ends_run _ _

/-- An assignment that a search finds satisfies the formula, and its literals are those of a trail
over the variables in sight. This is as much as refinement needs to know of its engine in order to
come to an end. -/
theorem holds_of_solveWith {o : Options} {f : Formula} {n : Nat} {theory : τ}
    {oversight : Oversight} {m : Assignment}
    (sat : (solveWith o f n theory oversight).answer = .ok (.sat m)) :
    m.Consistent ∧ f.holds m.valuation = true ∧ ∀ l ∈ m, l.var ≤ max n f.maxVar := by
  obtain ⟨s, ⟨bounded, same, keeps⟩, halt⟩ := exists_halt_of_ends
    (P := fun s => s.Bounded (max n f.maxVar) ∧ s.SameMeaning ∧ f <+: s.clauses)
    (fun s s' m h => ⟨(m.bounded_and_measure_lt (Theory.lawful _) h.1).1, m.sameMeaning h.2.1,
      h.2.2.trans m.clauses_prefix⟩)
    ⟨bounded_start o f n theory, sameMeaning_start o f n theory, List.prefix_rfl⟩
    (ends_solveWith o f n theory oversight)
  have holds := halt.holds_of_sat sat bounded.wellFormed same
  obtain ⟨rfl, _, hc⟩ := halt.finished_of_sat sat
  refine ⟨bounded.wellFormed.consistent, ?_, fun _ => bounded.var_le⟩
  obtain ⟨learned, e⟩ := keeps
  rw [hc, ← e, Formula.holds_append, Bool.and_eq_true] at holds
  exact holds.1

/-- The answer of a search of a formula alone. -/
def solve (o : Options) (f : Formula) (n : Nat) : Except TheoryError Answer :=
  (solveWith o f n EmptyTheory.mk .complete).answer

end EqualityLogic.Search
