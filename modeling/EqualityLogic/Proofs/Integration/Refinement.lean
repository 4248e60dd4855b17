import EqualityLogic.Proofs.Integration.Models
import EqualityLogic.Proofs.Search.Totality

/-!
# Lazy refinement is right

Each round of a refinement learns an explanation of a rejection, so the clauses stay certified, with
any engine (`Refined.step`). The built-in engine searches them to the end: an assignment that it
finds makes all of them true, those of the problem among them, and if it finds none, there is none
for the problem. What is left is the check at the end of a round, and its answer is the truth about
the assignment. A refinement gives up only where the engine does, on the limit on decisions, or on
its own limit (`Refined.correct_of_done`).
-/

set_option autoImplicit false

namespace EqualityLogic

open Refinement

variable {p : Problem} {ε : Type} {s s' : State p.names.length ε}
  {solve : ε → Formula → Nat → Except TheoryError Answer × ε} {limit : Option Nat}

/-- What a refinement keeps between two rounds: no variables beyond those of the problem, the atoms
of the problem, and clauses that are certified. -/
structure Refined (p : Problem) (s : State p.names.length ε) : Prop where
  le : s.clauses.maxVar ≤ p.numVars
  atoms : s.theory.atoms = p.atoms
  certified : p.Certified s.clauses

/-- A refinement starts with the clauses of the problem, which name no variable beyond the
problem's. -/
theorem refined_start (p : Problem) (engine : ε) : Refined p (start p engine) where
  le := p.maxVar_le_numVars
  atoms := rfl
  certified := p.certified_formula

/-- A round that another one follows keeps all this, with any engine that is sound. The soundness
keeps the variables in range; that the clauses stay certified is due to the theory alone. -/
theorem Refined.step (h : Refined p s) (sound : Sound solve)
    (next : Refinement.step solve limit p.numVars s = .next s') : Refined p s' := by
  have le := (bounded_and_satCount_lt sound h.le next).1
  obtain ⟨m, c, found, rejected, explained, rfl⟩ := exists_of_step_eq_next next
  refine ⟨le, ?_, h.certified.append_learned h.atoms rejected explained⟩
  exact (EqualityTheory.atoms_perform (s.theory.check m) .learn).trans h.atoms

/-- A rejection ends the refinement only where a limit says so, since it can be explained. The
outcome is then a failure to answer, and not an error. -/
theorem exists_limit_of_refine_eq_done {m : Assignment}
    {r : Except TheoryError Outcome × ε} (htheory : ∃ t, s.theory = EqualityTheory.check t m)
    (rejected : s.theory.verdict = .inconsistent) (done : s.refine limit = .done r) :
    limit.isSome = true ∧ ∃ out, r.1 = .ok out ∧ out.answer = .unknown := by
  unfold State.refine at done
  split at done
  · next spent =>
    -- without a limit none is spent
    cases done
    cases limit with
    | none => cases spent
    | some k => exact ⟨rfl, _, rfl, rfl⟩
  · obtain ⟨t, ht⟩ := htheory
    rw [ht] at rejected done
    rw [EqualityTheory.learn_check rejected] at done
    cases done

/-- The last round of a refinement with the built-in engine gives a right answer. A search without
an assignment tells that the clauses cannot be satisfied, and a search with one leaves the question
to the theory, whose verdict is the truth. -/
theorem Refined.correct_of_done {o : Search.Options} {s : State p.names.length Unit}
    (h : Refined p s) {r : Except TheoryError Outcome × Unit}
    (done : Refinement.step (engine o) limit p.numVars s = .done r) :
    ∃ out, r.1 = .ok out ∧
      p.Correct (o.decisionLimit.isSome = true ∨ limit.isSome = true) out.answer := by
  have found := Search.solve_cases o s.clauses p.numVars
  rw [Nat.max_eq_left h.le] at found
  unfold Refinement.step engine at done
  rcases found with ⟨m, found, solves, vars⟩ | ⟨found, unsat⟩ | ⟨found, limited⟩
  · simp only [found] at done
    split at done
    · next accepted =>
      cases done
      have realisable := EqualityTheory.verdict_check_eq_consistent.1 accepted
      rw [h.atoms] at realisable
      -- the clauses that were learned are true as well, but what counts are those of the problem
      exact ⟨_, rfl, h.certified.solution solves vars realisable⟩
    · next rejected =>
      obtain ⟨limited, out, hout, hanswer⟩ :=
        exists_limit_of_refine_eq_done ⟨s.theory, rfl⟩ rejected done
      refine ⟨out, hout, ?_⟩
      rw [hanswer]
      exact .inr limited
    · next noOpinion => exact absurd noOpinion (s.theory.verdict_check_ne_unknown m)
  · simp only [found] at done
    cases done
    exact ⟨_, rfl, h.certified.not_satisfiable unsat⟩
  · simp only [found] at done
    cases done
    exact ⟨_, rfl, .inl limited⟩

/-- The rounds with the built-in engine end with the outcome of lazy refinement. Theorems on rounds
apply to `Problem.refine` through it. -/
theorem Problem.ends_refine (p : Problem) (s : Settings) :
    Process.Ends (Refinement.step (engine s.toOptions) s.refinementLimit p.numVars) (start p ())
      (p.refine s, ()) :=
  ends_solve (sound_engine s.toOptions) s.refinementLimit p ()

/-- Lazy refinement answers, and its answer is right. The invariant is carried to the last round,
which gives the answer. -/
theorem Problem.refine_correct (p : Problem) (s : Settings) :
    ∃ out, p.refine s = .ok out ∧
      p.Correct (s.decisionLimit.isSome = true ∨ s.refinementLimit.isSome = true) out.answer := by
  obtain ⟨last, reached, done⟩ := (p.ends_refine s).last
  have h : Refined p last :=
    reached.keeps (fun _ _ h next => h.step (sound_engine s.toOptions) next) (refined_start p ())
  exact h.correct_of_done done

end EqualityLogic
