import EqualityLogic.Proofs.Integration.Models
import EqualityLogic.Proofs.Search.Totality

/-!
# Supervised search is right

A search that the theory of equality supervises keeps its clauses certified, since all that it
learns explains a rejection. So when it finds them unsatisfiable, the problem is.

For an assignment with which it ends, the question is whether the theory has accepted it. A search
that consults the theory about complete assignments has just done so. One that consults it about
partial assignments ends without a further question, and relies on its record of changes: where it
says that nothing has changed, the theory has accepted the trail as it is, or a clause is false and
the trail is about to change (`Supervised.seen`). The empty trail of the start, which the theory
never sees, is no exception, since every interpretation realises it.
-/

set_option autoImplicit false

namespace EqualityLogic

open Search

variable {p : Problem} {o : Options} {oversight : Oversight}
  {s s' : State (EqualityTheory p.names.length)}

/-- What a search of a problem keeps when the theory of equality supervises it. -/
structure Supervised (p : Problem) (oversight : Oversight)
    (s : State (EqualityTheory p.names.length)) : Prop where
  bounded : s.Bounded p.numVars
  atoms : s.theory.atoms = p.atoms
  certified : p.Certified s.clauses
  seen : oversight = .partialAssignments → s.changed = false →
    s.working.value s.trail ≠ some false → p.atoms.Realisable s.trail.assignment

/-- A search of a problem starts with the clauses of the problem and an empty trail, which every
interpretation realises. -/
theorem supervised_start (p : Problem) (o : Options) (oversight : Oversight) :
    Supervised p oversight (.start o p.formula p.numVars p.theory) where
  bounded := by
    have h := bounded_start o p.formula p.numVars p.theory
    rwa [Nat.max_eq_left p.maxVar_le_numVars] at h
  atoms := rfl
  certified := p.certified_formula
  seen _ _ _ := by
    refine ⟨Unit, fun _ => (), fun l hl => ?_⟩
    obtain ⟨r, hr⟩ := Trail.mem_assignment.1 hl
    cases hr

/-- An assignment that the theory does not reject can be realised, in whatever state the theory is.
-/
theorem Supervised.realisable (h : Supervised p oversight s) {m : Assignment} {v : Verdict}
    {th : EqualityTheory p.names.length} (judged : Theory.check s.theory m = (v, th))
    (fine : v ≠ .inconsistent) : p.atoms.Realisable m := by
  obtain ⟨rfl, -⟩ := EqualityTheory.of_check_eq judged
  rw [← h.atoms]
  by_cases hm : s.theory.atoms.Realisable m
  · exact hm
  · exact absurd (EqualityTheory.verdict_check_eq_inconsistent.2 hm) fine

/-- A check leaves the atoms of the problem, so the invariant about them is kept by all moves. -/
theorem Supervised.atoms_check (h : Supervised p oversight s) {m : Assignment} {v : Verdict}
    {th : EqualityTheory p.names.length} (judged : Theory.check s.theory m = (v, th)) :
    th.atoms = p.atoms := by
  obtain ⟨-, rfl⟩ := EqualityTheory.of_check_eq judged
  exact h.atoms

/-- A move keeps the invariant. What needs an argument is the record of changes: an approved trail
has been seen, and after a learned clause a clause is false. -/
theorem Supervised.move (h : Supervised p oversight s) (m : Move o oversight s s') :
    Supervised p oversight s' where
  bounded := (m.bounded_and_measure_lt (Theory.lawful _) h.bounded).1
  atoms := by
    cases m with
    | approve _ _ judged => exact h.atoms_check judged
    | learn _ _ judged explained =>
        exact (EqualityTheory.of_explained judged explained).2.2.1.trans h.atoms
    | _ => exact h.atoms
  certified := by
    cases m with
    | learn _ _ judged explained =>
        obtain ⟨rejected, rfl⟩ := EqualityTheory.of_check_eq judged
        exact h.certified.append_learned h.atoms rejected (congrArg Prod.fst explained)
    | _ => exact h.certified
  seen := by
    intro mode unchanged noConflict
    -- only a consultation clears the record of changes
    cases m with
    | approve _ _ judged fine => exact h.realisable judged fine
    | learn _ _ judged explained =>
        -- the rejected trail stays, but it makes the learned clause false
        exact absurd (value_append_learned h.bounded.wellFormed (Theory.lawful _) judged explained)
          noConflict
    | _ => cases unchanged

/-- A supervised search ends with an assignment that the theory accepts. It was asked just now, or
the record says that it has been asked about this very trail. -/
theorem Supervised.realisable_of_sat (h : Supervised p oversight s)
    {r : Result (EqualityTheory p.names.length)} (halt : Halt o oversight s r) {m : Assignment}
    (sat : r.answer = .ok (.sat m)) : p.atoms.Realisable m := by
  cases halt with
  | accept _ _ judged fine =>
      cases sat
      exact h.realisable judged fine
  | approved mode finished =>
      -- there is no check in this step, so the record of an earlier one has to do
      cases sat
      refine h.seen mode ?_ finished.noConflict
      cases hchanged : s.changed with
      | false => rfl
      | true => exact absurd ⟨mode, hchanged⟩ finished.notDue
  | _ => cases sat

/-- The outcome of a supervised search is read off its result, so theorems on searches carry over
with no further argument. -/
theorem Problem.supervise_eq (p : Problem) (s : Settings) (oversight : Oversight) :
    let r := solveWith s.toOptions p.formula p.numVars p.theory oversight
    p.supervise s oversight = r.answer.map fun a =>
      ⟨a, r.clauses, r.clauses.length - p.formula.length, r.theory.checks⟩ := rfl

/-- A supervised search answers, and its answer is right, whether the theory sees complete
assignments or partial ones. -/
theorem Problem.supervise_correct (p : Problem) (s : Settings) (oversight : Oversight) :
    ∃ out, p.supervise s oversight = .ok out ∧
      p.Correct (s.decisionLimit.isSome = true) out.answer := by
  have ends := ends_solveWith s.toOptions p.formula p.numVars p.theory oversight
  generalize hr : solveWith s.toOptions p.formula p.numVars p.theory oversight = r at ends
  obtain ⟨last, h, halt⟩ := exists_halt_of_ends (P := Supervised p oversight)
    (fun _ _ m h => h.move m) (supervised_start p s.toOptions oversight) ends
  obtain ⟨a, ha⟩ := halt.exists_answer fun m th judged => by
    obtain ⟨rejected, rfl⟩ := EqualityTheory.of_check_eq judged
    exact ⟨_, congrArg Prod.fst (EqualityTheory.learn_check rejected)⟩
  -- what is learned explains a rejection, so it is a law of the theory
  have certified : p.Certified r.clauses := halt.clauses_eq ▸ h.certified
  refine ⟨⟨a, r.clauses, r.clauses.length - p.formula.length, r.theory.checks⟩, ?_, ?_⟩
  · rw [supervise_eq, hr, ha]
    rfl
  · cases a with
    | sat m =>
        have solves := solves_of_ends ends ha
        rw [Nat.max_eq_left p.maxVar_le_numVars] at solves
        obtain ⟨rfl, -, -⟩ := halt.finished_of_sat ha
        exact certified.solution solves (solves.map_var_eq_range' fun _ => h.bounded.var_le)
          (h.realisable_of_sat halt ha)
    | unsat => exact certified.not_satisfiable (unsat_of_ends ends ha)
    | unknown => exact limited_of_ends ends ha

/-- What a supervised search reports, part by part: the answer, all clauses, how many of them are
learned, and the checks that the theory has counted. -/
theorem Problem.of_supervise_eq {p : Problem} {s : Settings} {oversight : Oversight} {out : Outcome}
    (h : p.supervise s oversight = .ok out) :
    let r := solveWith s.toOptions p.formula p.numVars p.theory oversight
    r.answer = .ok out.answer ∧ out.clauses = r.clauses ∧
      out.lemmas = r.clauses.length - p.formula.length ∧ out.theoryChecks = r.theory.checks := by
  intro r
  rw [supervise_eq] at h
  cases ha : r.answer with
  | error e =>
      rw [ha] at h
      cases h
  | ok a =>
      rw [ha] at h
      cases h
      exact ⟨rfl, rfl, rfl, rfl⟩

end EqualityLogic
