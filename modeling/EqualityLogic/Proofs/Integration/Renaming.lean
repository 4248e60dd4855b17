import EqualityLogic.Proofs.Equality.Renaming
import EqualityLogic.Proofs.Integration.Correctness
import EqualityLogic.Proofs.Integration.Engines
import EqualityLogic.Proofs.Search.Simulation

/-!
# Problems with renamed variables

A problem whose variables are renamed has the same outcome, to the last clause and check: the names
may be other ones, they may be declared in another order, there may be names that no atom mentions,
and the sides of an atom may be swapped (`solveBy_renamed`).

Neither strategy looks at a theory other than through its verdicts and explanations, which stay the
same. In a supervised search the two theories are in different states, with forests of different
shapes, and all that relates them is that the one has the atoms of the other, renamed, and has been
checked as often (`alike_renamed`). So the two searches take the same steps. In a refinement the
same rounds follow each other, whatever the engine (`Refinement.Rounds.renamed`).
-/

set_option autoImplicit false

namespace EqualityLogic

namespace Problem

/-- The same formula over atoms whose sides are renamed by an injection and may be swapped. -/
structure Renamed (p q : Problem) : Prop where
  formula : q.formula = p.formula
  atoms : ∃ σ, AtomTable.Renamed σ p.atoms q.atoms

variable {p q : Problem}

namespace Renamed

/-- Renamed problems have as many propositional variables, however many names they have. -/
theorem numVars_eq (h : p.Renamed q) : q.numVars = p.numVars := by
  obtain ⟨σ, hσ⟩ := h.atoms
  unfold numVars
  rw [h.formula, hσ.maxId_eq]

/-- The theories of renamed problems reject the same assignments when they are new. In a refinement
this is enough, as `Rejects` asks a new theory. -/
theorem check_eq (h : p.Renamed q) (m : Assignment) :
    (Theory.check q.theory m).1 = (Theory.check p.theory m).1 := by
  obtain ⟨σ, hσ⟩ := h.atoms
  have atoms : AtomTable.Renamed σ p.theory.atoms q.theory.atoms := hσ
  exact EqualityTheory.verdict_check_renamed atoms m

/-- Renamed problems exclude assignments by the same clauses, so their engines are called with the
same formulas. -/
theorem excluding_eq (h : p.Renamed q) (ms : List Assignment) :
    q.excluding ms = p.excluding ms := by
  obtain ⟨σ, hσ⟩ := h.atoms
  have same : q.exclusion = p.exclusion := by
    funext m
    unfold exclusion
    rw [← AtomTable.explanation_eq, ← AtomTable.explanation_eq]
    exact hσ.explanation_eq m
  unfold excluding
  rw [h.formula, same]

end Renamed

end Problem

/-! ### Refinement -/

namespace Refinement

variable {ε : Type} {p q : Problem} {limit : Option Nat}
  {solve : ε → Formula → Nat → Except TheoryError Answer × ε} {engine e : ε} {ms : List Assignment}

/-- The same rounds follow each other, as each of them finds, rejects and excludes the same. -/
theorem Rounds.renamed (rounds : Rounds p limit solve engine ms e) (h : p.Renamed q) :
    Rounds q limit solve engine ms e := by
  induction rounds with
  | none => exact .none
  | snoc _ found rejected allowed ih =>
      refine ih.snoc ?_ ((h.check_eq _).trans rejected) allowed
      rw [h.excluding_eq, h.numVars_eq]
      exact found

/-- The same round is the last one, with the same outcome. An outcome holds clauses and numbers, and
no names that could differ. -/
theorem Last.renamed {a : Except TheoryError Answer} {r : Except TheoryError Outcome}
    (last : Last p limit ms a r) (h : p.Renamed q) : Last q limit ms a r := by
  have same := h.excluding_eq ms
  cases last with
  | error => exact .error
  | unsat => exact same ▸ .unsat
  | unknown => exact same ▸ .unknown
  | accepted fine => exact same ▸ .accepted ((h.check_eq _).trans fine)
  | limited rejected spent => exact same ▸ .limited ((h.check_eq _).trans rejected) spent

/-- With any engine, the refinement of a problem with renamed variables ends in the same way. The
engine never sees a name, only clauses and a number of variables. -/
theorem ends_renamed {r : Except TheoryError Outcome × ε}
    (ends : Process.Ends (step solve limit p.numVars) (start p engine) r) (h : p.Renamed q) :
    Process.Ends (step solve limit q.numVars) (start q engine) r := by
  obtain ⟨ms, e, rounds, last, he⟩ := ends_iff.1 ends
  have same : solve e (q.excluding ms) q.numVars = solve e (p.excluding ms) p.numVars := by
    rw [h.excluding_eq, h.numVars_eq]
  refine ends_iff.2 ⟨ms, e, rounds.renamed h, ?_, ?_⟩
  · rw [same]
    exact last.renamed h
  · rw [same]
    exact he

end Refinement

/-- Lazy refinement gives renamed problems one outcome, as an equation of results: an error would be
the same one too. -/
theorem Problem.refine_renamed {p q : Problem} (h : p.Renamed q) (s : Settings) :
    q.refine s = p.refine s := by
  have ends := Refinement.ends_renamed (p.ends_refine s) h
  exact congrArg Prod.fst ((q.ends_refine s).unique ends)

/-! ### Supervised search -/

/-- Theories of renamed atoms that have been checked as often answer alike. Their forests may have
different roots, so it is not asked that their states correspond. -/
theorem alike_renamed {n n' : Nat} (σ : Fin n → Fin n') :
    Theory.Alike fun (t : EqualityTheory n) (t' : EqualityTheory n') =>
      AtomTable.Renamed σ t.atoms t'.atoms ∧ t'.checks = t.checks where
  rejects := by
    intro t t' ⟨renamed, _⟩ m
    show (t.check m).verdict = _ ↔ (t'.check m).verdict = _
    rw [EqualityTheory.verdict_check_renamed renamed]
  accepted := by
    intro t t' ⟨renamed, checks⟩ m _
    exact ⟨renamed, congrArg (· + 1) checks⟩
  explained := by
    intro t t' ⟨renamed, checks⟩ m rejected
    have rejected' := (EqualityTheory.verdict_check_renamed renamed m).trans rejected
    show (t.check m).learn.1 = (t'.check m).learn.1 ∧ AtomTable.Renamed σ (t.check m).learn.2.atoms
      (t'.check m).learn.2.atoms ∧ (t'.check m).learn.2.checks = (t.check m).learn.2.checks
    -- both have an explanation to give, and it is the same clause
    rw [EqualityTheory.learn_check rejected, EqualityTheory.learn_check rejected']
    exact ⟨congrArg _ (renamed.explanation_eq m).symm, renamed, congrArg (· + 1) checks⟩

/-- Supervised search gives renamed problems one outcome. The two searches end together, and their
theories have been checked as often. -/
theorem Problem.supervise_renamed {p q : Problem} (h : p.Renamed q) (s : Settings)
    (oversight : Oversight) : q.supervise s oversight = p.supervise s oversight := by
  obtain ⟨σ, hσ⟩ := h.atoms
  have ends' := Search.ends_solveWith s.toOptions q.formula q.numVars q.theory oversight
  obtain ⟨th, ⟨-, checks⟩, ends⟩ := Search.exists_ends_of_alike (t := q.theory) (alike_renamed σ)
    ⟨hσ, rfl⟩ (Search.ends_solveWith s.toOptions p.formula p.numVars p.theory oversight)
  rw [h.formula, h.numVars_eq] at ends'
  -- the results have the same answer and clauses, and theories that have been checked as often
  have result := ends'.unique ends
  rw [supervise_eq, supervise_eq, h.formula, h.numVars_eq, result]
  simp only
  rw [checks]

/-! ### All strategies -/

/-- No strategy notices how the variables of a problem are named and ordered, how many of them no
atom mentions, and on which sides of an equation they stand. The outcome is the same as a whole,
with its clauses and its number of checks. -/
theorem Problem.solveBy_renamed {p q : Problem} (h : p.Renamed q) (s : Settings)
    (strategy : Strategy) :
    ∃ out, p.solveBy s strategy = .ok out ∧ q.solveBy s strategy = .ok out := by
  obtain ⟨out, hout, -⟩ := p.exists_outcome s strategy
  refine ⟨out, hout, ?_⟩
  rw [← hout]
  cases strategy with
  | lazy => exact refine_renamed h s
  | callback => exact supervise_renamed h s .complete
  | propagation => exact supervise_renamed h s .partialAssignments

/-- The same three equations over other names, in reverse order and after an unused one. The first
equation has its sides swapped. -/
theorem Problem.solveBy_renamed_triangle :
    let a : Literal := ⟨1, by decide⟩
    let b : Literal := ⟨2, by decide⟩
    let c : Literal := ⟨3, by decide⟩
    let p : Problem :=
      { names := ["a", "b", "c"]
        atoms := ⟨[⟨1, ⟨0, by decide⟩, ⟨1, by decide⟩⟩, ⟨2, ⟨1, by decide⟩, ⟨2, by decide⟩⟩,
          ⟨3, ⟨0, by decide⟩, ⟨2, by decide⟩⟩], by decide, by decide⟩
        formula := [[a, b], [c.negate]]
        distinct := by decide }
    let q : Problem :=
      { names := ["w", "z", "y", "x"]
        atoms := ⟨[⟨1, ⟨2, by decide⟩, ⟨3, by decide⟩⟩, ⟨2, ⟨2, by decide⟩, ⟨1, by decide⟩⟩,
          ⟨3, ⟨3, by decide⟩, ⟨1, by decide⟩⟩], by decide, by decide⟩
        formula := [[a, b], [c.negate]]
        distinct := by decide }
    p.Renamed q ∧ ∀ strategy, ∃ out, p.solveBy {} strategy = .ok out ∧
      q.solveBy {} strategy = .ok out := by
  intro a b c p q
  let σ : Fin 3 → Fin 4 := fun i => ⟨3 - i, by omega⟩
  have injective : ∀ i j : Fin 3, σ i = σ j → i = j := by decide
  have renamed : p.Renamed q := ⟨rfl, σ, fun i j => injective i j, rfl, by decide⟩
  exact ⟨renamed, fun strategy => solveBy_renamed renamed {} strategy⟩

end EqualityLogic
