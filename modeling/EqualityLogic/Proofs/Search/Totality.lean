import EqualityLogic.Proofs.Search.Soundness
import EqualityLogic.Solve

/-!
# Searches answer

A search with a lawful theory comes to an end, because each rejection is followed by a real step
back (`acc_start`). Without a limit on decisions it ends with an assignment or with the answer that
there is none, or else the theory has failed to explain a rejection. `search_answers` says so, and
draws the conclusion for a formula alone, where there is no theory to fail: the search decides
whether the formula can be satisfied.

A theory that rejects nothing learns nothing (`Move.clauses_eq`), so the clauses at the end, for
which the answer is right, are the given ones. `solve_cases` is what this makes of the search of a
formula alone, with any options.
-/

set_option autoImplicit false

namespace EqualityLogic.Search

section Answers

variable {τ : Type} [Theory τ] {o : Options} {oversight : Oversight} {s s' : State τ}

/-- A theory that explains its rejections makes no search fail. It is asked to do so in the state in
which the search ends, not in general. -/
theorem Halt.exists_answer {r : Result τ} (halt : Halt o oversight s r)
    (explains : ∀ m th, Theory.check s.theory m = (.inconsistent, th) →
      ∃ c, (Theory.learn th).1 = .ok c) : ∃ a, r.answer = .ok a := by
  cases halt with
  | unexplained _ _ judged explained =>
      obtain ⟨c, hc⟩ := explains _ _ judged
      rw [explained] at hc
      cases hc
  | _ => exact ⟨_, rfl⟩

/-- A theory that rejects nothing adds no clause, so what is right for the clauses at the end is
right for those given. -/
theorem Move.clauses_eq (m : Move o oversight s s')
    (tolerant : ∀ m, (Theory.check s.theory m).1 ≠ .inconsistent) : s'.clauses = s.clauses := by
  cases m with
  | learn _ _ judged =>
      have := tolerant s.trail.assignment
      rw [judged] at this
      exact absurd rfl this
  | _ => rfl

end Answers

/-- Plain search finds an assignment of all variables in sight, or there is none, or a limit on
decisions stopped it. There is no fourth case: it ends, and its theory never fails. -/
theorem solve_cases (o : Options) (f : Formula) (n : Nat) :
    (∃ m, solve o f n = .ok (.sat m) ∧ m.Solves f (max n f.maxVar) ∧
      m.map Literal.var = List.range' 1 (max n f.maxVar)) ∨
    (solve o f n = .ok .unsat ∧ ∀ ρ, f.holds ρ = false) ∨
    (solve o f n = .ok .unknown ∧ o.decisionLimit.isSome = true) := by
  -- a formula alone is a problem for a theory that accepts everything
  have tolerant : ∀ (t : EmptyTheory) m, (Theory.check t m).1 ≠ .inconsistent := nofun
  have ends := ends_solveWith o f n EmptyTheory.mk .complete
  obtain ⟨s, hs, halt⟩ := exists_halt_of_ends (P := fun s => s.clauses = f)
    (fun s _ m hs => (m.clauses_eq (tolerant s.theory)).trans hs) rfl ends
  have hclauses : (solveWith o f n EmptyTheory.mk .complete).clauses = f :=
    halt.clauses_eq.trans hs
  obtain ⟨a, ha⟩ := halt.exists_answer fun m th judged => by
    have := tolerant s.theory m
    rw [judged] at this
    exact absurd rfl this
  have hsolve : solve o f n = .ok a := ha
  cases a with
  | sat m =>
      have solves := solves_of_ends ends ha
      rw [hclauses] at solves
      exact .inl ⟨m, hsolve, solves, solves.map_var_eq_range' (holds_of_solveWith ha).2.2⟩
  | unsat =>
      have unsat := unsat_of_ends ends ha
      rw [hclauses] at unsat
      exact .inr (.inl ⟨hsolve, unsat⟩)
  | unknown => exact .inr (.inr ⟨hsolve, limited_of_ends ends ha⟩)

/-- Plain search without a limit decides whether a formula can be satisfied. The assignment lists
each variable of the formula once, in order. -/
theorem satisfying?_cases (f : Formula) :
    (∃ m, f.satisfying? = .ok (some m) ∧ m.Solves f f.maxVar ∧
      m.map Literal.var = List.range' 1 f.maxVar) ∨
    (f.satisfying? = .ok none ∧ ∀ ρ, f.holds ρ = false) := by
  have cases_ := solve_cases {} f f.maxVar
  rw [Nat.max_self] at cases_
  unfold Formula.satisfying?
  rcases cases_ with ⟨m, h, solves⟩ | ⟨h, unsat⟩ | ⟨_, limited⟩
  · exact .inl ⟨m, by rw [h]; rfl, solves⟩
  · exact .inr ⟨by rw [h]; rfl, unsat⟩
  · cases limited

/-- With a lawful theory a search ends, and without a limit it does not give up. So it decides
whether a formula can be satisfied, and then finds an assignment that lists each variable once. -/
theorem search_answers {τ : Type} [Theory τ] (o : Options) (oversight : Oversight) (f : Formula)
    (n : Nat) {theory : τ} (lawful : Theory.Lawful theory) :
    (∃ r, Process.Ends (step o oversight) (.start o f n theory) r) ∧
    (o.decisionLimit = none → ∀ r, Process.Ends (step o oversight) (.start o f n theory) r →
      r.answer ≠ .ok .unknown) ∧
    ∀ g : Formula,
      (g.isSatisfiable = .ok true ↔ ∃ ρ, g.holds ρ = true) ∧
      (g.isSatisfiable = .ok false ↔ ¬ ∃ ρ, g.holds ρ = true) ∧
      ((∃ ρ, g.holds ρ = true) → ∃ m, g.satisfying? = .ok (some m) ∧ m.Solves g g.maxVar ∧
        m.map Literal.var = List.range' 1 g.maxVar) ∧
      ((¬ ∃ ρ, g.holds ρ = true) → g.satisfying? = .ok none) := by
  refine ⟨⟨_, Process.ends_run _ (acc_start o oversight f n lawful)⟩,
    fun unlimited r ends unknown => ?_, fun g => ?_⟩
  · have limited := limited_of_ends ends unknown
    rw [unlimited] at limited
    cases limited
  · unfold Formula.isSatisfiable
    -- for a formula alone the theory constrains nothing, so nothing but the formula counts
    rcases satisfying?_cases g with ⟨m, h, solves, vars⟩ | ⟨h, unsat⟩
    · have model : ∃ ρ, g.holds ρ = true := ⟨m.valuation, solves.holds⟩
      rw [h]
      exact ⟨⟨fun _ => model, fun _ => rfl⟩, ⟨nofun, fun no => absurd model no⟩,
        fun _ => ⟨m, rfl, solves, vars⟩, fun no => absurd model no⟩
    · have noModel : ¬ ∃ ρ, g.holds ρ = true := fun ⟨ρ, hρ⟩ => by
        rw [unsat ρ] at hρ
        cases hρ
      rw [h]
      exact ⟨⟨nofun, fun model => absurd model noModel⟩, ⟨fun _ => noModel, fun _ => rfl⟩,
        fun model => absurd model noModel, fun _ => rfl⟩

/-- Two equations force the third, which the formula rules out: the theory is needed for the answer,
since the formula alone can be satisfied. -/
theorem search_answers_triangle :
    let atoms : AtomTable 3 := ⟨[⟨1, 0, 1⟩, ⟨2, 1, 2⟩, ⟨3, 0, 2⟩], by decide, by decide⟩
    let f : Formula := [[⟨1, by decide⟩], [⟨2, by decide⟩], [⟨-3, by decide⟩]]
    let start := State.start {} f 3 (EqualityTheory.ofAtoms atoms)
    (∃ r, Process.Ends (step {} .partialAssignments) start r ∧ r.answer ≠ .ok .unknown) ∧
      f.isSatisfiable = .ok true := by
  intro atoms f start
  have h := search_answers {} .partialAssignments f 3
    (Theory.lawful (EqualityTheory.ofAtoms atoms))
  obtain ⟨r, ends⟩ := h.1
  exact ⟨⟨r, ends, h.2.1 rfl r ends⟩, (h.2.2 f).1.2 ⟨fun v => v != 3, by decide⟩⟩

end EqualityLogic.Search
