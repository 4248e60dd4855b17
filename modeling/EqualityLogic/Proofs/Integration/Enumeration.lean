import EqualityLogic.Proofs.Integration.Learned
import EqualityLogic.Proofs.Integration.Refinement
import EqualityLogic.Proofs.Integration.Supervision

/-!
# Learning from complete assignments

Lazy refinement and a search that consults the theory once its assignment is complete have this in
common: each clause that they learn excludes an assignment that lists all variables and satisfies
all clauses, also those that were pruned and those learned before. So the clause names every atom,
it is false where all clauses before it hold, and it is none of them (`Enumerated`). With `n` atoms
this cannot happen more than `2 ^ n - 1` times.

The two get there in different ways. Each round of a refinement ends a search of its own
(`enumerated_of_rounds`), while a supervised search goes on with its trail (`Enumerating.move`).
-/

set_option autoImplicit false

namespace EqualityLogic

open Search Refinement

variable {p : Problem} {cs : Formula} {m : Assignment}

namespace Problem

/-- Learned clauses that exclude complete assignments. -/
structure Enumerated (p : Problem) (cs : Formula) : Prop extends p.Learned cs where
  inOrder : ∀ c ∈ cs, c.map Literal.var = p.atoms.atoms.map Atom.id
  new : ∀ before c after, cs = before ++ c :: after →
    ∃ ρ, (p.formula ++ before).holds ρ = true ∧ c.holds ρ = false

/-- What is reported of learned clauses that exclude complete assignments. -/
structure Enumerates (p : Problem) (out : Outcome) : Prop where
  clauses : out.clauses = p.formula ++ out.learned
  lemmas : out.learned.length = out.lemmas
  inOrder : ∀ c ∈ out.learned, c.map Literal.var = p.atoms.atoms.map Atom.id
  distinct : out.learned.Nodup
  new : ∀ before c after, out.learned = before ++ c :: after →
    ∃ ρ, (p.formula ++ before).holds ρ = true ∧ c.holds ρ = false
  bounded : out.lemmas ≤ 2 ^ p.atoms.atoms.length - 1

/-- The clause that excludes a complete assignment names all atoms in order: the assignment lists
all variables in order, and the atoms of a table ascend. -/
theorem map_var_exclusion (vars : m.map Literal.var = List.range' 1 p.numVars) :
    (p.exclusion m).map Literal.var = p.atoms.atoms.map Atom.id := by
  have ascending := Assignment.ascending_of_map_var vars
  refine eq_of_ascending (List.pairwise_map.2 (ascending_exclusion ascending))
    (List.pairwise_map.2 p.atoms.ascending) fun v => ?_
  rw [List.mem_map, List.mem_map]
  constructor
  · rintro ⟨l, hl, rfl⟩
    exact (overAtoms_exclusion ascending).atoms l hl
  · rintro ⟨a, ha, rfl⟩
    -- the assignment lists the atom, with one sign
    have listed : a.id ∈ m.map Literal.var := by
      have := (p.atoms.inRange a ha).1
      have := id_le_numVars ha
      rw [vars, List.mem_range'_1]
      omega
    obtain ⟨l, hl, hv⟩ := List.mem_map.1 listed
    refine ⟨l.negate, mem_exclusion.2 ⟨by rwa [Literal.negate_negate], ?_⟩, ?_⟩
    · rw [AtomTable.atomOf?_eq_some.2 ⟨ha, by rw [Literal.var_negate, hv]⟩]
      rfl
    · rw [Literal.var_negate, hv]

namespace Enumerated

/-- Nothing has been learned yet at the start, by either strategy, so all conditions on learned
clauses are empty. -/
theorem nil : p.Enumerated [] := ⟨.nil, nofun, fun before _ _ h => by cases before <;> cases h⟩

/-- One more complete assignment may be excluded if it satisfies the clauses before. Its own
valuation shows that the clause is new. -/
theorem append_exclusion (h : p.Enumerated cs)
    (vars : m.map Literal.var = List.range' 1 p.numVars)
    (holds : (p.formula ++ cs).holds m.valuation = true)
    (unrealisable : ¬ p.atoms.Realisable m) : p.Enumerated (cs ++ [p.exclusion m]) := by
  have ascending := Assignment.ascending_of_map_var vars
  -- the valuation of the assignment makes all clauses true but the new one
  have isFalse : (p.exclusion m).holds m.valuation = false :=
    (Assignment.consistent_of_ascending ascending).holds_eq_false fun l hl => (mem_exclusion.1 hl).1
  refine ⟨h.toLearned.append_exclusion ascending unrealisable fun d hd sub => ?_,
    List.forall_mem_append.2 ⟨h.inOrder, List.forall_mem_singleton.2 (map_var_exclusion vars)⟩,
    fun before c after e => ?_⟩
  · -- an earlier clause holds by a literal that would make the new one hold
    have hd := Formula.holds_iff.1 holds d (List.mem_append_right _ hd)
    obtain ⟨l, hl, hlρ⟩ := Clause.holds_iff.1 hd
    rw [Clause.holds_iff.2 ⟨l, sub hl, hlρ⟩] at isFalse
    cases isFalse
  · -- the new clause is the last one, so any other has the clauses before it that it had
    rcases append_cons_cases e with ⟨rfl, rfl, -⟩ | ⟨gap, hnil, -⟩ | ⟨gap, -, rfl⟩
    · exact ⟨m.valuation, holds, isFalse⟩
    · cases gap <;> cases hnil
    · exact h.new before c gap rfl

/-- No variable comes in with the learned clauses, as the numbers of the atoms are variables of the
problem. -/
theorem maxVar_le (h : p.Enumerated cs) : (p.formula ++ cs).maxVar ≤ p.numVars := by
  refine Formula.maxVar_le fun c hc l hl => ?_
  rcases List.mem_append.1 hc with hc | hc
  · exact Nat.le_trans (Formula.var_le_maxVar hc hl) p.maxVar_le_numVars
  · obtain ⟨a, ha, hid⟩ := (h.overAtoms c hc).atoms l hl
    exact hid ▸ id_le_numVars ha

/-- What is kept of the learned clauses is what is reported of them. A clause is none of those
before, for these hold where it is false; so the clauses are distinct, and there are few of them. -/
theorem enumerates (h : p.Enumerated cs) {out : Outcome} (clauses : out.clauses = p.formula ++ cs)
    (lemmas : out.lemmas = cs.length) : p.Enumerates out := by
  obtain rfl := Outcome.learned_eq clauses lemmas
  exact {
    clauses := clauses
    lemmas := lemmas.symm
    inOrder := h.inOrder
    distinct := h.irredundant.imp <| by
      rintro d c irredundant rfl
      exact irredundant (List.Subset.refl d)
    new := h.new
    bounded := lemmas ▸ h.length_le_of_full h.inOrder }

end Enumerated

end Problem

/-! ### Refinement -/

/-- With the built-in engine, rounds exclude complete assignments that satisfy all clauses. Each of
the engine's searches starts anew, and is right about the clauses that it is given. -/
theorem Refinement.enumerated_of_rounds {o : Options} {limit : Option Nat} {ms : List Assignment}
    {e : Unit} (rounds : Rounds p limit (engine o) () ms e) :
    p.Enumerated (ms.map p.exclusion) := by
  induction rounds with
  | none => exact .nil
  | @snoc ms m _ _ _ found rejected _ ih =>
      have found : Search.solve o (p.excluding ms) p.numVars = .ok (.sat m) :=
        congrArg Prod.fst found
      have cases_ := Search.solve_cases o (p.excluding ms) p.numVars
      rw [Nat.max_eq_left (show (p.excluding ms).maxVar ≤ p.numVars from ih.maxVar_le), found]
        at cases_
      rcases cases_ with ⟨m', h, solves, vars⟩ | ⟨h, -⟩ | ⟨h, -⟩
      · cases h
        rw [List.map_append]
        -- the search lists all variables and makes all clauses true, those learned before among
        -- them
        exact ih.append_exclusion vars solves.holds
          (EqualityTheory.verdict_check_eq_inconsistent.1 rejected)
      · cases h
      · cases h

/-- The outcome of a last round reports the clauses that exclude the assignments found before. This
goes for all ways to end but an error. -/
theorem Refinement.Last.reported {limit : Option Nat} {ms : List Assignment}
    {a : Except TheoryError Answer} {out : Outcome} (last : Last p limit ms a (.ok out)) :
    out.clauses = p.excluding ms ∧ out.lemmas = ms.length := by
  cases last <;> exact ⟨rfl, rfl⟩

/-- Lazy refinement reports clauses that exclude complete assignments. It has an outcome, since the
theory of equality explains what it rejects. -/
theorem Problem.refine_enumerates (p : Problem) (s : Settings) :
    ∃ out, p.refine s = .ok out ∧ p.Enumerates out := by
  obtain ⟨out, hout, -⟩ := p.refine_correct s
  obtain ⟨ms, e, rounds, last, -⟩ := ends_iff.1 (p.ends_refine s)
  rw [show (p.refine s, ()).1 = .ok out from hout] at last
  obtain ⟨clauses, lemmas⟩ := last.reported
  refine ⟨out, hout, (enumerated_of_rounds rounds).enumerates clauses ?_⟩
  rw [lemmas, List.length_map]

/-! ### Supervised search -/

variable {o : Options} {s s' : State (EqualityTheory p.names.length)}

/-- What a search of a problem keeps if the theory sees complete assignments only: the learned
clauses exclude such assignments, and there was one check for each. -/
structure Enumerating (p : Problem) (s : State (EqualityTheory p.names.length)) : Prop where
  sound : s.Sound p.formula p.numVars
  supervised : Supervised p .complete s
  enumerated : ∃ cs, s.clauses = p.formula ++ cs ∧ p.Enumerated cs ∧ s.theory.checks = cs.length

/-- A supervised search starts with nothing learned and nothing checked. -/
theorem enumerating_start (p : Problem) (o : Options) :
    Enumerating p (.start o p.formula p.numVars p.theory) where
  sound := by
    have h := sound_start o p.formula p.numVars p.theory
    rwa [Nat.max_eq_left p.maxVar_le_numVars] at h
  supervised := supervised_start p o .complete
  enumerated := ⟨[], (List.append_nil _).symm, .nil, rfl⟩

/-- With nothing left to do, the trail is a complete assignment that satisfies all clauses. The
theory is consulted in no other state, so each rejected assignment is of this kind. -/
theorem Enumerating.complete (h : Enumerating p s) (finished : s.Finished .complete) :
    s.trail.assignment.map Literal.var = List.range' 1 p.numVars ∧
    s.clauses.holds s.trail.assignment.valuation = true := by
  have solves := finished.solves h.sound p.maxVar_le_numVars
  exact ⟨solves.map_var_eq_range' fun _ => h.supervised.bounded.var_le, solves.holds⟩

/-- A move keeps what is known of the learned clauses. The only move that has to do with the theory
is the one that learns, since complete assignments alone are checked. -/
theorem Enumerating.move (h : Enumerating p s) (m : Move o .complete s s') : Enumerating p s' where
  sound := m.sound h.sound
  supervised := h.supervised.move m
  enumerated := by
    cases m with
    | approve _ due => exact nomatch due.1
    | @learn c th th' _ asked judged explained =>
        obtain ⟨unrealisable, rfl, -, hchecks⟩ := EqualityTheory.of_explained judged explained
        rw [h.supervised.atoms] at unrealisable ⊢
        rw [AtomTable.explanation_eq]
        -- the theory is consulted because nothing is left to do
        obtain ⟨vars, holds⟩ := h.complete (asked.resolve_left fun due => nomatch due.1).2
        obtain ⟨cs, hclauses, enumerated, checks⟩ := h.enumerated
        rw [hclauses] at holds
        refine ⟨cs ++ [p.exclusion s.trail.assignment], ?_,
          enumerated.append_exclusion vars holds unrealisable, ?_⟩
        · rw [hclauses, List.append_assoc]
          rfl
        · rw [List.length_append, ← checks]
          exact hchecks
    | _ => exact h.enumerated

/-- The assignment with which such a search ends has been checked too. Without an assignment, the
check before the last clause was the last. -/
theorem Search.Halt.checks_eq {r : Result (EqualityTheory p.names.length)} {a : Answer}
    (halt : Halt o .complete s r) (answer : r.answer = .ok a) :
    ((∃ m, a = .sat m) → r.theory.checks = s.theory.checks + 1) ∧
    ((¬ ∃ m, a = .sat m) → r.theory.checks = s.theory.checks) := by
  cases halt with
  | unsat =>
      cases answer
      exact ⟨by rintro ⟨_, ⟨⟩⟩, fun _ => rfl⟩
  | unknown =>
      cases answer
      exact ⟨by rintro ⟨_, ⟨⟩⟩, fun _ => rfl⟩
  -- only this end has asked the theory
  | accept _ _ judged =>
      cases answer
      obtain ⟨-, rfl⟩ := EqualityTheory.of_check_eq judged
      exact ⟨fun _ => rfl, fun h => absurd ⟨_, rfl⟩ h⟩
  | approved mode => cases mode
  | unexplained => cases answer

/-- Supervised search of complete assignments reports clauses that exclude these, and one check for
each, with one more if an assignment is accepted in the end. -/
theorem Problem.supervise_enumerates (p : Problem) (s : Settings) :
    ∃ out, p.supervise s .complete = .ok out ∧ p.Enumerates out ∧
      ((∃ m, out.answer = .sat m) → out.theoryChecks = out.lemmas + 1) ∧
      ((¬ ∃ m, out.answer = .sat m) → out.theoryChecks = out.lemmas) := by
  obtain ⟨out, hout, -⟩ := p.supervise_correct s .complete
  obtain ⟨answer, hclauses, hlemmas, hchecks⟩ := of_supervise_eq hout
  obtain ⟨last, h, halt⟩ := exists_halt_of_ends (P := Enumerating p) (fun _ _ m h => h.move m)
    (enumerating_start p s.toOptions)
    (ends_solveWith s.toOptions p.formula p.numVars p.theory .complete)
  obtain ⟨cs, split, enumerated, checks⟩ := h.enumerated
  rw [halt.clauses_eq, split] at hclauses hlemmas
  rw [List.length_append, Nat.add_sub_cancel_left] at hlemmas
  refine ⟨out, hout, enumerated.enumerates hclauses hlemmas, ?_⟩
  rw [hchecks, hlemmas, ← checks]
  exact halt.checks_eq answer

/-- What is learned from complete assignments, by either strategy that learns from them. The clauses
name all atoms in their order and are new, so no more than `2 ^ n - 1` are ever learned. -/
theorem Problem.learned_from_complete (p : Problem) (s : Settings) :
    (∃ out, p.solveBy s .lazy = .ok out ∧ p.Enumerates out) ∧
    ∃ out, p.solveBy s .callback = .ok out ∧ p.Enumerates out ∧
      ((∃ m, out.answer = .sat m) → out.theoryChecks = out.lemmas + 1) ∧
      ((¬ ∃ m, out.answer = .sat m) → out.theoryChecks = out.lemmas) :=
  ⟨p.refine_enumerates s, p.supervise_enumerates s⟩

end EqualityLogic
