import EqualityLogic.Proofs.Integration.Learned
import EqualityLogic.Proofs.Integration.Supervision
import EqualityLogic.Proofs.Search.Simulation

/-!
# Learning from partial assignments

A search that consults the theory about partial assignments learns from whatever is on its trail, so
a clause may well be part of an earlier one. The other way round is impossible, and so is a clause
that contains one of those given. For the search asks the theory only when no clause that it works
on is false, and the clause that it then learns is false: all clauses within it would be too
(`not_subset_exclusion`).

By the same argument a rejected assignment does not come before the theory again, nor does any
assignment with the same equations and disequations and more, as the clause that excludes the first
would be false under the second (`exists_not_mem`). This is about the questions that the theory was
asked, so it is stated for a search that records them; the record does not change the search.

`Subsuming` says both of a state, and each move keeps it: a move that consults the theory finds no
clause false (`Subsuming.learn`, `Subsuming.approve`), and the others learn and ask nothing.
-/

set_option autoImplicit false

namespace EqualityLogic

open Search

variable {p : Problem} {kept : Formula} {o : Options}

namespace Problem

variable {τ : Type} {s : State τ}

/-- While no clause is false, no clause is within the one that would exclude the trail: that one is
false, and so are all clauses within it. -/
theorem not_subset_exclusion (wf : s.trail.WellFormed)
    (noConflict : s.working.value s.trail ≠ some false) {d : Clause} (hd : d ∈ s.working) :
    ¬ d ⊆ p.exclusion s.trail.assignment := fun sub =>
  noConflict <| Formula.value_eq_some_false.2 ⟨d, hd, Clause.value_eq_some_false.2 fun _ hl =>
    wf.value_eq_some_false.2 (Trail.mem_assignment.1 (mem_exclusion.1 (sub hl)).1)⟩

/-- While no clause is false, the trail leaves out an equation or disequation of each assignment
that has been excluded. Otherwise the clause that excludes it would be false. -/
theorem exists_not_mem (wf : s.trail.WellFormed)
    (noConflict : s.working.value s.trail ≠ some false) {m : Assignment}
    (excluded : p.exclusion m ∈ s.working) :
    ∃ l ∈ m, (p.atoms.atomOf? l).isSome = true ∧ l ∉ s.trail.assignment := by
  by_contra all
  refine not_subset_exclusion (p := p) wf noConflict excluded fun l hl => ?_
  obtain ⟨hm, atom⟩ := mem_exclusion.1 hl
  refine mem_exclusion.2 ⟨?_, atom⟩
  by_contra out
  exact all ⟨l.negate, hm, by rwa [atomOf?_negate], out⟩

/-- A later call does not put an assignment before the theory that contains all equations and
disequations of one that was rejected by an earlier call. -/
def Fresh (p : Problem) (later earlier : OracleCall) : Prop :=
  ∀ m m' v, earlier = .check m .inconsistent → later = .check m' v →
    ∃ l ∈ m, (p.atoms.atomOf? l).isSome = true ∧ l ∉ m'

/-- A request for a clause puts no assignment before the theory, so there is nothing to compare. -/
theorem fresh_learn (p : Problem) (answer : Except TheoryError Clause) (earlier : OracleCall) :
    p.Fresh (.learn answer) earlier := by
  intro m m' v _ h
  cases h

end Problem

variable {s s' : State (Recorded (EqualityTheory p.names.length))}

/-- What a search keeps if the theory sees partial assignments and its calls are recorded. The
clauses that it works on are the given ones that were kept and the learned ones. -/
structure Subsuming (p : Problem) (kept : Formula)
    (s : State (Recorded (EqualityTheory p.names.length))) : Prop where
  wellFormed : s.trail.WellFormed
  atoms : s.theory.theory.atoms = p.atoms
  learned : ∃ cs, s.clauses = p.formula ++ cs ∧ s.working = kept ++ cs ∧ p.Learned cs ∧
    ∀ d ∈ kept, ∀ c ∈ cs, ¬ d ⊆ c
  excluded : ∀ m, .check m .inconsistent ∈ s.theory.latest → p.exclusion m ∈ s.working
  fresh : s.theory.latest.Pairwise p.Fresh

namespace Subsuming

/-- What the theory is asked while no clause is false is new, and no larger than anything rejected
before. -/
theorem fresh_check (h : Subsuming p kept s) (noConflict : s.working.value s.trail ≠ some false)
    (v : Verdict) :
    (OracleCall.check s.trail.assignment v :: s.theory.latest).Pairwise p.Fresh := by
  refine List.pairwise_cons.2 ⟨?_, h.fresh⟩
  rintro _ hcall m m' v rfl ⟨⟩
  exact Problem.exists_not_mem h.wellFormed noConflict (h.excluded m hcall)

/-- A rejection is explained by a clause that is new, and the assignment is excluded by it. The
clause joins both formulas, so it keeps the same assignment away from now on. -/
theorem learn (h : Subsuming p kept s) {c : Clause}
    {th th' : Recorded (EqualityTheory p.names.length)}
    (noConflict : s.working.value s.trail ≠ some false)
    (judged : Theory.check s.theory s.trail.assignment = (.inconsistent, th))
    (explained : Theory.learn th = (.ok c, th')) :
    Subsuming p kept { s with
      working := s.working ++ [c], clauses := s.clauses ++ [c], theory := th',
      changed := false } := by
  obtain ⟨judged, recorded⟩ := Recorded.of_check_eq judged
  obtain ⟨explained, recorded'⟩ := Recorded.of_learn_eq explained
  obtain ⟨unrealisable, rfl, hatoms, -⟩ := EqualityTheory.of_explained judged explained
  rw [h.atoms] at unrealisable ⊢
  rw [AtomTable.explanation_eq]
  obtain ⟨cs, hclauses, hworking, learned, apart⟩ := h.learned
  -- all clauses that the search works on are apart from the new one, whether given or learned
  have new : ∀ d ∈ kept ++ cs, ¬ d ⊆ p.exclusion s.trail.assignment := fun d hd =>
    Problem.not_subset_exclusion h.wellFormed noConflict (hworking ▸ hd)
  refine ⟨h.wellFormed, hatoms.trans h.atoms,
    ⟨cs ++ [p.exclusion s.trail.assignment], ?_, ?_, ?_, fun d hd => ?_⟩, fun m hm => ?_, ?_⟩
  · rw [hclauses, List.append_assoc]
    rfl
  · rw [hworking, List.append_assoc]
    rfl
  · exact learned.append_exclusion h.wellFormed.ascending_assignment unrealisable fun d hd =>
      new d (List.mem_append_right _ hd)
  · exact List.forall_mem_append.2
      ⟨apart d hd, List.forall_mem_singleton.2 (new d (List.mem_append_left _ hd))⟩
  · -- the rejection just recorded, or one from before
    rw [recorded', recorded] at hm
    rcases List.mem_cons.1 hm with hm | hm
    · cases hm
    · rcases List.mem_cons.1 hm with hm | hm
      · cases hm
        exact List.mem_append_right _ List.mem_cons_self
      · exact List.mem_append_left _ (h.excluded m hm)
  · rw [recorded', recorded]
    exact List.pairwise_cons.2 ⟨fun call _ => p.fresh_learn _ call, h.fresh_check noConflict _⟩

/-- An assignment that is not rejected leaves a record, and nothing else. The new entry has to be
compared with all rejections before it. -/
theorem approve (h : Subsuming p kept s) {v : Verdict}
    {th : Recorded (EqualityTheory p.names.length)}
    (noConflict : s.working.value s.trail ≠ some false)
    (judged : Theory.check s.theory s.trail.assignment = (v, th)) (fine : v ≠ .inconsistent) :
    Subsuming p kept { s with theory := th, changed := false } := by
  obtain ⟨judged, recorded⟩ := Recorded.of_check_eq judged
  obtain ⟨-, hth⟩ := EqualityTheory.of_check_eq judged
  refine ⟨h.wellFormed, ?_, h.learned, fun m hm => ?_, ?_⟩
  · rw [← hth]
    exact h.atoms
  · rw [recorded] at hm
    rcases List.mem_cons.1 hm with hm | hm
    · cases hm
      -- the call that is new was no rejection
      exact absurd rfl fine
    · exact h.excluded m hm
  · rw [recorded]
    exact h.fresh_check noConflict v

/-- A move keeps the invariant. All but two kinds of moves leave clauses and calls as they are. -/
theorem move (h : Subsuming p kept s) {oversight : Oversight} (m : Move o oversight s s') :
    Subsuming p kept s' := by
  have wellFormed := m.wellFormed h.wellFormed
  cases m with
  | approve noConflict _ judged fine => exact h.approve noConflict judged fine
  | learn noConflict _ judged explained => exact h.learn noConflict judged explained
  | _ => exact ⟨wellFormed, h.atoms, h.learned, h.excluded, h.fresh⟩

/-- An end that is no failure asks the theory nothing, as it has seen the trail. -/
theorem theory_of_halt {r : Result (Recorded (EqualityTheory p.names.length))} {a : Answer}
    (halt : Halt o .partialAssignments s r) (answer : r.answer = .ok a) : r.theory = s.theory := by
  cases halt with
  | accept mode => cases mode
  | unexplained => cases answer
  | _ => rfl

end Subsuming

/-- A search starts with an empty record and nothing learned. The clauses that pruning has kept are
those that it works on. -/
theorem subsuming_start (p : Problem) (o : Options) :
    Subsuming p (State.start o p.formula p.numVars p.theory).working
      (.start o p.formula p.numVars (Recorded.mk p.theory [])) where
  wellFormed := Trail.wellFormed_empty _
  atoms := rfl
  learned := ⟨[], (List.append_nil _).symm, (List.append_nil _).symm, .nil, nofun⟩
  excluded := nofun
  fresh := .nil

/-- What a search learns from partial assignments, and what it asks the theory. Each learned clause
names atoms, none of them twice, and contains no clause that was learned before or given and kept.
No assignment is checked that contains the equations and disequations of one that was rejected
before. So no more than `3 ^ n - 2 ^ n` clauses are learned from `n` atoms.

The search is one that records its calls, and its answer, clauses and number of checks are those of
the search that does not. -/
theorem Problem.learned_from_partial (p : Problem) (s : Settings) :
    let kept := (State.start s.toOptions p.formula p.numVars p.theory).working
    let r := solveWith s.toOptions p.formula p.numVars (Recorded.mk p.theory []) .partialAssignments
    ∃ out, p.solveBy s .propagation = .ok out ∧
      r.answer = .ok out.answer ∧ r.clauses = out.clauses ∧
      r.theory.theory.checks = out.theoryChecks ∧
      out.clauses = p.formula ++ out.learned ∧ out.learned.length = out.lemmas ∧
      (∀ c ∈ out.learned, p.OverAtoms c) ∧
      (∀ before c after, out.learned = before ++ c :: after →
        ∀ d, d ∈ before ∨ d ∈ kept → ¬ d ⊆ c) ∧
      (∀ before m' v after, r.theory.calls = before ++ .check m' v :: after →
        ∀ m, .check m .inconsistent ∈ before →
          ∃ l ∈ m, (p.atoms.atomOf? l).isSome = true ∧ l ∉ m') ∧
      out.lemmas ≤ 3 ^ p.atoms.atoms.length - 2 ^ p.atoms.atoms.length := by
  intro kept r
  obtain ⟨out, hout, -⟩ := p.supervise_correct s .partialAssignments
  obtain ⟨answer, hclauses, hlemmas, hchecks⟩ := of_supervise_eq hout
  rw [solveWith_recorded] at answer hclauses hlemmas hchecks
  have answer : r.answer = .ok out.answer := answer
  have hclauses : out.clauses = r.clauses := hclauses
  have hlemmas : out.lemmas = r.clauses.length - p.formula.length := hlemmas
  obtain ⟨last, h, halt⟩ := exists_halt_of_ends (P := Subsuming p kept) (fun _ _ m h => h.move m)
    (subsuming_start p s.toOptions)
    (ends_solveWith s.toOptions p.formula p.numVars (Recorded.mk p.theory []) .partialAssignments)
  obtain ⟨cs, split, -, learned, apart⟩ := h.learned
  have hsplit : r.clauses = p.formula ++ cs := halt.clauses_eq.trans split
  rw [hsplit, List.length_append, Nat.add_sub_cancel_left] at hlemmas
  rw [hsplit] at hclauses
  have hlearned := Outcome.learned_eq hclauses hlemmas
  -- the record has the latest call first, and the statement the earliest
  have fresh : r.theory.calls.Pairwise fun earlier later => p.Fresh later earlier := by
    unfold Recorded.calls
    rw [Subsuming.theory_of_halt halt answer, List.pairwise_reverse]
    exact h.fresh
  refine ⟨out, hout, answer, hsplit.trans hclauses.symm, hchecks.symm, ?_, ?_, ?_, ?_, ?_, ?_⟩
  · rw [hlearned]
    exact hclauses
  · rw [hlearned]
    exact hlemmas.symm
  · rw [hlearned]
    exact learned.overAtoms
  · rw [hlearned]
    rintro before c after rfl d (hd | hd)
    · exact (List.pairwise_append.1 learned.irredundant).2.2 d hd c List.mem_cons_self
    · exact apart d hd c (List.mem_append_right _ List.mem_cons_self)
  · intro before m' v after e m hm
    rw [e] at fresh
    exact (List.pairwise_append.1 fresh).2.2 _ hm _ List.mem_cons_self m m' v rfl rfl
  · rw [hlemmas]
    exact learned.length_le

end EqualityLogic
