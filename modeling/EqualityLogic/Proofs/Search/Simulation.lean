import EqualityLogic.Search.Solve
import EqualityLogic.Theory.Recorded

/-!
# Searches with theories that answer alike

All that a search sees of its theory is which assignments it rejects and how it explains this. So
with two theories that answer alike, related by some relation of their states, searches take the
same steps, and the relation is kept (`step_alike`). A search with one theory then ends with the
answer and the clauses of a search with the other (`exists_ends_of_alike`).

The first use is the record of calls: a theory answers like itself with a record, so whatever is
said of the record of a search is said of the search without one. This goes for every theory
(`ends_recorded_iff`), and for a lawful one, with which all searches end, it goes for their results
(`solveWith_recorded`).
-/

set_option autoImplicit false

namespace EqualityLogic

variable {τ τ' : Type} [Theory τ] [Theory τ']

/-- Theories in related states reject the same assignments and explain this by the same clauses, and
their states stay related. -/
structure Theory.Alike (R : τ → τ' → Prop) : Prop where
  rejects : ∀ {t t'}, R t t' → ∀ m,
    ((check t m).1 = .inconsistent ↔ (check t' m).1 = .inconsistent)
  accepted : ∀ {t t'}, R t t' → ∀ m, (check t m).1 ≠ .inconsistent →
    R (check t m).2 (check t' m).2
  explained : ∀ {t t'}, R t t' → ∀ m, (check t m).1 = .inconsistent →
    (learn (check t m).2).1 = (learn (check t' m).2).1 ∧
    R (learn (check t m).2).2 (learn (check t' m).2).2

namespace Search

/-- The same search with another theory. -/
def State.withTheory {τ τ' : Type} (s : State τ) (t : τ') : State τ' where
  trail := s.trail
  working := s.working
  clauses := s.clauses
  theory := t
  decisions := s.decisions
  changed := s.changed

/-- Two steps that lead to the same, up to related theories. -/
inductive StepAlike {τ τ' : Type} (R : τ → τ' → Prop) :
    Step (State τ) (Result τ) → Step (State τ') (Result τ') → Prop
  | next {s : State τ} {t : τ'} (related : R s.theory t) :
      StepAlike R (.next s) (.next (s.withTheory t))
  | done {r : Result τ} {t : τ'} (related : R r.theory t) :
      StepAlike R (.done r) (.done ⟨r.answer, r.clauses, t⟩)

variable {R : τ → τ' → Prop} {s : State τ} {t : τ'} {o : Options} {oversight : Oversight}

/-- A rejected assignment is to be explained, whatever the search would have done next. -/
theorem consult_of_rejected {accepted : State τ → Step (State τ) (Result τ)}
    (h : (Theory.check s.theory s.trail.assignment).1 = .inconsistent) :
    s.consult accepted = State.learn
      { s with theory := (Theory.check s.theory s.trail.assignment).2, changed := false } := by
  unfold State.consult
  generalize Theory.check s.theory s.trail.assignment = judged at h ⊢
  obtain ⟨v, th⟩ := judged
  cases h
  rfl

/-- With any other assignment the search goes on, in the state that the theory has left. -/
theorem consult_of_accepted {accepted : State τ → Step (State τ) (Result τ)}
    (h : (Theory.check s.theory s.trail.assignment).1 ≠ .inconsistent) :
    s.consult accepted = accepted
      { s with theory := (Theory.check s.theory s.trail.assignment).2, changed := false } := by
  unfold State.consult
  generalize Theory.check s.theory s.trail.assignment = judged at h ⊢
  obtain ⟨v, th⟩ := judged
  cases v with
  | inconsistent => exact absurd rfl h
  | unknown => rfl
  | consistent => rfl

/-- Theories with one explanation to give are followed alike. If there is none, both searches fail
with the same error. -/
theorem learn_alike (same : (Theory.learn s.theory).1 = (Theory.learn t).1)
    (related : R (Theory.learn s.theory).2 (Theory.learn t).2) :
    StepAlike R s.learn (s.withTheory t).learn := by
  unfold State.learn
  rw [show (s.withTheory t).theory = t from rfl]
  generalize Theory.learn s.theory = explained at same related ⊢
  generalize Theory.learn t = explained' at same related ⊢
  obtain ⟨answer, th⟩ := explained
  obtain ⟨answer', th'⟩ := explained'
  obtain rfl : answer = answer' := same
  cases answer with
  | ok c => exact .next (s := { s with
      working := s.working ++ [c], clauses := s.clauses ++ [c], theory := th }) related
  | error e => exact .done (r := ⟨.error e, s.clauses, th⟩) related

/-- Theories that are consulted reject alike, or the searches go on alike. Verdicts that are no
rejection need not be the same, since a search does not tell them apart. -/
theorem consult_alike (alike : Theory.Alike R) (related : R s.theory t)
    {accepted : State τ → Step (State τ) (Result τ)}
    {accepted' : State τ' → Step (State τ') (Result τ')}
    (goesOn : ∀ (s : State τ) (t : τ'), R s.theory t →
      StepAlike R (accepted s) (accepted' (s.withTheory t))) :
    StepAlike R (s.consult accepted) ((s.withTheory t).consult accepted') := by
  by_cases h : (Theory.check s.theory s.trail.assignment).1 = .inconsistent
  · obtain ⟨same, kept⟩ := alike.explained related _ h
    rw [consult_of_rejected h, consult_of_rejected (s := s.withTheory t)
      ((alike.rejects related _).1 h)]
    exact learn_alike (s := { s with
      theory := (Theory.check s.theory s.trail.assignment).2, changed := false }) same kept
  · rw [consult_of_accepted h, consult_of_accepted (s := s.withTheory t)
      (mt (alike.rejects related _).2 h)]
    exact goesOn _ _ (alike.accepted related _ h)

/-- A trail is extended alike, as the theory has a say in that only when the assignment is complete.
-/
theorem extend_alike (alike : Theory.Alike R) (related : R s.theory t) :
    StepAlike R (s.extend o oversight) ((s.withTheory t).extend o oversight) := by
  unfold State.extend
  rw [show (s.withTheory t).working = s.working from rfl,
    show (s.withTheory t).trail = s.trail from rfl]
  split
  · next l _ => exact .next (s := s.assume l .propagation) related
  · split
    · next l _ =>
      unfold State.decide
      rw [show (s.withTheory t).decisions = s.decisions from rfl]
      split
      · exact .done (r := ⟨.ok .unknown, s.clauses, s.theory⟩) related
      · exact .next (s := { s.assume (l.atom.withPolarity o.phase) .decision with
          decisions := s.decisions + 1 }) related
    · split
      · next l _ => exact .next (s := s.assume (l.withPolarity o.phase) .decision) related
      · cases oversight with
        -- the one place where a trail that is extended comes before the theory
        | complete =>
            show StepAlike R (s.consult fun s => s.finish (.sat s.trail.assignment))
              ((s.withTheory t).consult fun s => s.finish (.sat s.trail.assignment))
            exact consult_alike alike related fun s t related =>
              .done (r := ⟨.ok (.sat s.trail.assignment), s.clauses, s.theory⟩) related
        | partialAssignments =>
            exact .done (r := ⟨.ok (.sat s.trail.assignment), s.clauses, s.theory⟩) related

/-- Searches with theories that answer alike take the same step. The relation `R` holds of the
theories afterwards, so the next step is the same too. -/
theorem step_alike (alike : Theory.Alike R) (related : R s.theory t) :
    StepAlike R (step o oversight s) (step o oversight (s.withTheory t)) := by
  unfold step
  -- what decides which step is taken does not depend on the theory
  rw [show (s.withTheory t).working.value (s.withTheory t).trail = s.working.value s.trail from rfl,
    show (s.withTheory t).changed = s.changed from rfl]
  split
  · unfold State.backtrack
    rw [show (s.withTheory t).trail = s.trail from rfl]
    split
    · next trail _ => exact .next (s := { s with trail, changed := true }) related
    · exact .done (r := ⟨.ok .unsat, s.clauses, s.theory⟩) related
  · split
    · exact consult_alike alike related fun s t related => .next related
    · exact extend_alike alike related

/-- A search with a theory that answers like another one ends like a search with that one. It is
stated for a search from any state, which is what the induction on the run needs. -/
theorem exists_ends_of_alike (alike : Theory.Alike R) (related : R s.theory t) {r : Result τ}
    (ends : Process.Ends (step o oversight) s r) :
    ∃ th, R r.theory th ∧
      Process.Ends (step o oversight) (s.withTheory t) ⟨r.answer, r.clauses, th⟩ := by
  induction ends generalizing t with
  | @done s r e =>
      have h : StepAlike R (step o oversight s) (step o oversight (s.withTheory t)) :=
        step_alike alike related
      rw [e] at h
      generalize e' : step o oversight (s.withTheory t) = next at h
      cases h with
      | done kept => exact ⟨_, kept, .done e'⟩
  | @next s s' r e _ ih =>
      have h : StepAlike R (step o oversight s) (step o oversight (s.withTheory t)) :=
        step_alike alike related
      rw [e] at h
      generalize e' : step o oversight (s.withTheory t) = next at h
      cases h with
      | next kept =>
          -- the theories have moved on together, so the induction goes on from there
          obtain ⟨th, last, ends⟩ := ih kept
          exact ⟨th, last, .next e' ends⟩

/-- A theory with a record answers like the theory itself. The relation forgets the record. -/
theorem alike_recorded : Theory.Alike fun (t : Recorded τ) (t' : τ) => t.theory = t' where
  rejects := by
    rintro t _ rfl m
    exact Iff.rfl
  accepted := by
    rintro t _ rfl m -
    rfl
  explained := by
    rintro t _ rfl m -
    exact ⟨rfl, rfl⟩

/-- A theory answers like itself with a record. The two directions are stated apart, because ends
are carried over in one direction at a time. -/
theorem recorded_alike : Theory.Alike fun (t : τ) (t' : Recorded τ) => t'.theory = t where
  rejects := by
    rintro _ t rfl m
    exact Iff.rfl
  accepted := by
    rintro _ t rfl m -
    rfl
  explained := by
    rintro _ t rfl m -
    exact ⟨rfl, rfl⟩

/-- A search that is recorded ends just as it does without a record, with any theory. The theory
need not be lawful, so a search may have no end at all; then neither has the other. -/
theorem ends_recorded_iff {latest : List OracleCall} {r : Result τ} :
    Process.Ends (step o oversight) s r ↔
      ∃ th : Recorded τ, th.theory = r.theory ∧
        Process.Ends (step o oversight) (s.withTheory (Recorded.mk s.theory latest))
          ⟨r.answer, r.clauses, th⟩ := by
  constructor
  · exact exists_ends_of_alike recorded_alike rfl
  · rintro ⟨th, hth, ends⟩
    obtain ⟨_, rfl, ends⟩ := exists_ends_of_alike (t := s.theory) alike_recorded rfl ends
    have hr : r = ⟨r.answer, r.clauses, th.theory⟩ := by rw [hth]
    rw [hr]
    exact ends

/-- A record of the calls to the theory does not change a search: answer, clauses and theory are the
same. -/
theorem solveWith_recorded [LawfulTheory τ] (o : Options) (f : Formula) (n : Nat) (t : τ)
    (oversight : Oversight) :
    let r := solveWith o f n (Recorded.mk t []) oversight
    solveWith o f n t oversight = ⟨r.answer, r.clauses, r.theory.theory⟩ := by
  intro r
  obtain ⟨th, rfl, ends⟩ := exists_ends_of_alike (t := t) alike_recorded rfl
    (ends_solveWith o f n (Recorded.mk t []) oversight)
  exact (ends_solveWith o f n t oversight).unique ends

end Search

end EqualityLogic
