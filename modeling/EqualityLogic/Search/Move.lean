import EqualityLogic.Search.Basic

/-!
# Moves of a search

The step function of a search, read as two relations: `Move` says which states may come next and
why, and `Halt` says which results may end a search and why. Every step is one of them
(`move_of_step`, `halt_of_step`), so what all moves keep holds throughout a search.
-/

set_option autoImplicit false

namespace EqualityLogic.Search

variable {τ : Type}

/-- The trail is one that the theory is to see before the search goes on. -/
def State.Due (s : State τ) (oversight : Oversight) : Prop :=
  oversight = .partialAssignments ∧ s.changed = true

/-- No clause is false and nothing is left to be assigned. -/
structure State.Finished (s : State τ) (oversight : Oversight) : Prop where
  /-- No clause is false. -/
  noConflict : s.working.value s.trail ≠ some false
  /-- The theory has seen the trail, if it sees partial assignments. -/
  notDue : ¬ s.Due oversight
  /-- No clause forces a literal. -/
  noUnit : s.working.unit? s.trail = none
  /-- No clause is open. -/
  noFree : s.working.free? s.trail = none
  /-- Every variable has a value. -/
  noneLeft : s.trail.firstFree? = none

variable [Theory τ]

/-- What may come after a state. -/
inductive Move (o : Options) (oversight : Oversight) (s : State τ) : State τ → Prop
  /-- The latest decision is reversed because a clause is false. -/
  | backtrack {t : Trail} (conflict : s.working.value s.trail = some false)
      (back : s.trail.backtrack? = some t) :
      Move o oversight s { s with trail := t, changed := true }
  /-- The theory has no objection to a partial assignment. -/
  | approve {v : Verdict} {th : τ} (noConflict : s.working.value s.trail ≠ some false)
      (due : s.Due oversight) (judged : Theory.check s.theory s.trail.assignment = (v, th))
      (fine : v ≠ .inconsistent) :
      Move o oversight s { s with theory := th, changed := false }
  /-- The theory rejects an assignment and explains why. -/
  | learn {c : Clause} {th th' : τ} (noConflict : s.working.value s.trail ≠ some false)
      (asked : s.Due oversight ∨ oversight = .complete ∧ s.Finished oversight)
      (judged : Theory.check s.theory s.trail.assignment = (.inconsistent, th))
      (explained : Theory.learn th = (.ok c, th')) :
      Move o oversight s
        { s with
          working := s.working ++ [c], clauses := s.clauses ++ [c], theory := th',
          changed := false }
  /-- A clause forces a literal. -/
  | propagate {l : Literal} (noConflict : s.working.value s.trail ≠ some false)
      (notDue : ¬ s.Due oversight) (forced : s.working.unit? s.trail = some l) :
      Move o oversight s (s.assume l .propagation)
  /-- A literal of an open clause is decided within the budget. -/
  | decide {l : Literal} (noConflict : s.working.value s.trail ≠ some false)
      (notDue : ¬ s.Due oversight) (noUnit : s.working.unit? s.trail = none)
      (free : s.working.free? s.trail = some l)
      (within : o.decisionLimit.any (· ≤ s.decisions) = false) :
      Move o oversight s
        { s.assume (l.atom.withPolarity o.phase) .decision with decisions := s.decisions + 1 }
  /-- A variable is decided that no open clause needs. -/
  | complete {l : Literal} (noConflict : s.working.value s.trail ≠ some false)
      (notDue : ¬ s.Due oversight) (noUnit : s.working.unit? s.trail = none)
      (noFree : s.working.free? s.trail = none) (left : s.trail.firstFree? = some l) :
      Move o oversight s (s.assume (l.withPolarity o.phase) .decision)

/-- What may end a search. -/
inductive Halt (o : Options) (oversight : Oversight) (s : State τ) : Result τ → Prop
  /-- A clause is false and there is no decision to reverse. -/
  | unsat (conflict : s.working.value s.trail = some false) (back : s.trail.backtrack? = none) :
      Halt o oversight s ⟨.ok .unsat, s.clauses, s.theory⟩
  /-- The budget of decisions is used up. -/
  | unknown {l : Literal} (noConflict : s.working.value s.trail ≠ some false)
      (notDue : ¬ s.Due oversight) (noUnit : s.working.unit? s.trail = none)
      (free : s.working.free? s.trail = some l)
      (spent : o.decisionLimit.any (· ≤ s.decisions) = true) :
      Halt o oversight s ⟨.ok .unknown, s.clauses, s.theory⟩
  /-- The theory has no objection to a complete assignment. -/
  | accept {v : Verdict} {th : τ} (mode : oversight = .complete) (finished : s.Finished oversight)
      (judged : Theory.check s.theory s.trail.assignment = (v, th)) (fine : v ≠ .inconsistent) :
      Halt o oversight s ⟨.ok (.sat s.trail.assignment), s.clauses, th⟩
  /-- The theory has seen the complete assignment before. -/
  | approved (mode : oversight = .partialAssignments) (finished : s.Finished oversight) :
      Halt o oversight s ⟨.ok (.sat s.trail.assignment), s.clauses, s.theory⟩
  /-- The theory rejects an assignment and fails to explain why. -/
  | unexplained {e : TheoryError} {th th' : τ}
      (noConflict : s.working.value s.trail ≠ some false)
      (asked : s.Due oversight ∨ oversight = .complete ∧ s.Finished oversight)
      (judged : Theory.check s.theory s.trail.assignment = (.inconsistent, th))
      (explained : Theory.learn th = (.error e, th')) :
      Halt o oversight s ⟨.error e, s.clauses, th'⟩

/-- A step as a move or a halt. -/
private def Steps (o : Options) (oversight : Oversight) (s : State τ) :
    Step (State τ) (Result τ) → Prop
  | .next s' => Move o oversight s s'
  | .done r => Halt o oversight s r

variable {oversight : Oversight} {s : State τ} {o : Options}

/-- A theory that is consulted rejects the assignment, or what follows is a move or a halt. A
rejection is dealt with alike wherever the theory is asked, so only the continuation `accepted` is
left open. -/
private theorem steps_consult (noConflict : s.working.value s.trail ≠ some false)
    (asked : s.Due oversight ∨ oversight = .complete ∧ s.Finished oversight)
    (accepted : State τ → Step (State τ) (Result τ))
    (fine : ∀ v th, Theory.check s.theory s.trail.assignment = (v, th) → v ≠ .inconsistent →
      Steps o oversight s (accepted { s with theory := th, changed := false })) :
    Steps o oversight s (s.consult accepted) := by
  rw [State.consult]
  split
  · next th judged =>
    rw [State.learn]
    split
    · next c th' explained => exact .learn noConflict asked judged explained
    · next e th' explained => exact .unexplained noConflict asked judged explained
  · next v th rejected judged =>
    exact fine v th judged rejected

/-- Every step is a move or a halt. The case analysis of `step` is made here, and nowhere else. -/
private theorem steps_step (o : Options) (oversight : Oversight) (s : State τ) :
    Steps o oversight s (step o oversight s) := by
  rw [step]
  split
  · next conflict =>
    rw [State.backtrack]
    split
    · next t back => exact .backtrack conflict back
    · next back => exact .unsat conflict back
  · next noConflict =>
    split
    · next due =>
      exact steps_consult noConflict (.inl due) .next fun v th judged fine =>
        .approve noConflict due judged fine
    · next notDue =>
      rw [State.extend]
      split
      · next l forced => exact .propagate noConflict notDue forced
      · next noUnit =>
        split
        · next l free =>
          rw [State.decide]
          split
          · next spent => exact .unknown noConflict notDue noUnit free spent
          · next within =>
            exact .decide noConflict notDue noUnit free (Bool.eq_false_iff.2 within)
        · next noFree =>
          split
          · next l left => exact .complete noConflict notDue noUnit noFree left
          · next noneLeft =>
            have finished : s.Finished oversight :=
              ⟨noConflict, notDue, noUnit, noFree, noneLeft⟩
            cases oversight with
            | complete =>
              exact steps_consult noConflict (.inr ⟨rfl, finished⟩)
                (fun s => s.finish (.sat s.trail.assignment)) fun v th judged fine =>
                  .accept rfl finished judged fine
            | partialAssignments => exact .approved rfl finished

/-- A step to a next state is a move. With the premises of the moves, proofs about searches go by
their cases and need not unfold `step`. -/
theorem move_of_step {s' : State τ} (h : step o oversight s = .next s') :
    Move o oversight s s' := by
  have := steps_step o oversight s
  rwa [h] at this

/-- A step to a result is a halt, with what was the case when the search ended. -/
theorem halt_of_step {r : Result τ} (h : step o oversight s = .done r) : Halt o oversight s r := by
  have := steps_step o oversight s
  rwa [h] at this

end EqualityLogic.Search
