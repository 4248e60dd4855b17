import EqualityLogic.Proofs.Search.Simulation

/-!
# Searches with theories that reject nothing

A theory that never rejects an assignment does not steer a search. Whether the search consults it
about partial assignments or only about complete ones, it ends as the search of the formula alone
does, with the same answer, and it adds no clause (`ends_of_tolerant`).

The three searches do not take the same steps. A search that consults its theory about partial
assignments spends a step on each consultation, for which the search of the formula alone waits; and
at the end, where the others consult their theories for the last time, it does not. All other steps
are the same, up to the theory and the record of changes, which the search of the formula alone does
not read (`stepsAlong`).
-/

set_option autoImplicit false

namespace EqualityLogic

variable {τ : Type} [Theory τ]

namespace Theory

/-- Whatever calls have come before, no assignment is rejected. -/
def Tolerant (t : τ) : Prop := ∀ calls m, (check (after t calls) m).1 ≠ .inconsistent

variable {t : τ}

/-- A tolerant theory is so after any call, so tolerance may be kept as an invariant. -/
theorem Tolerant.perform (h : Tolerant t) (call : TheoryCall) : Tolerant (Theory.perform t call) :=
  fun calls => h (call :: calls)

/-- A tolerant theory has no objection to an assignment, as a case of no calls before. The steps of
a search need this much only. -/
theorem Tolerant.accepts (h : Tolerant t) (m : Assignment) : (check t m).1 ≠ .inconsistent := h [] m

/-- A tolerant theory never has to explain itself, which makes it lawful for want of a case. -/
theorem Tolerant.lawful (h : Tolerant t) : Lawful t :=
  fun calls m _ rejected => absurd rejected (h calls m)

/-- The theory that constrains nothing is tolerant. -/
theorem tolerant_empty (t : EmptyTheory) : Tolerant t := nofun

end Theory

namespace Search

variable {o : Options} {oversight : Oversight} {s : State τ}

/-- The search of the formula alone at the same point, with some record of changes. -/
def State.alone (s : State τ) (changed : Bool) : State EmptyTheory :=
  { s.withTheory EmptyTheory.mk with changed }

/-- How a step of a search goes along with the search of the formula alone. -/
inductive StepsAlong (o : Options) (s : State τ) (changed : Bool) :
    Step (State τ) (Result τ) → Prop
  /-- The theory is consulted, and the other search waits. -/
  | consult : StepsAlong o s changed
      (.next { s with theory := (Theory.check s.theory s.trail.assignment).2, changed := false })
  /-- Both searches take the same step. -/
  | next {s' : State τ} {changed' : Bool} (theory : s'.theory = s.theory)
      (clauses : s'.clauses = s.clauses)
      (same : step o .complete (s.alone changed) = .next (s'.alone changed')) :
      StepsAlong o s changed (.next s')
  /-- Both searches end with the same answer. -/
  | done {a : Answer} {th : τ}
      (same : step o .complete (s.alone changed) = .done ⟨.ok a, s.clauses, EmptyTheory.mk⟩) :
      StepsAlong o s changed (.done ⟨.ok a, s.clauses, th⟩)

omit [Theory τ] in
/-- While no clause is false, the search of the formula alone goes on. It owes its theory nothing,
since it asks about complete assignments only. -/
theorem step_alone (noConflict : s.working.value s.trail ≠ some false) (changed : Bool) :
    step o .complete (s.alone changed) = (s.alone changed).extend o .complete := by
  have noConflict : ¬ (s.alone changed).working.value (s.alone changed).trail = some false :=
    noConflict
  unfold step
  rw [if_neg noConflict, if_neg (fun h => Oversight.noConfusion h.1)]

omit [Theory τ] in
/-- The search of the formula alone accepts each complete assignment, since its theory constrains
nothing. -/
theorem accept_alone (changed : Bool) :
    (s.alone changed).accept .complete =
      .done ⟨.ok (.sat s.trail.assignment), s.clauses, EmptyTheory.mk⟩ := rfl

/-- A trail is extended as in the search of the formula alone, up to the end of both. The cases are
those of `State.extend`. -/
theorem stepsAlong_extend (accepts : ∀ m, (Theory.check s.theory m).1 ≠ .inconsistent)
    (noConflict : s.working.value s.trail ≠ some false) (changed : Bool) :
    StepsAlong o s changed (s.extend o oversight) := by
  have alone := step_alone (o := o) noConflict changed
  unfold State.extend at alone ⊢
  rw [show (s.alone changed).working = s.working from rfl,
    show (s.alone changed).trail = s.trail from rfl] at alone
  cases hunit : s.working.unit? s.trail with
  | some l =>
      rw [hunit] at alone
      exact .next rfl rfl alone
  | none =>
      simp only [hunit] at alone ⊢
      cases hfree : s.working.free? s.trail with
      | some l =>
          -- both have spent as much of the same budget
          simp only [hfree] at alone ⊢
          unfold State.decide at alone ⊢
          rw [show (s.alone changed).decisions = s.decisions from rfl] at alone
          split
          · next spent =>
            rw [if_pos spent] at alone
            exact .done alone
          · next within =>
            rw [if_neg within] at alone
            exact .next rfl rfl alone
      | none =>
          simp only [hfree] at alone ⊢
          cases hleft : s.trail.firstFree? with
          | some l =>
              rw [hleft] at alone
              exact .next rfl rfl alone
          | none =>
              simp only [hleft] at alone ⊢
              -- of the two ways to end, one consults the theory once more
              cases oversight with
              | complete =>
                  show StepsAlong o s changed
                    (s.consult fun s => s.finish (.sat s.trail.assignment))
                  rw [consult_of_accepted (accepts _)]
                  exact .done (alone.trans (accept_alone changed))
              | partialAssignments => exact .done (alone.trans (accept_alone changed))

/-- A search with a theory that rejects nothing goes along with the search of the formula alone. The
record of changes of the other search may be anything. -/
theorem stepsAlong (accepts : ∀ m, (Theory.check s.theory m).1 ≠ .inconsistent) (changed : Bool) :
    StepsAlong o s changed (step o oversight s) := by
  by_cases conflict : s.working.value s.trail = some false
  · have alone : step o .complete (s.alone changed) = (s.alone changed).backtrack := if_pos conflict
    have here : step o oversight s = s.backtrack := if_pos conflict
    rw [here]
    unfold State.backtrack at alone ⊢
    rw [show (s.alone changed).trail = s.trail from rfl] at alone
    cases hback : s.trail.backtrack? with
    | some t =>
        rw [hback] at alone
        exact .next rfl rfl alone
    | none =>
        rw [hback] at alone
        exact .done alone
  · unfold step
    rw [if_neg conflict]
    split
    · rw [consult_of_accepted (accepts _)]
      -- here the other search waits, since it asks about complete assignments only
      exact .consult
    · exact stepsAlong_extend accepts conflict changed

/-- A search with a tolerant theory ends as the search of the formula alone does, and adds no
clause. The induction is on the run with the theory, which has the steps for which the other waits.
-/
theorem ends_alone {r : Result τ} (ends : Process.Ends (step o oversight) s r)
    (tolerant : Theory.Tolerant s.theory) (changed : Bool) :
    r.clauses = s.clauses ∧
      Process.Ends (step o .complete) (s.alone changed) ⟨r.answer, s.clauses, EmptyTheory.mk⟩ := by
  induction ends generalizing changed with
  | @done s r e =>
      have along : StepsAlong o s changed (step o oversight s) :=
        stepsAlong tolerant.accepts changed
      rw [e] at along
      cases along with
      | done same => exact ⟨rfl, .done same⟩
  | @next s s' r e _ ih =>
      have along : StepsAlong o s changed (step o oversight s) :=
        stepsAlong tolerant.accepts changed
      rw [e] at along
      cases along with
      | consult => exact ih (tolerant.perform (.check s.trail.assignment)) changed
      | @next _ changed' theory clauses same =>
          -- the theory has not been called, so it is still tolerant
          obtain ⟨kept, rest⟩ := ih (theory ▸ tolerant) changed'
          rw [clauses] at kept rest
          exact ⟨kept, .next same rest⟩

/-- A search with a tolerant theory ends with the answer for the formula alone, whenever the theory
is consulted. That there is an end is part of the statement. -/
theorem ends_of_tolerant (o : Options) (f : Formula) (n : Nat) {theory : τ}
    (tolerant : Theory.Tolerant theory) (oversight : Oversight) :
    ∃ th, Process.Ends (step o oversight) (.start o f n theory) ⟨solve o f n, f, th⟩ := by
  have ends := Process.ends_run _ (acc_start o oversight f n tolerant.lawful)
  generalize Process.run _ _ (acc_start o oversight f n tolerant.lawful) = r at ends
  obtain ⟨kept, alone⟩ := ends_alone ends tolerant false
  obtain ⟨answer, clauses, th⟩ := r
  obtain rfl : clauses = f := kept
  -- the search of the formula alone starts in the same state, and it has one result
  obtain rfl : answer = solve o clauses n :=
    congrArg Result.answer (alone.unique (ends_solveWith o clauses n EmptyTheory.mk .complete))
  exact ⟨th, ends⟩

end Search

end EqualityLogic
