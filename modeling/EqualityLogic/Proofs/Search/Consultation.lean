import EqualityLogic.Proofs.Equality.Explanation
import EqualityLogic.Proofs.Search.Simulation
import EqualityLogic.Proofs.Search.Soundness

/-!
# When a search consults its theory

The discipline of the calls that a search makes to its theory, for any theory whatsoever. It may
reject anything, explain this by any clause or fail to do so, and the search need not end.

`Transcript` says what the calls made so far look like, and how the clauses of the search go with
them: a clause is asked for directly after each rejection and at no other time, the clauses are the
given ones and those that the theory gave, and a search that consults the theory about complete
assignments does so about assignments that solve all clauses of the moment. Every move keeps this
(`Move.transcript`), and so does the end of a search (`Halt.transcript`), a failure to explain a
rejection among the ends.

A search that consults its theory about partial assignments owes it each new trail, unless a clause
is false, and pays at once: the next step is a check (`step_of_due`), and the one after that moves
on without another one (`step_of_seen`). So between two changes of the trail there is one check.
With a false clause there is none (`step_of_conflict`). `consults_in_order` puts all of this
together.
-/

set_option autoImplicit false

namespace EqualityLogic

/-! ### Calls in turn -/

namespace OracleCall

/-- The clauses that the theory gave, in turn. -/
def given (calls : List OracleCall) : Formula :=
  calls.filterMap fun
    | .learn (.ok c) => some c
    | _ => none

/-- The assignments that the theory judged, in turn. -/
def judged (calls : List OracleCall) : List Assignment :=
  calls.filterMap fun
    | .check m _ => some m
    | .learn _ => none

/-- The clauses given in calls one after the other are those given in each part. So the clauses of a
search grow with its calls. -/
theorem given_append (calls calls' : List OracleCall) :
    given (calls ++ calls') = given calls ++ given calls' :=
  List.filterMap_append

/-- So are the assignments that are judged. -/
theorem judged_append (calls calls' : List OracleCall) :
    judged (calls ++ calls') = judged calls ++ judged calls' :=
  List.filterMap_append

end OracleCall

open OracleCall

namespace Search

/-- What the calls to a theory look like, and how the clauses of a search go with them. The search
is one from the formula `f`, over the variables up to `b`. -/
structure Transcript (oversight : Oversight) (f : Formula) (b : Nat) (calls : List OracleCall)
    (clauses : Formula) : Prop where
  /-- Directly after a rejection a clause is asked for. -/
  asked : ∀ before m after, calls = before ++ .check m .inconsistent :: after →
    ∃ answer later, after = .learn answer :: later
  /-- A clause is asked for only directly after a rejection. -/
  rejected : ∀ before answer after, calls = before ++ .learn answer :: after →
    ∃ earlier m, before = earlier ++ [.check m .inconsistent]
  /-- The clauses are those of the formula, followed by those that the theory gave. -/
  clauses_eq : clauses = f ++ given calls
  /-- A complete assignment that is judged solves the clauses of the moment. -/
  complete : oversight = .complete → ∀ before m v after, calls = before ++ .check m v :: after →
    m.Solves (f ++ given before) b

namespace Transcript

variable {oversight : Oversight} {f clauses : Formula} {b : Nat} {calls : List OracleCall}
  {m : Assignment}

/-- Before the first call, the clauses are those of the formula. -/
theorem nil (oversight : Oversight) (f : Formula) (b : Nat) : Transcript oversight f b [] f where
  asked before m after e := by cases before <;> cases e
  rejected before answer after e := by cases before <;> cases e
  clauses_eq := (List.append_nil f).symm
  complete _ before m v after e := by cases before <;> cases e

/-- An assignment may be judged and not rejected. No clause is asked for after it. -/
theorem accepted (h : Transcript oversight f b calls clauses) {v : Verdict}
    (fine : v ≠ .inconsistent) (solves : oversight = .complete → m.Solves clauses b) :
    Transcript oversight f b (calls ++ [.check m v]) clauses where
  asked before k after split := by
    rcases append_cons_cases split with ⟨-, e, -⟩ | ⟨gap, e, -⟩ | ⟨gap, hafter, e⟩
    · -- the new call is no rejection
      cases e
      exact absurd rfl fine
    · cases gap <;> cases e
    · obtain ⟨answer, later, rfl⟩ := h.asked before k gap e
      exact ⟨answer, later ++ [OracleCall.check m v], hafter⟩
  rejected before answer after split := by
    rcases append_cons_cases split with ⟨-, e, -⟩ | ⟨gap, e, -⟩ | ⟨gap, -, e⟩
    · cases e
    · cases gap <;> cases e
    · exact h.rejected before answer gap e
  clauses_eq := by
    rw [given_append, h.clauses_eq]
    exact congrArg (f ++ ·) (List.append_nil _).symm
  complete mode before k v' after split := by
    rcases append_cons_cases split with ⟨rfl, e, -⟩ | ⟨gap, e, -⟩ | ⟨gap, -, e⟩
    · cases e
      rw [← h.clauses_eq]
      exact solves mode
    · cases gap <;> cases e
    · exact h.complete mode before k v' gap e

/-- An assignment may be judged and rejected, and a clause asked for then. If one is given, it joins
the clauses. -/
theorem explained (h : Transcript oversight f b calls clauses)
    (solves : oversight = .complete → m.Solves clauses b) (answer : Except TheoryError Clause) :
    Transcript oversight f b (calls ++ [.check m .inconsistent, .learn answer])
      (clauses ++ given [.learn answer]) where
  asked before k after split := by
    rcases append_cons_cases split with ⟨-, -, rfl⟩ | ⟨gap, e, -⟩ | ⟨gap, hafter, e⟩
    · exact ⟨answer, [], rfl⟩
    · -- only the request stands after the new rejection
      cases gap with
      | nil => cases e
      | cons _ gap => cases gap <;> cases e
    · obtain ⟨answer', later, rfl⟩ := h.asked before k gap e
      exact ⟨answer', later ++ [OracleCall.check m .inconsistent, .learn answer], hafter⟩
  rejected before answer' after split := by
    rcases append_cons_cases split with ⟨-, e, -⟩ | ⟨gap, e, hbefore⟩ | ⟨gap, -, e⟩
    · cases e
    · cases gap with
      | nil => exact ⟨calls, m, hbefore⟩
      | cons _ gap => cases gap <;> cases e
    · exact h.rejected before answer' gap e
  clauses_eq := by
    rw [given_append, ← List.append_assoc, ← h.clauses_eq]
    rfl
  complete mode before k v after split := by
    rcases append_cons_cases split with ⟨rfl, e, -⟩ | ⟨gap, e, -⟩ | ⟨gap, -, e⟩
    · cases e
      rw [← h.clauses_eq]
      exact solves mode
    · cases gap with
      | nil => cases e
      | cons _ gap => cases gap <;> cases e
    · exact h.complete mode before k v gap e

end Transcript

/-! ### Every run -/

variable {τ : Type} [Theory τ] {o : Options} {oversight : Oversight} {f : Formula} {b : Nat}
  {s s' : State (Recorded τ)}

omit [Theory τ] in
/-- A search that consults its theory about complete assignments has a solution of all clauses to
show it, the pruned ones among them. -/
theorem State.solves_of_asked {s : State τ} (h : s.Sound f b) (le : f.maxVar ≤ b)
    (asked : s.Due oversight ∨ oversight = .complete ∧ s.Finished oversight)
    (mode : oversight = .complete) : s.trail.assignment.Solves s.clauses b := by
  rcases asked with due | ⟨-, finished⟩
  · have partial_ := due.1
    rw [mode] at partial_
    cases partial_
  · exact finished.solves h le

/-- Every move goes with the calls that it makes. Two kinds of moves make any: one check, or a check
and a request. -/
theorem Move.transcript (move : Move o oversight s s') (sound : s.Sound f b) (le : f.maxVar ≤ b)
    (h : Transcript oversight f b s.theory.calls s.clauses) :
    Transcript oversight f b s'.theory.calls s'.clauses := by
  cases move with
  | @approve v th _ due judged fine =>
      show Transcript oversight f b th.calls s.clauses
      rw [Recorded.calls_of_check_eq judged]
      exact h.accepted fine (State.solves_of_asked sound le (.inl due))
  | @learn c th th' _ asked judged explained =>
      show Transcript oversight f b th'.calls (s.clauses ++ [c])
      rw [Recorded.calls_of_learn_eq explained, Recorded.calls_of_check_eq judged,
        List.append_assoc]
      exact h.explained (State.solves_of_asked sound le asked) (.ok c)
  -- all other moves change the trail and ask nothing
  | _ => exact h

/-- So does the end of a search, which may be a failure to explain a rejection. Then the request is
among the calls, and no clause is added. -/
theorem Halt.transcript {r : Result (Recorded τ)} (halt : Halt o oversight s r)
    (sound : s.Sound f b) (le : f.maxVar ≤ b)
    (h : Transcript oversight f b s.theory.calls s.clauses) :
    Transcript oversight f b r.theory.calls r.clauses := by
  cases halt with
  | @accept v th mode finished judged fine =>
      show Transcript oversight f b th.calls s.clauses
      rw [Recorded.calls_of_check_eq judged]
      exact h.accepted fine (State.solves_of_asked sound le (.inr ⟨mode, finished⟩))
  | @unexplained e th th' _ asked judged explained =>
      -- the request that failed is the last call, and no clause came of it
      show Transcript oversight f b th'.calls s.clauses
      rw [Recorded.calls_of_learn_eq explained, Recorded.calls_of_check_eq judged,
        List.append_assoc]
      have ended := h.explained (State.solves_of_asked sound le asked) (.error e)
      rwa [show given [.learn (.error e)] = [] from rfl, List.append_nil] at ended
  | _ => exact h

/-! ### One trail after the other -/

end Search

namespace Trail

/-- A trail with one more literal is another one, as it is longer. -/
theorem push_ne (t : Trail) (l : Literal) (r : Reason) : t.push l r ≠ t := by
  intro e
  have := congrArg (fun t : Trail => t.entries.length) e
  simp [push] at this

/-- Stepping back leaves fewer entries, or as many with another one at the end. -/
theorem entries_ne_of_backtrackFrom {values : Values} {es : List (Literal × Reason)} {t : Trail}
    (back : backtrackFrom values es = some t) :
    t.entries.length < es.length ∨ t.entries.length = es.length ∧ t.entries ≠ es := by
  induction es generalizing values with
  | nil => cases back
  | cons e es ih =>
      obtain ⟨l, r⟩ := e
      rw [backtrackFrom] at back
      split at back
      · next decision =>
        cases back
        refine .inr ⟨rfl, fun e => ?_⟩
        -- the reason of the latest entry was a decision, and is none now
        have : Reason.backjump = r := congrArg Prod.snd (List.cons.inj e).1
        rw [decision] at this
        cases this
      · have := ih back
        rw [List.length_cons]
        omega

/-- A trail with a decision reversed is another one. So no step that has to do with the trail leaves
it as it was, and to stay on a trail means to talk to the theory. -/
theorem backtrack?_ne {t t' : Trail} (back : t.backtrack? = some t') : t' ≠ t := by
  rintro rfl
  rcases entries_ne_of_backtrackFrom back with shorter | ⟨-, other⟩
  · exact Nat.lt_irrefl _ shorter
  · exact other rfl

end Trail

namespace Search

variable {τ : Type} [Theory τ] {o : Options} {oversight : Oversight} {f : Formula}
  {s s' : State (Recorded τ)}

/-- The calls that have been made once a step is taken. -/
def callsAfter {τ : Type} : Step (State (Recorded τ)) (Result (Recorded τ)) → List OracleCall
  | .next s => s.theory.calls
  | .done r => r.theory.calls

/-- A search gets from one state to another without a change of its trail. -/
inductive Stays {τ : Type} (go : State τ → Step (State τ) (Result τ)) : State τ → State τ → Prop
  | refl (s : State τ) : Stays go s s
  | next {s s' s'' : State τ} : go s = .next s' → s'.trail = s.trail → Stays go s' s'' →
      Stays go s s''

/-- While a clause is false, nothing is asked. The search steps back or gives up first, also where
it owes its theory the trail. -/
theorem step_of_conflict (conflict : s.working.value s.trail = some false) :
    callsAfter (step o oversight s) = s.theory.calls := by
  rw [step, if_pos conflict, State.backtrack]
  split <;> rfl

/-- Only propagation, decisions and reversals change the trail, and the theory has yet to see what
they make of it. -/
theorem Move.changed_of_trail_ne (move : Move o oversight s s') (ne : s'.trail ≠ s.trail) :
    s'.changed = true := by
  cases move with
  | approve => exact absurd rfl ne
  | learn => exact absurd rfl ne
  | _ => rfl

/-- A trail that the theory is to see, with no clause false, is checked by the next step, once. If
the search goes on it does so on the same trail, and owes nothing. -/
theorem step_of_due (due : s.Due oversight) (noConflict : s.working.value s.trail ≠ some false) :
    judged (callsAfter (step o oversight s)) =
      judged s.theory.calls ++ [s.trail.assignment] ∧
    ∀ s', step o oversight s = .next s' → s'.trail = s.trail ∧ s'.changed = false := by
  have checked : ∀ {v : Verdict} {th : Recorded τ},
      Theory.check s.theory s.trail.assignment = (v, th) →
      judged th.calls = judged s.theory.calls ++ [s.trail.assignment] := fun h => by
    rw [Recorded.calls_of_check_eq h, judged_append]
    rfl
  -- to ask for a clause is no check
  have requested : ∀ {th th' : Recorded τ} {answer : Except TheoryError Clause},
      Theory.learn th = (answer, th') → judged th'.calls = judged th.calls := fun h => by
    rw [Recorded.calls_of_learn_eq h, judged_append]
    exact List.append_nil _
  cases e : step o oversight s with
  | next t =>
      cases move_of_step e with
      | backtrack conflict => exact absurd conflict noConflict
      | approve _ _ accepted =>
          refine ⟨checked accepted, ?_⟩
          rintro _ ⟨⟩
          exact ⟨rfl, rfl⟩
      | learn _ _ rejected explained =>
          refine ⟨(requested explained).trans (checked rejected), ?_⟩
          rintro _ ⟨⟩
          exact ⟨rfl, rfl⟩
      | propagate _ notDue => exact absurd due notDue
      | decide _ notDue => exact absurd due notDue
      | complete _ notDue => exact absurd due notDue
  | done r =>
      refine ⟨?_, nofun⟩
      cases halt_of_step e with
      | unsat conflict => exact absurd conflict noConflict
      | unknown _ notDue => exact absurd due notDue
      | accept mode => exact nomatch due.1.symm.trans mode
      | approved _ finished => exact absurd due finished.notDue
      | unexplained _ _ rejected explained =>
          exact (requested explained).trans (checked rejected)

/-- Once the theory has seen a partial assignment, the next step asks nothing, and leaves the trail.
So no trail is checked twice in a row. -/
theorem step_of_seen (mode : oversight = .partialAssignments) (seen : s.changed = false) :
    callsAfter (step o oversight s) = s.theory.calls ∧
    ∀ s', step o oversight s = .next s' → s'.trail ≠ s.trail := by
  have notDue : ¬ s.Due oversight := fun due => nomatch seen.symm.trans due.2
  have notAsked : ¬ (s.Due oversight ∨ oversight = .complete ∧ s.Finished oversight) := by
    rintro (due | ⟨mode', -⟩)
    · exact notDue due
    · exact nomatch mode.symm.trans mode'
  cases e : step o oversight s with
  | next t =>
      suffices h : t.theory.calls = s.theory.calls ∧ t.trail ≠ s.trail by
        refine ⟨h.1, ?_⟩
        rintro _ ⟨⟩
        exact h.2
      -- all moves but those that talk to the theory change the trail
      cases move_of_step e with
      | backtrack _ back => exact ⟨rfl, Trail.backtrack?_ne back⟩
      | approve _ due => exact absurd due notDue
      | learn _ asked => exact absurd asked notAsked
      | propagate => exact ⟨rfl, Trail.push_ne _ _ _⟩
      | decide => exact ⟨rfl, Trail.push_ne _ _ _⟩
      | complete => exact ⟨rfl, Trail.push_ne _ _ _⟩
  | done r =>
      refine ⟨?_, nofun⟩
      cases halt_of_step e with
      | accept mode' => exact nomatch mode.symm.trans mode'
      | unexplained _ asked => exact absurd asked notAsked
      | _ => rfl

/-- Where a trail that the theory is to see comes up with no clause false, the search checks it once
and asks nothing else until it leaves the trail. It takes two steps at most: the check, and the one
after it. -/
theorem exists_stays_of_due (mode : oversight = .partialAssignments) (changed : s.changed = true)
    (noConflict : s.working.value s.trail ≠ some false) :
    ∃ t, Stays (step o oversight) s t ∧
      (∀ u, step o oversight t = .next u → u.trail ≠ s.trail) ∧
      judged (callsAfter (step o oversight t)) =
        judged s.theory.calls ++ [s.trail.assignment] := by
  obtain ⟨checked, kept⟩ := step_of_due (o := o) ⟨mode, changed⟩ noConflict
  cases e : step o oversight s with
  | done r =>
      -- the search fails on this trail
      refine ⟨s, .refl s, fun u next => ?_, checked⟩
      rw [e] at next
      cases next
  | next t =>
      obtain ⟨same, seen⟩ := kept t e
      obtain ⟨silent, leaves⟩ := step_of_seen (o := o) mode seen
      refine ⟨t, .next e same (.refl t), fun u next => ?_, ?_⟩
      · rw [← same]
        exact leaves u next
      · rw [silent, ← checked, e]
        rfl

/-- In each state that a search reaches, its clauses go with the calls made so far. The induction is
on the moves up to the state, with the soundness of the search beside the transcript, since an
assignment that is shown to the theory has to solve the clauses. -/
theorem transcript_of_reaches {n : Nat} {theory : τ} (reached : Process.Reaches
    (step o oversight) (State.start o f n (Recorded.mk theory [])) s) :
    s.Sound f (max n f.maxVar) ∧
      Transcript oversight f (max n f.maxVar) s.theory.calls s.clauses := by
  refine reached.keeps (P := fun s => s.Sound f (max n f.maxVar) ∧
    Transcript oversight f (max n f.maxVar) s.theory.calls s.clauses) ?_ ?_
  · intro s s' h next
    have move := move_of_step next
    exact ⟨move.sound h.1, move.transcript h.1 (Nat.le_max_right _ _) h.2⟩
  · exact ⟨sound_start o f n (Recorded.mk theory []), .nil oversight f _⟩

/-- When a search consults its theory, in all states and at all ends, with any theory. The first two
parts are about the order of the calls and the clauses that go with them, the third about states
with a false clause, and the fourth about partial assignments: each new trail is checked once before
it is left. The last part says that the search which records its calls ends as the one which does
not, so nothing here is due to the recording. -/
theorem consults_in_order {τ : Type} [Theory τ] (o : Options) (oversight : Oversight) (f : Formula)
    (n : Nat) (theory : τ) :
    let go : State (Recorded τ) → Step (State (Recorded τ)) (Result (Recorded τ)) :=
      step o oversight
    let start := State.start o f n (Recorded.mk theory [])
    (∀ s : State (Recorded τ), Process.Reaches go start s →
      Transcript oversight f (max n f.maxVar) s.theory.calls s.clauses) ∧
    (∀ r : Result (Recorded τ), Process.Ends go start r →
      Transcript oversight f (max n f.maxVar) r.theory.calls r.clauses) ∧
    (∀ s, Process.Reaches go start s → s.working.value s.trail = some false →
      callsAfter (go s) = s.theory.calls) ∧
    (oversight = .partialAssignments → ∀ s s', Process.Reaches go start s → go s = .next s' →
      s'.trail ≠ s.trail → s'.working.value s'.trail ≠ some false →
      ∃ t, Stays go s' t ∧ (∀ u, go t = .next u → u.trail ≠ s'.trail) ∧
        judged (callsAfter (go t)) = judged s'.theory.calls ++ [s'.trail.assignment]) ∧
    ∀ r, Process.Ends (step o oversight) (State.start o f n theory) r ↔
      ∃ th : Recorded τ, th.theory = r.theory ∧
        Process.Ends go start ⟨r.answer, r.clauses, th⟩ := by
  intro go start
  refine ⟨fun s reached => (transcript_of_reaches reached).2, fun r ends => ?_,
    fun s _ conflict => step_of_conflict conflict, fun mode s s' _ next changed noConflict => ?_,
    fun r => ends_recorded_iff⟩
  · obtain ⟨s, reached, done⟩ := ends.last
    obtain ⟨sound, h⟩ := transcript_of_reaches reached
    exact (halt_of_step done).transcript sound (Nat.le_max_right _ _) h
  · exact exists_stays_of_due mode ((move_of_step next).changed_of_trail_ne changed) noConflict

end Search

end EqualityLogic
