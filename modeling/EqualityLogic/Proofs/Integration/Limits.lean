import EqualityLogic.Proofs.Equality.Explanation
import EqualityLogic.Proofs.Integration.Correctness
import EqualityLogic.Proofs.Search.Budget

/-!
# Looser limits

A strategy with looser limits goes the same way as with tighter ones, up to the point where a
tighter one stops it. So an outcome that is not a failure to answer stays what it is, and with such
a failure the other run has gone at least as far: it has learned the same clauses first, and it has
checked no fewer assignments (`solveBy_looser`).

A budget of decisions is for one call of the search. Under supervision there is one call, and the
budget stops it in a state to which the search with a larger budget comes as well. Lazy refinement
makes a call in each round, and the call is either answered as before or not at all; in the second
case the round is the last one, as it is when the limit on clauses is reached
(`Refinement.curtails_step`). In both strategies, clauses are only added and checks only counted up
from such a state on.
-/

set_option autoImplicit false

namespace EqualityLogic

/-- The same settings with limits that are no tighter. -/
structure Settings.Looser (s s' : Settings) : Prop where
  options : s.toOptions.Looser s'.toOptions
  strategy : s'.strategy = s.strategy
  refinementLimit : EqualityLogic.Looser s.refinementLimit s'.refinementLimit

/-- What looser limits make of an outcome. -/
structure Outcome.Loosened (out out' : Outcome) : Prop where
  /-- It stays, unless it is a failure to answer. -/
  same : out.answer ≠ .unknown → out' = out
  /-- After such a failure, all clauses learned before it are learned first, and no fewer
  assignments are checked. -/
  further : out.answer = .unknown →
    out.clauses <+: out'.clauses ∧ out.theoryChecks ≤ out'.theoryChecks

/-- An outcome that looser limits leave as it is, is one of those they may make of it. It covers all
runs that no limit has stopped. -/
theorem Outcome.Loosened.refl (out : Outcome) : out.Loosened out where
  same _ := rfl
  further _ := ⟨List.prefix_rfl, Nat.le_refl _⟩

/-! ### Refinement -/

namespace Refinement

section AnyEngine

variable {n : Nat} {ε : Type} {solve : ε → Formula → Nat → Except TheoryError Answer × ε}
  {limit limit' : Option Nat} {numVars : Nat} {s s' : State n ε}

/-- The number of checks once the theory has judged what the round of a state finds. -/
def State.checksAfter (solve : ε → Formula → Nat → Except TheoryError Answer × ε) (numVars : Nat)
    (s : State n ε) : Nat :=
  match (solve s.engine s.clauses numVars).1 with
  | .ok (.sat _) => s.theory.checks + 1
  | _ => s.theory.checks

/-- A round does not lower the number of checks. It counts one up if it finds an assignment. -/
theorem State.checks_le_checksAfter (s : State n ε) :
    s.theory.checks ≤ s.checksAfter solve numVars := by
  unfold checksAfter
  split
  · omega
  · exact Nat.le_refl _

/-- The next round has seen the check of this one, and its request for a clause is no check. -/
theorem checks_of_step_eq_next (next : step solve limit numVars s = .next s') :
    s'.theory.checks = s.checksAfter solve numVars := by
  obtain ⟨m, c, found, -, -, rfl⟩ := exists_of_step_eq_next next
  unfold State.checksAfter
  rw [found]
  exact EqualityTheory.checks_learn (s.theory.check m)

/-- The last round reports the clauses with which it began, and its own check if it made one. -/
theorem reported_of_step_eq_done {out : Outcome} {e : ε}
    (done : step solve limit numVars s = .done (.ok out, e)) :
    out.clauses = s.clauses ∧ out.theoryChecks = s.checksAfter solve numVars := by
  unfold step at done
  unfold State.checksAfter
  -- the cases are those of the engine's answer, and of the verdict on what it finds
  split at done
  · cases done
  · next m e' found =>
      rw [found]
      simp only at done
      split at done
      · cases done
        exact ⟨rfl, rfl⟩
      · -- a rejection ends the refinement if the limit is reached
        unfold State.refine at done
        split at done
        · cases done
          exact ⟨rfl, rfl⟩
        · split at done <;> cases done
      · cases done
        exact ⟨rfl, rfl⟩
  · next a e' notSat found =>
      rw [found]
      cases done
      cases a with
      | sat m => exact absurd rfl (notSat m)
      | unsat => exact ⟨rfl, rfl⟩
      | unknown => exact ⟨rfl, rfl⟩

/-- From a state on, clauses are only added and checks only counted up. The check of the state's own
round is counted in, as the round is sure to be made. -/
theorem grows_of_ends {r : Except TheoryError Outcome × ε}
    (ends : Process.Ends (step solve limit numVars) s r) {out : Outcome} (ok : r.1 = .ok out) :
    s.clauses <+: out.clauses ∧ s.checksAfter solve numVars ≤ out.theoryChecks := by
  induction ends with
  | @done s r done =>
      obtain ⟨_, e⟩ := r
      cases ok
      obtain ⟨clauses, checks⟩ := reported_of_step_eq_done done
      rw [clauses, checks]
      exact ⟨List.prefix_rfl, Nat.le_refl _⟩
  | @next s s' r next _ ih =>
      -- the next round starts with one clause and one check more than this one
      obtain ⟨keeps, le⟩ := ih ok
      have checks := checks_of_step_eq_next next
      have le' : s'.theory.checks ≤ s'.checksAfter solve numVars := s'.checks_le_checksAfter
      obtain ⟨m, c, -, -, -, rfl⟩ := exists_of_step_eq_next next
      exact ⟨(List.prefix_append _ _).trans keeps, by omega⟩

/-- A limit is reached, or a looser one changes nothing. The limit is asked before the theory is, so
a round that it ends has not asked for a clause. -/
theorem refine_looser (looser : Looser limit limit') (s : State n ε) :
    s.refine limit = s.refine limit' ∨ s.refine limit = s.finish .unknown := by
  unfold State.refine
  cases spent : limit.any (· ≤ s.lemmas) with
  | true => exact .inr rfl
  | false =>
      rw [looser.within spent]
      exact .inl rfl

end AnyEngine

variable {n : Nat} {o o' : Search.Options} {limit limit' : Option Nat}

/-- With looser limits a round does the same, unless it is the last one because of a limit. Both
limits may be the reason: the one on decisions stops the search of the round, and the one on clauses
the round itself. -/
theorem curtails_step (options : o.Looser o') (limits : Looser limit limit') (numVars : Nat) :
    Process.Curtails (step (n := n) (engine o) limit numVars) (step (engine o') limit' numVars)
      fun r => ∃ out, r.1 = .ok out ∧ out.answer = .unknown := by
  intro s
  unfold step engine
  rcases Search.solve_looser options s.clauses numVars with same | unknown
  · rw [same]
    cases Search.solve o' s.clauses numVars with
    | error e => exact .inl rfl
    | ok a =>
        cases a with
        | unsat => exact .inl rfl
        | unknown => exact .inl rfl
        | sat m =>
            simp only
            split
            · exact .inl rfl
            · -- the search has found the same assignment, so it is the limit on clauses that counts
              rcases refine_looser limits { s with theory := s.theory.check m, engine := () } with
                same | spent
              · exact .inl same
              · exact .inr ⟨_, spent, _, rfl, rfl⟩
            · exact .inl rfl
  · -- the budget of the search is used up, which ends the refinement
    rw [unknown]
    exact .inr ⟨_, rfl, _, rfl, rfl⟩

/-- What is found within a budget is found with a larger one, so the check of a round is made with
the larger one too. -/
theorem checksAfter_looser (options : o.Looser o') (numVars : Nat) (s : State n Unit) :
    s.checksAfter (engine o) numVars ≤ s.checksAfter (engine o') numVars := by
  rcases Search.solve_looser options s.clauses numVars with same | unknown
  · refine Nat.le_of_eq ?_
    unfold State.checksAfter engine
    rw [same]
  · have none_ : s.checksAfter (engine o) numVars = s.theory.checks := by
      unfold State.checksAfter engine
      rw [unknown]
    rw [none_]
    exact s.checks_le_checksAfter

end Refinement

/-- Lazy refinement with looser limits goes at least as far. The two runs share their rounds up to
the one that a limit curtails, if any. -/
theorem Problem.refine_looser (p : Problem) {s s' : Settings} (looser : s.Looser s')
    {out out' : Outcome} (h : p.refine s = .ok out) (h' : p.refine s' = .ok out') :
    out.Loosened out' := by
  have ends' := p.ends_refine s'
  rcases (Refinement.curtails_step looser.options looser.refinementLimit p.numVars).ends
    (p.ends_refine s) with same | ⟨⟨_, hout, unknown⟩, t, reached, last⟩
  · have heq : p.refine s = p.refine s' := congrArg Prod.fst (same.unique ends')
    rw [h, h'] at heq
    cases heq
    exact .refl out
  · -- both runs come to the state `t`, where the first gives up and the second may go on
    obtain rfl := Except.ok.inj (h.symm.trans hout)
    rw [h] at last
    obtain ⟨clauses, checks⟩ := Refinement.reported_of_step_eq_done last
    obtain ⟨keeps, le⟩ := Refinement.grows_of_ends (ends'.of_reaches reached) h'
    have more := Refinement.checksAfter_looser looser.options p.numVars t
    refine ⟨fun known => absurd unknown known, fun _ => ⟨?_, by omega⟩⟩
    rw [clauses]
    exact keeps

/-! ### Supervised search -/

section

open Search

variable {n : Nat} {o : Options} {oversight : Oversight} {s s' : State (EqualityTheory n)}

/-- A move does not lower the number of checks, as the theory forgets none when it explains. -/
theorem Search.Move.checks_le (m : Move o oversight s s') : s.theory.checks ≤ s'.theory.checks := by
  cases m with
  | approve _ _ judged =>
      obtain ⟨-, rfl⟩ := EqualityTheory.of_check_eq judged
      exact Nat.le_succ _
  | @learn c th th' _ _ judged explained =>
      have checks := (EqualityTheory.of_explained judged explained).2.2.2
      show s.theory.checks ≤ th'.checks
      omega
  | _ => exact Nat.le_refl _

/-- The end of a search does not lower the number of checks. It may count up the last one. -/
theorem Search.Halt.checks_le {r : Result (EqualityTheory n)} (halt : Halt o oversight s r) :
    s.theory.checks ≤ r.theory.checks := by
  cases halt with
  | accept _ _ judged =>
      obtain ⟨-, rfl⟩ := EqualityTheory.of_check_eq judged
      exact Nat.le_succ _
  | unexplained _ _ judged explained =>
      -- the theory of equality never fails to explain a rejection
      obtain ⟨rejected, rfl⟩ := EqualityTheory.of_check_eq judged
      have impossible : (s.theory.check s.trail.assignment).learn = _ := explained
      rw [EqualityTheory.learn_check rejected] at impossible
      cases impossible
  | _ => exact Nat.le_refl _

/-- From a state on, clauses are only added and checks only counted up, by induction on the moves to
come. -/
theorem Search.grows_of_ends {r : Result (EqualityTheory n)}
    (ends : Process.Ends (step o oversight) s r) :
    s.clauses <+: r.clauses ∧ s.theory.checks ≤ r.theory.checks := by
  obtain ⟨t, ⟨keeps, le⟩, halt⟩ := exists_halt_of_ends
    (P := fun t => s.clauses <+: t.clauses ∧ s.theory.checks ≤ t.theory.checks)
    (fun _ _ m h => ⟨h.1.trans m.clauses_prefix, Nat.le_trans h.2 m.checks_le⟩)
    ⟨List.prefix_rfl, Nat.le_refl _⟩ ends
  rw [halt.clauses_eq]
  exact ⟨keeps, Nat.le_trans le halt.checks_le⟩

/-- Supervised search with a larger budget goes at least as far. The limit on clauses is none of its
concern. -/
theorem Problem.supervise_looser (p : Problem) {s s' : Settings} (looser : s.Looser s')
    (oversight : Oversight) {out out' : Outcome} (h : p.supervise s oversight = .ok out)
    (h' : p.supervise s' oversight = .ok out') : out.Loosened out' := by
  have ends := ends_solveWith s.toOptions p.formula p.numVars p.theory oversight
  have ends' := ends_solveWith s'.toOptions p.formula p.numVars p.theory oversight
  rcases ends_looser looser.options ends with same | ⟨t, reached, unknown⟩
  · have heq : p.supervise s oversight = p.supervise s' oversight := by
      rw [supervise_eq, supervise_eq, same.unique ends']
    rw [h, h'] at heq
    cases heq
    exact .refl out
  · -- the first search leaves what the second one has when it comes to the state `t`
    obtain ⟨answer, clauses, -, checks⟩ := of_supervise_eq h
    obtain ⟨-, clauses', -, checks'⟩ := of_supervise_eq h'
    obtain ⟨keeps, le⟩ := grows_of_ends (ends'.of_reaches reached)
    rw [unknown] at answer clauses checks
    refine ⟨fun known => absurd (Except.ok.inj answer).symm known, fun _ => ?_⟩
    rw [clauses, clauses', checks, checks']
    exact ⟨keeps, le⟩

end

/-! ### All strategies -/

/-- Each strategy answers with looser limits as with tighter ones, unless a tighter one stopped it.
Then the run with looser limits has come at least as far.

That both runs have an outcome is part of the statement, so no run is left out because it fails. -/
theorem Problem.solveBy_looser (p : Problem) (strategy : Strategy) {s s' : Settings}
    (looser : s.Looser s') :
    ∃ out out', p.solveBy s strategy = .ok out ∧ p.solveBy s' strategy = .ok out' ∧
      out.Loosened out' := by
  obtain ⟨out, hout, -⟩ := p.exists_outcome s strategy
  obtain ⟨out', hout', -⟩ := p.exists_outcome s' strategy
  refine ⟨out, out', hout, hout', ?_⟩
  cases strategy with
  | lazy => exact p.refine_looser looser hout hout'
  | callback => exact p.supervise_looser looser .complete hout hout'
  | propagation => exact p.supervise_looser looser .partialAssignments hout hout'

/-- Two equations are given, and the search guesses first that the third does not hold. No decision
is charged for this, so the outcome with no budget at all is the outcome without a limit. -/
theorem Problem.solveBy_looser_triangle :
    let a : Literal := ⟨1, by decide⟩
    let b : Literal := ⟨2, by decide⟩
    let c : Literal := ⟨3, by decide⟩
    let p : Problem :=
      { names := ["a", "b", "c"]
        atoms := ⟨[⟨1, ⟨0, by decide⟩, ⟨1, by decide⟩⟩, ⟨2, ⟨1, by decide⟩, ⟨2, by decide⟩⟩,
          ⟨3, ⟨0, by decide⟩, ⟨2, by decide⟩⟩], by decide, by decide⟩
        formula := [[a], [b]]
        distinct := by decide }
    let tight : Settings := { decisionLimit := some 0, refinementLimit := some 0 }
    let out : Outcome := ⟨.sat [a, b, c], [[a], [b], [a.negate, b.negate, c]], 1, 2⟩
    tight.Looser {} ∧ p.solveBy tight .callback = .ok out ∧ p.solveBy {} .callback = .ok out := by
  intro a b c p tight out
  have looser : tight.Looser {} := ⟨⟨rfl, rfl, nofun⟩, rfl, nofun⟩
  have ends : Process.Ends (Search.step tight.toOptions .complete)
      (.start tight.toOptions p.formula p.numVars p.theory)
      ⟨.ok out.answer, out.clauses,
        (p.theory.check [a, b, c.negate]).learn.2.check [a, b, c]⟩ :=
    Process.ends_of_upTo (n := 7) (by cbv)
  have tightly : p.solveBy tight .callback = .ok out := by
    show p.supervise tight .complete = _
    rw [supervise_eq, (Search.ends_solveWith _ _ _ _ _).unique ends]
    show Except.ok (Outcome.mk _ _ 1 ((p.theory.check [a, b, c.negate]).learn.2.checks + 1)) = _
    rw [EqualityTheory.checks_learn]
    rfl
  obtain ⟨_, _, h, h', loosened⟩ := solveBy_looser p .callback looser
  obtain rfl := Except.ok.inj (tightly.symm.trans h)
  have answered : out.answer ≠ .unknown := by
    intro unknown
    cases unknown
  rw [loosened.same answered] at h'
  exact ⟨looser, tightly, h'⟩

end EqualityLogic
