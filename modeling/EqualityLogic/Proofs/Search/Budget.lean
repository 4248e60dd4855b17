import EqualityLogic.Process
import EqualityLogic.Search.Solve

/-!
# Larger budgets of decisions

A search looks at its budget in one place only: where it is about to decide a literal of an open
clause. So with a larger budget, or none, it takes the same steps up to the point where the smaller
one is used up (`curtails_step`). A search that ends within its budget ends in the same way with a
larger one, and a search that gives up has come to a state that the other one goes through as well
(`ends_looser`).
-/

set_option autoImplicit false

namespace EqualityLogic

/-- A limit allows all that another one allows. -/
def Looser (limit limit' : Option Nat) : Prop := ∀ k' ∈ limit', ∃ k ∈ limit, k ≤ k'

/-- What is within a limit is within a looser one. The absence of a limit is looser than all limits.
-/
theorem Looser.within {limit limit' : Option Nat} (looser : Looser limit limit') {n : Nat}
    (within : limit.any (· ≤ n) = false) : limit'.any (· ≤ n) = false := by
  cases limit' with
  | none => rfl
  | some k' =>
      obtain ⟨k, rfl, le⟩ := looser k' rfl
      have : ¬ k ≤ n := by simpa using within
      simp
      omega

namespace Search

/-- The same options with a budget of decisions that is no smaller. -/
structure Options.Looser (o o' : Options) : Prop where
  phase : o'.phase = o.phase
  simplify : o'.simplify = o.simplify
  decisionLimit : EqualityLogic.Looser o.decisionLimit o'.decisionLimit

variable {τ : Type} [Theory τ] {o o' : Options} {oversight : Oversight}

omit [Theory τ] in
/-- A decision is made with both budgets, unless the smaller one is used up and ends the search. The
larger one may be used up at the same time. -/
theorem decide_looser {limit limit' : Option Nat} (looser : EqualityLogic.Looser limit limit')
    (s : State τ) (l : Literal) :
    s.decide l limit = s.decide l limit' ∨
      ∃ r, s.decide l limit = .done r ∧ r.answer = .ok .unknown := by
  unfold State.decide
  cases spent : limit.any (· ≤ s.decisions) with
  | true => exact .inr ⟨_, rfl, rfl⟩
  | false =>
      rw [looser.within spent]
      exact .inl rfl

/-- With a larger budget a search takes the same steps until the smaller one is used up. All steps
but those that decide are the same anyway. -/
theorem curtails_step (looser : o.Looser o') (oversight : Oversight) :
    Process.Curtails (step (τ := τ) o oversight) (step o' oversight)
      fun r => r.answer = .ok .unknown := by
  intro s
  unfold step
  split
  · exact .inl rfl
  · split
    · exact .inl rfl
    · unfold State.extend
      rw [looser.phase]
      split
      · exact .inl rfl
      · split
        · -- the one place where the budget matters
          exact decide_looser looser.decisionLimit s _
        · exact .inl rfl

omit [Theory τ] in
/-- A search with a larger budget starts in the same state, as the budget is kept in the options. -/
theorem start_looser (looser : o.Looser o') (f : Formula) (n : Nat) (theory : τ) :
    State.start o f n theory = State.start o' f n theory := by
  unfold State.start
  rw [looser.simplify]

/-- A search gives up with the clauses and the theory to which it has come. So what the other search
has in the same state can be compared with the result. -/
theorem Halt.eq_of_unknown {s : State τ} {r : Result τ} (halt : Halt o oversight s r)
    (unknown : r.answer = .ok .unknown) : r = ⟨.ok .unknown, s.clauses, s.theory⟩ := by
  cases halt with
  | unknown => rfl
  | _ => cases unknown

/-- A search that ends within its budget ends in the same way with a larger one. Where it gives up,
the other one comes by too, in the state `t`. -/
theorem ends_looser (looser : o.Looser o') {f : Formula} {n : Nat} {theory : τ} {r : Result τ}
    (ends : Process.Ends (step o oversight) (.start o f n theory) r) :
    Process.Ends (step o' oversight) (.start o' f n theory) r ∨
      ∃ t, Process.Reaches (step o' oversight) (.start o' f n theory) t ∧
        r = ⟨.ok .unknown, t.clauses, t.theory⟩ := by
  rw [start_looser looser] at ends
  rcases (curtails_step looser oversight).ends ends with same | ⟨unknown, t, reached, last⟩
  · exact .inl same
  · exact .inr ⟨t, reached, (halt_of_step last).eq_of_unknown unknown⟩

/-- The answer for a formula alone stays with a larger budget, unless there was none. Lazy
refinement needs it in this form, for the search of each round. -/
theorem solve_looser (looser : o.Looser o') (f : Formula) (n : Nat) :
    solve o f n = solve o' f n ∨ solve o f n = .ok .unknown := by
  have ends' := ends_solveWith o' f n EmptyTheory.mk .complete
  rcases ends_looser looser (ends_solveWith o f n EmptyTheory.mk .complete) with
    ends | ⟨t, -, unknown⟩
  · exact .inl (congrArg Result.answer (ends.unique ends'))
  · exact .inr (congrArg Result.answer unknown)

end Search

end EqualityLogic
