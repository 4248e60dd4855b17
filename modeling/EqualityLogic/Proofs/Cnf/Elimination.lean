import EqualityLogic.Cnf.AsymmetricTautology
import EqualityLogic.Process

/-!
# Pruning as a run of small steps

`Formula.prune` is one pass over the clauses, with a propagation for each of them that goes on for
as long as it finds a new literal. `Elimination.step` is the same work one literal at a time: it
takes the next clause, adds one literal to those that are known, or keeps or drops the clause under
judgement. Nothing in it says that it comes to an end.

It does, since each literal that is added is new, and its negation stands in the formula
(`Clause.unknownCount_lt`). So a clause is judged in as many steps as the formula has literals, and
one more (`upTo_judging`), and the whole pass takes a number of steps that `prune_equivalent` bounds
by the size of the formula. The theorem also says what is left: some of the clauses, in their order,
with the same meaning. Each clause is dropped on the strength of clauses that are still there, and
the one that is dropped next may count on it no more (`Formula.holds_pruneFrom`).
-/

set_option autoImplicit false

namespace EqualityLogic

/-- What a pass over a formula is about to do. -/
inductive Elimination where
  /-- Some clauses are kept, and others are still to be judged. -/
  | between (kept rest : Formula)
  /-- A clause is judged, with the literals that are known to be false so far. -/
  | judging (kept : Formula) (c : Clause) (known : List Literal) (rest : Formula)
deriving DecidableEq

namespace Elimination

open Process (upTo)

/-- Takes a clause, or adds a literal to those that are known, or keeps or drops the clause. -/
def step : Elimination → Step Elimination Formula
  | .between kept [] => .done kept
  | .between kept (c :: rest) => .next (.judging kept c c rest)
  | .judging kept c known rest =>
    match (kept ++ rest).findSome? (Clause.asymmetric? known) with
    | none => .next (.between (kept ++ [c]) rest)
    | some l =>
      if l ∈ known then .next (.between kept rest)
      else .next (.judging kept c (l.negate :: known) rest)

/-- A run of one step more does that step first. Both bounds below are put together from it. -/
theorem upTo_succ {s s' : Elimination} (h : step s = .next s') (k : Nat) :
    upTo step (k + 1) s = upTo step k s' := by
  simp [upTo, h]

/-- The clauses that are kept once a clause has been judged. -/
def keptAfter (kept : Formula) (c : Clause) (known : List Literal) (rest : Formula) : Formula :=
  if Clause.refutes (kept ++ rest) known then kept else kept ++ [c]

/-- A clause is judged in few steps: each one makes a literal known whose negation the other clauses
hold, but the last. The number `j` is the clause's own, while `k` is whatever is left for those that
come after it. -/
theorem upTo_judging (kept : Formula) (c : Clause) (known : List Literal) (rest : Formula) :
    ∃ j ≤ Clause.unknownCount (kept ++ rest) known + 1, ∀ k,
      upTo step (k + j) (.judging kept c known rest) =
        upTo step k (.between (keptAfter kept c known rest) rest) := by
  unfold keptAfter
  fun_induction Clause.refutes (kept ++ rest) known with
  | case1 known found =>
      refine ⟨1, by omega, fun k => upTo_succ ?_ k⟩
      simp [step, found]
  | case2 known l found known_l =>
      refine ⟨1, by omega, fun k => upTo_succ ?_ k⟩
      simp [step, found, known_l]
  | case3 known l found unknown ih =>
      obtain ⟨j, hj, ends⟩ := ih
      -- one literal fewer is unknown, so the induction leaves room for this step
      have fewer := Clause.unknownCount_lt found
      refine ⟨j + 1, by omega, fun k => ?_⟩
      rw [← ends k, ← Nat.add_assoc]
      apply upTo_succ
      simp [step, found, unknown]

/-- No more can be made known than the clauses have literals, which gives one bound for all clauses
of a pass, whatever is known when they are judged. -/
theorem unknownCount_le (clauses : Formula) (known : List Literal) :
    Clause.unknownCount clauses known ≤ clauses.flatten.length :=
  List.countP_le_length

/-- The clauses that are kept or still to be judged have no more literals than before, so the bound
of a pass holds to its end. -/
theorem length_keptAfter_le (kept : Formula) (c : Clause) (known : List Literal)
    (rest : Formula) :
    (keptAfter kept c known rest ++ rest).flatten.length ≤
      (kept ++ c :: rest).flatten.length := by
  unfold keptAfter
  split <;> simp

/-- A pass over `rest` takes two steps for each clause, and one for each literal that the clause
makes known. The induction is on the clauses to come, with one bound `b` for all of them. -/
theorem upTo_between (kept rest : Formula) {b : Nat}
    (bound : (kept ++ rest).flatten.length ≤ b) :
    ∃ k ≤ rest.length * (b + 2) + 1,
      upTo step k (.between kept rest) = some (Formula.pruneFrom kept rest) := by
  induction rest generalizing kept with
  | nil => exact ⟨1, by omega, rfl⟩
  | cons c rest ih =>
      have smaller := length_keptAfter_le kept c c rest
      obtain ⟨k, hk, ends⟩ := ih (keptAfter kept c c rest) (by omega)
      obtain ⟨j, hj, judged⟩ := upTo_judging kept c c rest
      refine ⟨k + j + 1, ?_, ?_⟩
      · have count := unknownCount_le (kept ++ rest) c
        have less : (kept ++ rest).flatten.length ≤ (kept ++ c :: rest).flatten.length := by simp
        -- a step to take the clause, and one for each literal that can be made known
        rw [List.length_cons, Nat.succ_mul]
        omega
      · rw [upTo_succ rfl, judged, ends, Formula.pruneFrom]
        unfold keptAfter Clause.isAsymmetricTautology
        split <;> rfl

/-- A pass ends within a number of steps that the size of the formula bounds. It leaves some of the
clauses, in their order, and these hold under the same valuations. The first part is about the pass
as it is run, one literal at a time, and says that what it ends with is `Formula.prune`. -/
theorem prune_equivalent (f : Formula) :
    (∃ k ≤ f.length * (f.flatten.length + 2) + 1, upTo step k (.between [] f) = some f.prune) ∧
    f.prune.Sublist f ∧
    ∀ ρ, f.prune.holds ρ = f.holds ρ := by
  refine ⟨?_, f.prune_sublist, ?_⟩
  · exact upTo_between [] f (Nat.le_refl _)
  · intro ρ
    exact Formula.holds_prune ρ f

end Elimination

end EqualityLogic
