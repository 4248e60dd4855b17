import EqualityLogic.Counting
import EqualityLogic.Integration.Refinement

/-!
# Refinement ends

Lazy refinement makes no endless run with an engine whose assignments satisfy the clauses it is
given (`acc_start`), so it has an outcome (`solve`, `ends_solve`).

The measure counts the valuations of the problem's variables under which the clauses hold. The
assignment that a round rejects is one of them, and the clause learned from it rules it out
(`satCount_append_lt`). Valuations are counted as the numbers whose binary forms they are, so that
the count is a plain one over a range.
-/

set_option autoImplicit false

namespace EqualityLogic.Refinement

/-! ### Counting valuations -/

/-- A valuation under which all variables from `n` on are false is the binary form of a number below
`2 ^ n`, so the valuations that matter to a problem can be counted as the numbers of a range. -/
theorem exists_testBit_eq {n : Nat} {ρ : Valuation} (h : ∀ v, n ≤ v → ρ v = false) :
    ∃ k, k < Nat.pow 2 n ∧ ∀ v, k.testBit v = ρ v := by
  let bits := (List.range n).map ρ
  have length : bits.length = n := by simp [bits]
  refine ⟨(BitVec.ofBoolListLE bits).toNat, length ▸ BitVec.isLt _, fun v => ?_⟩
  rw [BitVec.testBit_toNat, BitVec.getLsbD_ofBoolListLE]
  by_cases inside : v < n
  · simp [bits, inside]
  · rw [h v (by omega)]
    simp [bits, inside]

/-- The number of valuations of the variables up to `n` under which a formula holds. -/
def satCount (n : Nat) (f : Formula) : Nat :=
  (List.range (Nat.pow 2 (n + 1))).countP fun k => f.holds fun v => k.testBit v

/-- Ruling out a valuation under which a formula holds lowers the count. The valuation has to be
false beyond `n`: the count runs over those only, and would not notice that another one is gone. -/
theorem satCount_append_lt {n : Nat} {f : Formula} {c : Clause} {ρ : Valuation}
    (support : ∀ v, n < v → ρ v = false) (holds : f.holds ρ = true) (out : c.holds ρ = false) :
    satCount n (f ++ [c]) < satCount n f := by
  obtain ⟨k, hk, hbits⟩ := exists_testBit_eq (n := n + 1) support
  have e : (fun v => k.testBit v) = ρ := funext hbits
  -- a valuation that satisfies the longer formula satisfies the shorter one, and `k` is lost
  refine countP_lt_countP (fun j _ hj => ?_) (List.mem_range.2 hk) ?_ ?_
  · rw [Formula.holds_append, Bool.and_eq_true] at hj
    exact hj.1
  · rw [e]; exact holds
  · rw [e, Formula.holds_append, Bool.and_eq_false_iff]
    exact .inr (by simp [Formula.holds, out])

/-! ### Rounds -/

variable {n : Nat} {ε : Type}

/-- A round that another one follows found an assignment that the theory rejected and explained. The
equation says all that such a round changes: one clause at the end, one more check, and what the
engine and the theory have become. -/
theorem exists_of_step_eq_next {solve : ε → Formula → Nat → Except TheoryError Answer × ε}
    {limit : Option Nat} {numVars : Nat} {s s' : State n ε}
    (h : step solve limit numVars s = .next s') :
    ∃ m c, (solve s.engine s.clauses numVars).1 = .ok (.sat m) ∧
      (s.theory.check m).verdict = .inconsistent ∧ (s.theory.check m).learn.1 = .ok c ∧
      s' = {
        clauses := s.clauses ++ [c]
        lemmas := s.lemmas + 1
        theory := (s.theory.check m).learn.2
        engine := (solve s.engine s.clauses numVars).2 } := by
  rw [step] at h
  split at h
  · cases h
  · next m engine found =>
    simp only at h
    split at h
    · cases h
    · next rejected =>
      rw [State.refine] at h
      split at h
      · cases h
      · split at h
        · next c t explained =>
          cases h
          exact ⟨m, c, by rw [found], rejected, by rw [explained], by rw [found, explained]⟩
        · cases h
    · cases h
  · cases h

/-- An engine whose assignments are consistent and satisfy the formula, and name no variable beyond
those in sight. -/
def Sound (solve : ε → Formula → Nat → Except TheoryError Answer × ε) : Prop :=
  ∀ e f n m, (solve e f n).1 = .ok (.sat m) →
    m.Consistent ∧ f.holds m.valuation = true ∧ ∀ l ∈ m, l.var ≤ max n f.maxVar

/-- With a sound engine a round keeps the bound on variables and lowers the count. The assignment
that is rejected satisfies the clauses and contradicts the learned one, by the contract of theories,
so it is the valuation that goes. -/
theorem bounded_and_satCount_lt {solve : ε → Formula → Nat → Except TheoryError Answer × ε}
    (sound : Sound solve) {limit : Option Nat} {numVars : Nat} {s s' : State n ε}
    (le : s.clauses.maxVar ≤ numVars) (h : step solve limit numVars s = .next s') :
    s'.clauses.maxVar ≤ numVars ∧ satCount numVars s'.clauses < satCount numVars s.clauses := by
  obtain ⟨m, c, found, rejected, explained, rfl⟩ := exists_of_step_eq_next h
  obtain ⟨consistent, holds, bound⟩ := sound _ _ _ _ found
  rw [Nat.max_eq_left le] at bound
  have negated : ∀ l ∈ c, l.negate ∈ m := fun l hl =>
    LawfulTheory.negate_mem (t := s.theory) rejected explained hl
  refine ⟨Formula.maxVar_le fun d hd l hl => ?_,
    satCount_append_lt (fun v hv => ?_) holds (consistent.holds_eq_false negated)⟩
  -- the learned clause brings no variable that the assignment lacks
  · rcases List.mem_append.1 hd with hd | hd
    · exact Nat.le_trans (Formula.var_le_maxVar hd hl) le
    · rw [List.mem_singleton.1 hd] at hl
      rw [← Literal.var_negate]
      exact bound _ (negated l hl)
  · refine List.any_eq_false.2 fun l hl e => ?_
    rw [Bool.and_eq_true, beq_iff_eq] at e
    have := bound l hl
    omega

/-- Refinement of a problem with a sound engine makes no endless run, with or without a limit on the
rounds. `solve` runs on this fact, and needs no fuel. -/
theorem acc_start {solve : ε → Formula → Nat → Except TheoryError Answer × ε}
    (sound : Sound solve) (limit : Option Nat) (p : Problem) (engine : ε) :
    Acc (Process.Follows (step solve limit p.numVars)) (start p engine) :=
  Process.acc_of_measure (P := fun s => s.clauses.maxVar ≤ p.numVars)
    (fun _ _ le h => bounded_and_satCount_lt sound le h) (Nat.le_max_left _ _)

/-- The outcome of a problem with a sound engine, with what the engine has become. -/
def solve {engine : ε → Formula → Nat → Except TheoryError Answer × ε} (sound : Sound engine)
    (limit : Option Nat) (p : Problem) (e : ε) : Except TheoryError Outcome × ε :=
  Process.run (step engine limit p.numVars) (start p e) (acc_start sound limit p e)

/-- The rounds end with the outcome, which ties the function that is run to the relation that
theorems about refinement speak of. -/
theorem ends_solve {engine : ε → Formula → Nat → Except TheoryError Answer × ε}
    (sound : Sound engine) (limit : Option Nat) (p : Problem) (e : ε) :
    Process.Ends (step engine limit p.numVars) (start p e) (solve sound limit p e) :=
  Process.ends_run _ _

end EqualityLogic.Refinement
