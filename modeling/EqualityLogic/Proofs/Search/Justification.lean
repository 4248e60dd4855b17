import EqualityLogic.Proofs.Search.Entailment

/-!
# Why each literal is on the trail

What can be said of the trail at any moment of a search, with any theory and whatever clauses it
gives (`trail_justified`). No variable is assigned twice, the table of values agrees with the trail,
and each literal that was not decided follows from the clauses that the search works on and the
decisions *before* it. Decisions that come later play no part, which is why such a literal may stay
when they are taken back.

So a false clause is the fault of the decisions. The search may give up just when there are none
left to blame (`step_eq_unsat_iff`), and then the clauses have no satisfying valuation.

The invariant is `Trail.Justified`, and each move keeps it (`Move.justified`). Its second half is
stated along the trail (`Trail.Entailed`); `Trail.Entailed.follows` reads it off at one literal.
-/

set_option autoImplicit false

namespace EqualityLogic

namespace Trail

/-- The trail is well formed, and its literals follow from the formula and the decisions before
them. -/
structure Justified (f : Formula) (t : Trail) : Prop where
  wellFormed : t.WellFormed
  entailed : Entailed f t.entries

/-- Nothing is to be justified on the empty trail. -/
theorem justified_empty (f : Formula) (n : Nat) : (empty n).Justified f where
  wellFormed := wellFormed_empty n
  entailed := trivial

/-- An entailed trail justifies each of its literals by what was there before it. The entries are
listed with the latest first, so these stand behind the literal. -/
theorem Entailed.follows {f : Formula} {since before : List (Literal × Reason)} {l : Literal}
    {r : Reason} (h : Entailed f (since ++ (l, r) :: before)) (hr : r ≠ .decision) {ρ : Valuation}
    (hf : f.holds ρ = true) (hd : DecisionsHold ρ before) : l.holds ρ = true := by
  -- what came later is taken off, entry by entry
  induction since with
  | nil => exact h.1 hr ρ hf hd
  | cons e since ih => exact ih h.2

/-- Where a clause is false and nothing was decided, the formula cannot hold. Then all of the trail
follows from the formula, and contradicts it. -/
theorem Justified.holds_eq_false {f : Formula} {t : Trail} (h : t.Justified f)
    (conflict : f.value t = some false) (noDecision : ∀ e ∈ t.entries, e.2 ≠ .decision)
    (ρ : Valuation) : f.holds ρ = false := by
  have refuted := h.entailed.not_decisionsHold h.wellFormed conflict
  have back : backtrackFrom t.values t.entries = none := backtrackFrom_eq_none_iff.2 noDecision
  exact unsat_of_backtrackFrom_eq_none refuted back ρ

end Trail

namespace Search

variable {τ : Type} [Theory τ] {o : Options} {oversight : Oversight} {s s' : State τ}

/-- Every move keeps the trail justified by the clauses that the search works on, in both respects.
-/
theorem Move.justified (m : Move o oversight s s') (h : s.trail.Justified s.working) :
    s'.trail.Justified s'.working where
  wellFormed := m.wellFormed h.wellFormed
  entailed := m.entailed h.wellFormed h.entailed

/-- The trail is justified in every state of a search, since the empty trail is and moves keep it.
-/
theorem justified_of_reaches {f : Formula} {n : Nat} {theory : τ}
    (reached : Process.Reaches (step o oversight) (.start o f n theory) s) :
    s.trail.Justified s.working :=
  reached.keeps (P := fun s => s.trail.Justified s.working)
    (fun _ _ h e => (move_of_step e).justified h) (Trail.justified_empty _ _)

/-- A search answers that there is no assignment just if a clause is false and no decision is left.
No other step gives this answer, so the equivalence holds in every state. -/
theorem step_eq_unsat_iff :
    step o oversight s = s.finish .unsat ↔
      s.working.value s.trail = some false ∧ ∀ e ∈ s.trail.entries, e.2 ≠ .decision := by
  constructor
  · intro h
    cases halt_of_step h with
    | unsat conflict back => exact ⟨conflict, Trail.backtrackFrom_eq_none_iff.1 back⟩
  · intro ⟨conflict, noDecision⟩
    have back : s.trail.backtrack? = none := Trail.backtrackFrom_eq_none_iff.2 noDecision
    rw [step, if_pos conflict, State.backtrack, back]

/-- What holds of the trail in every state that a search reaches, with any theory. In this order: no
variable is assigned twice; the table says what the trail says; a literal that was not decided
follows from the clauses and the decisions before it; and the search gives up just where a clause is
false without a decision, in which case the clauses cannot be satisfied. -/
theorem trail_justified {f : Formula} {n : Nat} {theory : τ}
    (reached : Process.Reaches (step o oversight) (.start o f n theory) s) :
    (s.trail.entries.map fun e => e.1.var).Nodup ∧
    (∀ v b, s.trail.values.lookup v = some b ↔
      ∃ e ∈ s.trail.entries, e.1.var = v ∧ (!e.1.isNegated) = b) ∧
    (∀ since l r before, s.trail.entries = since ++ (l, r) :: before → r ≠ .decision →
      ∀ ρ, s.working.holds ρ = true → Trail.DecisionsHold ρ before → l.holds ρ = true) ∧
    (step o oversight s = s.finish .unsat ↔
      s.working.value s.trail = some false ∧ ∀ e ∈ s.trail.entries, e.2 ≠ .decision) ∧
    (s.working.value s.trail = some false → (∀ e ∈ s.trail.entries, e.2 ≠ .decision) →
      ∀ ρ, s.working.holds ρ = false) := by
  have h := justified_of_reaches reached
  refine ⟨h.wellFormed.nodup, h.wellFormed.lookup_iff, ?_, step_eq_unsat_iff, h.holds_eq_false⟩
  intro since l r before split hr ρ hf hd
  have entailed := h.entailed
  rw [split] at entailed
  exact entailed.follows hr hf hd

/-- The decision -1 fails, since it makes 2 necessary and impossible. The literal 1 takes its place,
and makes 3 necessary and impossible, with no decision left. -/
theorem trail_justified_reversed :
    let p : Literal := ⟨1, by decide⟩
    let q : Literal := ⟨2, by decide⟩
    let r : Literal := ⟨3, by decide⟩
    let f : Formula := [[p, q], [p, q.negate], [p.negate, r], [p.negate, r.negate]]
    let t : Trail := ⟨[(r, .propagation), (p, .backjump)], #[none, some true, none, some true]⟩
    let s : State EmptyTheory := ⟨t, f, f, EmptyTheory.mk, 1, true⟩
    Process.Reaches (step { simplify := false } .complete)
        (.start { simplify := false } f 3 EmptyTheory.mk) s ∧
      (∀ ρ, f.holds ρ = true → p.holds ρ = true) ∧ ∀ ρ, f.holds ρ = false := by
  intro p q r f t s
  -- the trails on the way: the decision, what it forces, and its reversal
  let decided : Trail := ⟨[(p.negate, .decision)], #[none, some false, none, none]⟩
  let forced : Trail :=
    ⟨[(q, .propagation), (p.negate, .decision)], #[none, some false, some true, none]⟩
  let reversed : Trail := ⟨[(p, .backjump)], #[none, some true, none, none]⟩
  have reached : Process.Reaches (step { simplify := false } .complete)
      (.start { simplify := false } f 3 EmptyTheory.mk) s := by
    have start : State.start { simplify := false } f 3 EmptyTheory.mk =
        ⟨.empty 3, f, f, EmptyTheory.mk, 0, false⟩ := by
      have vars : f.maxVar = 3 := by decide
      simp [State.start, vars]
    have first : step { simplify := false } .complete ⟨.empty 3, f, f, EmptyTheory.mk, 0, false⟩ =
        .next ⟨decided, f, f, EmptyTheory.mk, 1, true⟩ := rfl
    have second : step { simplify := false } .complete ⟨decided, f, f, EmptyTheory.mk, 1, true⟩ =
        .next ⟨forced, f, f, EmptyTheory.mk, 1, true⟩ := rfl
    have third : step { simplify := false } .complete ⟨forced, f, f, EmptyTheory.mk, 1, true⟩ =
        .next ⟨reversed, f, f, EmptyTheory.mk, 1, true⟩ := rfl
    have fourth : step { simplify := false } .complete ⟨reversed, f, f, EmptyTheory.mk, 1, true⟩ =
        .next s := rfl
    rw [start]
    exact .next first (.next second (.next third (.next fourth (.refl s))))
  have h := trail_justified reached
  have conflict : s.working.value s.trail = some false := rfl
  have noDecision : ∀ e ∈ s.trail.entries, e.2 ≠ .decision := by simp [s, t]
  refine ⟨reached, ?_, h.2.2.2.2 conflict noDecision⟩
  -- nothing was decided before the literal took the place of its negation
  intro ρ hf
  have nothing : Trail.DecisionsHold ρ [] := by simp [Trail.DecisionsHold]
  exact h.2.2.1 [(r, .propagation)] p .backjump [] rfl (by decide) ρ hf nothing

end Search

end EqualityLogic
