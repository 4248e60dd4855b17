import EqualityLogic.Search.Invariant

/-!
# What a trail entails

Why a search may answer that a formula has no satisfying assignment. Call a trail *entailed* by a
formula when each of its literals that is no decision follows from the formula and the decisions
before it. Every move of a search keeps the trail entailed by the clauses it works on
(`Move.entailed`), with any theory and whatever the theory learns:

* a literal that a clause forces follows, since all others of the clause are false
  (`Entailed.holds_of_unit?`);
* when a clause is false, the decisions cannot all hold (`Entailed.not_decisionsHold`), so the
  negation of the latest one follows from those before it (`Entailed.backtrackFrom`);
* a clause that is learned makes more literals follow, not fewer (`Entailed.mono`).

When a clause is false and no decision is left, nothing but the formula is to blame
(`Halt.unsat_of_unsat`). The clauses that were pruned play no part, because the clauses that the
search works on mean the same as all clauses.
-/

set_option autoImplicit false

namespace EqualityLogic

namespace Trail

/-- The decisions among some entries hold. -/
def DecisionsHold (ρ : Valuation) (es : List (Literal × Reason)) : Prop :=
  ∀ e ∈ es, e.2 = .decision → e.1.holds ρ = true

/-- The decisions among the older entries hold if all do. -/
theorem DecisionsHold.tail {ρ : Valuation} {e : Literal × Reason} {es : List (Literal × Reason)}
    (h : DecisionsHold ρ (e :: es)) : DecisionsHold ρ es :=
  fun d hd => h d (List.mem_cons_of_mem e hd)

/-- Each literal that is no decision follows from the formula and the decisions before it. -/
def Entailed (f : Formula) : List (Literal × Reason) → Prop
  | [] => True
  | (l, r) :: es =>
    (r ≠ .decision → ∀ ρ, f.holds ρ = true → DecisionsHold ρ es → l.holds ρ = true) ∧
      Entailed f es

/-- Where the formula and the decisions hold, the whole trail does, by induction from its oldest
entry. -/
theorem Entailed.holds {f : Formula} {es : List (Literal × Reason)} (h : Entailed f es)
    {ρ : Valuation} (hf : f.holds ρ = true) (hd : DecisionsHold ρ es) :
    ∀ e ∈ es, e.1.holds ρ = true := by
  induction es with
  | nil => intro e he; cases he
  | cons e es ih =>
      obtain ⟨l, r⟩ := e
      intro e he
      rcases List.mem_cons.1 he with rfl | he
      · by_cases hr : r = .decision
        · exact hd (l, r) List.mem_cons_self hr
        · exact h.1 hr ρ hf hd.tail
      · exact ih h.2 hd.tail e he

/-- A stronger formula entails what a weaker one does. It is why learned clauses need not be looked
at. -/
theorem Entailed.mono {f g : Formula} (stronger : ∀ ρ, g.holds ρ = true → f.holds ρ = true)
    {es : List (Literal × Reason)} (h : Entailed f es) : Entailed g es := by
  induction es with
  | nil => trivial
  | cons e es ih =>
      obtain ⟨l, r⟩ := e
      exact ⟨fun hr ρ hg hd => h.1 hr ρ (stronger ρ hg) hd, ih h.2⟩

/-- A literal that the formula and the decisions force may be pushed, and so may any decision. The
decisions are those before it, which is what will be left when it is taken off again. -/
theorem Entailed.push {f : Formula} {t : Trail} (h : Entailed f t.entries) {l : Literal}
    {r : Reason} (follows : r ≠ .decision → ∀ ρ, f.holds ρ = true → DecisionsHold ρ t.entries →
      l.holds ρ = true) : Entailed f (t.push l r).entries :=
  ⟨follows, h⟩

/-- Where the formula refutes the decisions, the negation of the latest one follows from those
before it. The entries above that decision are gone, so what they rested on does not matter. -/
theorem Entailed.backtrackFrom {f : Formula} {values : Values} {es : List (Literal × Reason)}
    {t : Trail} (h : Entailed f es) (refuted : ∀ ρ, f.holds ρ = true → ¬ DecisionsHold ρ es)
    (back : Trail.backtrackFrom values es = some t) : Entailed f t.entries := by
  induction es generalizing values with
  | nil => cases back
  | cons e es ih =>
      obtain ⟨l, r⟩ := e
      -- the decisions of the rest, with the head among them if it is one
      have hcons : ∀ ρ, DecisionsHold ρ es → (r = .decision → l.holds ρ = true) →
          DecisionsHold ρ ((l, r) :: es) := by
        intro ρ hd hl e he hr
        rcases List.mem_cons.1 he with rfl | he
        · exact hl hr
        · exact hd e he hr
      rw [Trail.backtrackFrom] at back
      split at back
      · -- the head is the latest decision: were it true, all decisions would hold
        cases back
        refine Entailed.push h.2 fun _ ρ hf hd => ?_
        rw [Literal.holds_negate]
        cases hl : l.holds ρ with
        | false => rfl
        | true => exact absurd (hcons ρ hd fun _ => hl) (refuted ρ hf)
      · -- the head follows from the rest, so the decisions of the rest are refuted already
        next hr =>
        exact ih h.2 (fun ρ hf hd => refuted ρ hf (hcons ρ hd fun e => absurd e hr)) back

/-- Stepping back finds nothing just if there is no decision. The table of values has no part in
that. -/
theorem backtrackFrom_eq_none_iff {values : Values} {es : List (Literal × Reason)} :
    Trail.backtrackFrom values es = none ↔ ∀ e ∈ es, e.2 ≠ .decision := by
  induction es generalizing values with
  | nil => simp [Trail.backtrackFrom]
  | cons e es ih =>
      obtain ⟨l, r⟩ := e
      rw [Trail.backtrackFrom, List.forall_mem_cons]
      split
      · next decision => simp [decision]
      · next hr => rw [ih, and_iff_right hr]

/-- Where the formula refutes the decisions and there are none, it cannot hold: any valuation makes
all of no decisions hold. -/
theorem unsat_of_backtrackFrom_eq_none {f : Formula} {values : Values}
    {es : List (Literal × Reason)} (refuted : ∀ ρ, f.holds ρ = true → ¬ DecisionsHold ρ es)
    (back : Trail.backtrackFrom values es = none) (ρ : Valuation) : f.holds ρ = false := by
  -- stepping back found nothing, so the condition on decisions is empty
  have noDecision := backtrackFrom_eq_none_iff.1 back
  cases hf : f.holds ρ with
  | false => rfl
  | true => exact absurd (fun e he hr => absurd hr (noDecision e he)) (refuted ρ hf)

/-- A false literal of a trail does not hold where the formula and the decisions do, since its
negation is on the trail and holds there. -/
theorem Entailed.holds_eq_false {f : Formula} {t : Trail} (h : Entailed f t.entries)
    (wf : t.WellFormed) {ρ : Valuation} (hf : f.holds ρ = true) (hd : DecisionsHold ρ t.entries)
    {l : Literal} (hl : t.value l = some false) : l.holds ρ = false := by
  obtain ⟨r, hr⟩ := wf.value_eq_some_false.1 hl
  have hneg : l.negate.holds ρ = true := h.holds hf hd _ hr
  rw [Literal.holds_negate] at hneg
  simpa using hneg

/-- A formula with a false clause refutes the decisions: where they hold, so does the trail, and the
clause fails. -/
theorem Entailed.not_decisionsHold {f : Formula} {t : Trail} (h : Entailed f t.entries)
    (wf : t.WellFormed) (conflict : f.value t = some false) (ρ : Valuation)
    (hf : f.holds ρ = true) : ¬ DecisionsHold ρ t.entries := by
  intro hd
  obtain ⟨c, hc, hfalse⟩ := Formula.value_eq_some_false.1 conflict
  obtain ⟨l, hl, hlρ⟩ := Clause.holds_iff.1 (Formula.holds_iff.1 hf c hc)
  have := h.holds_eq_false wf hf hd (Clause.value_eq_some_false.1 hfalse l hl)
  rw [hlρ] at this
  cases this

/-- A forced literal follows from the formula and the decisions, as the others of its clause are
false. -/
theorem Entailed.holds_of_unit? {f : Formula} {t : Trail} (h : Entailed f t.entries)
    (wf : t.WellFormed) {l : Literal} (forced : f.unit? t = some l) (ρ : Valuation)
    (hf : f.holds ρ = true) (hd : DecisionsHold ρ t.entries) : l.holds ρ = true := by
  obtain ⟨c, hc, hunit⟩ := Formula.unit?_eq_some forced
  obtain ⟨k, hk, hkρ⟩ := Clause.holds_iff.1 (Formula.holds_iff.1 hf c hc)
  -- the literal of the clause that holds can only be the one that is not false
  obtain ⟨_, _, others⟩ := Clause.unit?_eq_some_iff.1 hunit
  rcases others k hk with rfl | hv
  · exact hkρ
  · have := h.holds_eq_false wf hf hd hv
    rw [hkρ] at this
    cases this

end Trail

namespace Search

variable {τ : Type} [Theory τ] {o : Options} {oversight : Oversight} {s s' : State τ}

/-- A search keeps its trail entailed by the clauses it works on. Nothing is asked of a learned
clause: with more clauses there is less that satisfies them all. -/
theorem Move.entailed (m : Move o oversight s s') (wf : s.trail.WellFormed)
    (h : Trail.Entailed s.working s.trail.entries) :
    Trail.Entailed s'.working s'.trail.entries := by
  cases m with
  | backtrack conflict back => exact h.backtrackFrom (h.not_decisionsHold wf conflict) back
  | approve => exact h
  | learn =>
      refine h.mono fun ρ hg => ?_
      rw [Formula.holds_append, Bool.and_eq_true] at hg
      exact hg.1
  | propagate _ _ forced => exact h.push fun _ => h.holds_of_unit? wf forced
  | decide => exact h.push fun hr => absurd rfl hr
  | complete => exact h.push fun hr => absurd rfl hr

/-- A search ends without an assignment only if its clauses cannot be satisfied. The pruned ones are
counted in, as `same` says. -/
theorem Halt.unsat_of_unsat {r : Result τ} (halt : Halt o oversight s r)
    (unsat : r.answer = .ok .unsat) (wf : s.trail.WellFormed)
    (h : Trail.Entailed s.working s.trail.entries) (same : s.SameMeaning) (ρ : Valuation) :
    r.clauses.holds ρ = false := by
  cases halt with
  | unsat conflict back =>
      show s.clauses.holds ρ = false
      rw [← same]
      exact Trail.unsat_of_backtrackFrom_eq_none (h.not_decisionsHold wf conflict) back ρ
  | _ => cases unsat

end Search

end EqualityLogic
