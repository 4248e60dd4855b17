import EqualityLogic.Proofs.Cnf.UnitRule
import EqualityLogic.Proofs.Search.Soundness
import EqualityLogic.Search.Solve

/-!
# Search without decisions

A search of a formula alone whose budget allows no decision is unit propagation
(`solve_propagation`). It answers that there is no assignment just if the unit rule makes a clause
false, it finds an assignment just if the rule makes all clauses true, and it gives up in all other
cases.

The search uses the rule in one order, and it stops as soon as a clause is false or all clauses are
true. Up to then the trail holds no decision, so it is a run of the rule. Where the search ends,
this run can go no further: with a clause open since no clause forces a literal
(`State.Propagated.closed_of_stuck`), and with all clauses true since each of them has a true
literal already (`State.Propagated.closed_of_settledBy`). The decisions that are made after that are
free and complete the assignment. They leave the run as it is, and no clause that is true becomes
false, so they are never taken back.
-/

set_option autoImplicit false

namespace EqualityLogic

namespace Trail

/-- The literals of a trail that were not decided, the latest first. -/
def derived (t : Trail) : List Literal := (t.entries.filter fun e => e.2 ≠ .decision).map Prod.fst

/-- A literal is derived if it is on the trail for another reason than a decision. -/
theorem mem_derived {t : Trail} {l : Literal} :
    l ∈ t.derived ↔ ∃ r, (l, r) ∈ t.entries ∧ r ≠ .decision := by
  simp [derived]

/-- A literal that is forced joins the derived ones, in front of those before it. -/
theorem derived_push_of_ne (t : Trail) (l : Literal) {r : Reason} (hr : r ≠ .decision) :
    (t.push l r).derived = l :: t.derived := by
  simp [derived, push, hr]

/-- A literal that is decided does not. So a decision leaves the run of the unit rule as it is. -/
theorem derived_push_decision (t : Trail) (l : Literal) :
    (t.push l .decision).derived = t.derived := by
  simp [derived, push]

/-- A literal that was derived is true, by what the table of a well-formed trail says. -/
theorem WellFormed.value_of_mem_derived {t : Trail} (h : t.WellFormed) {l : Literal}
    (hl : l ∈ t.derived) : t.value l = some true := by
  obtain ⟨r, hr, -⟩ := mem_derived.1 hl
  exact h.value_eq_some_true.2 ⟨r, hr⟩

/-- The literals that are known to be false by a run of the unit rule, if the trail is one. -/
def refuted (t : Trail) : List Literal := t.derived.map Literal.negate

/-- A literal is refuted if its negation was derived. -/
theorem mem_refuted {t : Trail} {l : Literal} : l ∈ t.refuted ↔ l.negate ∈ t.derived := by
  unfold refuted
  rw [List.mem_map]
  constructor
  · rintro ⟨k, hk, rfl⟩
    rwa [Literal.negate_negate]
  · intro hl
    exact ⟨l.negate, hl, Literal.negate_negate l⟩

/-- A literal that was refuted is false. -/
theorem WellFormed.value_of_mem_refuted {t : Trail} (h : t.WellFormed) {l : Literal}
    (hl : l ∈ t.refuted) : t.value l = some false := by
  have htrue := h.value_of_mem_derived (mem_refuted.1 hl)
  rw [value_negate] at htrue
  cases hv : t.value l with
  | none => simp [hv] at htrue
  | some b => simpa [hv] using htrue

end Trail

namespace Search

/-- The derived literals make each clause true. -/
def SettledBy (g : Formula) (t : Trail) : Prop := ∀ c ∈ g, ∃ l ∈ c, l ∈ t.derived

/-- What a search without a budget keeps. The derived literals are a run of the unit rule, and
decisions are made only once these literals make each clause true. -/
structure State.Propagated {τ : Type} (g : Formula) (phase : Bool) (s : State τ) : Prop where
  working : s.working = g
  wellFormed : s.trail.WellFormed
  run : Clause.Extends g [] s.trail.refuted
  decided : ∀ e ∈ s.trail.entries, e.2 = .decision →
    e.1.isNegated = (!phase) ∧ SettledBy g s.trail

section

variable {τ : Type} {g : Formula} {phase : Bool} {s : State τ}

/-- A clause of a settled formula is true, whatever has been decided since. -/
theorem State.Propagated.value_of_settledBy (h : s.Propagated g phase)
    (settled : SettledBy g s.trail) {c : Clause} (hc : c ∈ g) : c.value s.trail = some true := by
  obtain ⟨l, hl, mem⟩ := settled c hc
  exact Clause.value_eq_some_true.2 ⟨l, hl, h.wellFormed.value_of_mem_derived mem⟩

/-- While not all clauses are true, nothing has been decided, so the true literals are the derived
ones. -/
theorem State.Propagated.mem_derived (h : s.Propagated g phase)
    (unsettled : ¬ SettledBy g s.trail) {l : Literal} :
    l ∈ s.trail.derived ↔ s.trail.value l = some true := by
  constructor
  · exact h.wellFormed.value_of_mem_derived
  · intro htrue
    obtain ⟨r, hr⟩ := h.wellFormed.value_eq_some_true.1 htrue
    exact Trail.mem_derived.2 ⟨r, hr, fun decision => unsettled (h.decided _ hr decision).2⟩

/-- Likewise, the false literals are the refuted ones. -/
theorem State.Propagated.mem_refuted (h : s.Propagated g phase)
    (unsettled : ¬ SettledBy g s.trail) {l : Literal} :
    l ∈ s.trail.refuted ↔ s.trail.value l = some false := by
  rw [Trail.mem_refuted, h.mem_derived unsettled, Trail.value_negate]
  cases s.trail.value l with
  | none => simp
  | some b => cases b <;> simp

/-- Where all clauses are true, the unit rule can go no further: a clause with a derived literal has
one that is not refuted, and that is the only one it could force. -/
theorem State.Propagated.closed_of_settledBy (h : s.Propagated g phase)
    (settled : SettledBy g s.trail) : Clause.Closed g s.trail.refuted := by
  intro c hc l _ rest
  obtain ⟨k, hk, mem⟩ := settled c hc
  rcases rest k hk with rfl | refuted
  · rwa [Trail.mem_refuted, Literal.negate_negate]
  · -- a literal that was derived has not been refuted
    have htrue := h.wellFormed.value_of_mem_derived mem
    rw [h.wellFormed.value_of_mem_refuted refuted] at htrue
    cases htrue

/-- Where no clause is false and none forces a literal, the unit rule can go no further. As nothing
has been decided, what is false has been refuted, and the rule sees what the search sees. -/
theorem State.Propagated.closed_of_stuck (h : s.Propagated g phase)
    (unsettled : ¬ SettledBy g s.trail) (noConflict : g.value s.trail ≠ some false)
    (noUnit : g.unit? s.trail = none) : Clause.Closed g s.trail.refuted := by
  intro c hc l hl rest
  have others : ∀ k ∈ c, k = l ∨ s.trail.value k = some false := by
    intro k hk
    exact (rest k hk).imp_right (h.mem_refuted unsettled).1
  rw [h.mem_refuted unsettled, Trail.value_negate]
  cases hv : s.trail.value l with
  | none =>
      -- the clause would force the literal
      have forced := Clause.unit?_eq_some_iff.2 ⟨hl, hv, others⟩
      rw [List.findSome?_eq_none_iff.1 noUnit c hc] at forced
      cases forced
  | some b =>
      cases b with
      | true => rfl
      | false =>
          -- all literals of the clause would be false
          have allFalse : ∀ k ∈ c, s.trail.value k = some false := by
            intro k hk
            rcases others k hk with rfl | false_
            · exact hv
            · exact false_
          have conflict := Formula.value_eq_some_false.2
            ⟨c, hc, Clause.value_eq_some_false.2 allFalse⟩
          exact absurd conflict noConflict

/-- While no clause is false and none is open, the derived literals make all clauses true. If some
of them were true by decisions only, these had been made too early. -/
theorem State.Propagated.settledBy (h : s.Propagated g phase)
    (noConflict : g.value s.trail ≠ some false) (noFree : g.free? s.trail = none) :
    SettledBy g s.trail := by
  by_contra unsettled
  refine unsettled fun c hc => ?_
  have htrue := Formula.value_eq_some_true_of_mem noConflict noFree hc
  obtain ⟨l, hl, hv⟩ := Clause.value_eq_some_true.1 htrue
  exact ⟨l, hl, (h.mem_derived unsettled).2 hv⟩

/-- Where the unit rule can go no further, the derived literals are those that are forced, in
whatever order the rule is used. -/
theorem State.Propagated.forces_iff (h : s.Propagated g phase)
    (closed : Clause.Closed g s.trail.refuted) {l : Literal} :
    g.Forces l ↔ l ∈ s.trail.derived := by
  rw [Formula.forces_iff h.run closed, Trail.mem_refuted, Literal.negate_negate]

/-- So the formula is settled by the rule just if the derived literals settle it. `Formula.Settled`
speaks of the rule in any order, and the trail of one. -/
theorem State.Propagated.settled_iff (h : s.Propagated g phase)
    (closed : Clause.Closed g s.trail.refuted) : g.Settled ↔ SettledBy g s.trail := by
  unfold Formula.Settled SettledBy
  simp only [h.forces_iff closed]

/-- If no clause is false then, none can be made false, in whatever order the rule is used. -/
theorem State.Propagated.not_contradictory (h : s.Propagated g phase)
    (closed : Clause.Closed g s.trail.refuted) (noConflict : g.value s.trail ≠ some false) :
    ¬ g.Contradictory := by
  rw [Formula.contradictory_iff h.run closed]
  intro ⟨c, hc, refuted⟩
  refine noConflict (Formula.value_eq_some_false.2 ⟨c, hc, Clause.value_eq_some_false.2 ?_⟩)
  intro l hl
  exact h.wellFormed.value_of_mem_refuted (refuted l hl)

/-- With a clause false or open, not all clauses are true. It rules out decisions up to that point.
-/
theorem State.Propagated.not_settledBy (h : s.Propagated g phase) {c : Clause} (hc : c ∈ g)
    (hv : c.value s.trail ≠ some true) : ¬ SettledBy g s.trail := by
  intro settled
  exact hv (h.value_of_settledBy settled hc)

/-- A forced literal is derived by one more use of the unit rule. The clause that forces it is open,
so no decision has been made yet. -/
theorem State.Propagated.assume_forced (h : s.Propagated g phase) {l : Literal}
    (forced : g.unit? s.trail = some l) : (s.assume l .propagation).Propagated g phase := by
  obtain ⟨c, hc, hunit⟩ := Formula.unit?_eq_some forced
  obtain ⟨hl, free, others⟩ := Clause.unit?_eq_some_iff.1 hunit
  -- the clause is open, so the derived literals do not settle it yet
  have unsettled : ¬ SettledBy g s.trail := by
    refine h.not_settledBy hc ?_
    simp [(Clause.unit?_eq_some hunit).2.2.1]
  refine ⟨h.working, h.wellFormed.push _ (Trail.value_eq_none.1 free), ?_, ?_⟩
  · have rest : ∀ k ∈ c, k = l ∨ k ∈ s.trail.refuted := by
      intro k hk
      exact (others k hk).imp_right (h.mem_refuted unsettled).2
    show Clause.Extends g [] ((s.trail.push l .propagation).derived.map Literal.negate)
    rw [Trail.derived_push_of_ne s.trail l (by decide)]
    exact h.run.add hc hl rest
  · intro e he decision
    rcases List.mem_cons.1 he with rfl | he
    · cases decision
    · -- no decision has been made before all clauses are true
      exact absurd (h.decided e he decision).2 unsettled

/-- A decision leaves the derived literals as they are. It is made only once they settle the
formula, and with the sign that the phase says. -/
theorem State.Propagated.assume_decision (h : s.Propagated g phase)
    (settled : SettledBy g s.trail) {l : Literal} (free : s.trail.values.lookup l.var = none)
    (sign : l.isNegated = !phase) : (s.assume l .decision).Propagated g phase := by
  have same : (s.assume l .decision).trail.derived = s.trail.derived :=
    s.trail.derived_push_decision l
  refine ⟨h.working, h.wellFormed.push _ free, ?_, ?_⟩
  · unfold Trail.refuted
    rw [same]
    exact h.run
  · intro e he decision
    unfold SettledBy
    rw [same]
    rcases List.mem_cons.1 he with rfl | he
    · exact ⟨sign, settled⟩
    · exact h.decided e he decision

end

variable {g : Formula} {o : Options} {s s' : State EmptyTheory}

/-- Without a budget, every move is a use of the unit rule, or completes the assignment. In
particular no decision is ever reversed. -/
theorem Move.propagated (m : Move o .complete s s') (budget : o.decisionLimit = some 0)
    (h : s.Propagated g o.phase) : s'.Propagated g o.phase := by
  cases m with
  | backtrack conflict back =>
      rw [h.working] at conflict
      obtain ⟨c, hc, hfalse⟩ := Formula.value_eq_some_false.1 conflict
      have unsettled := h.not_settledBy hc (by simp [hfalse])
      -- nothing has been decided, so there is nothing to take back
      have noDecision : ∀ e ∈ s.trail.entries, e.2 ≠ .decision := by
        intro e he decision
        exact unsettled (h.decided e he decision).2
      rw [Trail.backtrack?, Trail.backtrackFrom_eq_none_iff.2 noDecision] at back
      cases back
  | approve _ due => cases due.1
  | learn _ _ judged => cases judged
  | propagate _ _ forced =>
      rw [h.working] at forced
      exact h.assume_forced forced
  | decide _ _ _ _ within =>
      rw [budget] at within
      simp at within
  | complete noConflict _ _ noFree left =>
      rw [h.working] at noConflict noFree
      refine h.assume_decision (h.settledBy noConflict noFree) ?_ ?_
      · rw [Literal.var_withPolarity]
        exact (Trail.firstFree?_eq_some left).2
      · rw [Literal.isNegated_withPolarity, Trail.isNegated_of_firstFree?_eq_some left]
        cases o.phase <;> rfl

/-- A search starts with no literal derived, and works on the clauses that pruning has left. -/
theorem propagated_start (o : Options) (f : Formula) (n : Nat) (theory : EmptyTheory) :
    (State.start o f n theory).Propagated (if o.simplify then f.prune else f) o.phase where
  working := rfl
  wellFormed := Trail.wellFormed_empty _
  run := .start
  decided e he := by cases he

/-- What a search without a budget answers, and when. The three answers go with three states of the
rule: a clause made false, all clauses made true, or neither when it can go no further. -/
theorem Halt.propagated {r : Result EmptyTheory} (halt : Halt o .complete s r)
    (h : s.Propagated g o.phase) :
    (r.answer = .ok .unsat ∧ g.Contradictory) ∨
    (r.answer = .ok (.sat s.trail.assignment) ∧ ¬ g.Contradictory ∧ g.Settled ∧
      (∀ l, g.Forces l → l ∈ s.trail.assignment) ∧
      ∀ l ∈ s.trail.assignment, g.Forces l ∨ l.isNegated = !o.phase) ∨
    (r.answer = .ok .unknown ∧ ¬ g.Contradictory ∧ ¬ g.Settled) := by
  cases halt with
  | unsat conflict _ =>
      rw [h.working] at conflict
      obtain ⟨c, hc, hfalse⟩ := Formula.value_eq_some_false.1 conflict
      have unsettled := h.not_settledBy hc (by simp [hfalse])
      refine .inl ⟨rfl, s.trail.refuted, h.run, c, hc, ?_⟩
      intro l hl
      exact (h.mem_refuted unsettled).2 (Clause.value_eq_some_false.1 hfalse l hl)
  | unknown noConflict _ noUnit free _ =>
      rw [h.working] at noConflict noUnit free
      obtain ⟨c, hc, hfree⟩ := Formula.free?_eq_some free
      obtain ⟨_, _, isOpen⟩ := Clause.free?_eq_some hfree
      have unsettled := h.not_settledBy hc (by simp [isOpen])
      have closed := h.closed_of_stuck unsettled noConflict noUnit
      refine .inr (.inr ⟨rfl, h.not_contradictory closed noConflict, ?_⟩)
      -- the open clause has no literal that is forced, since that would be true
      intro settled
      exact unsettled ((h.settled_iff closed).1 settled)
  | accept _ finished _ _ =>
      have noConflict := finished.noConflict
      have noFree := finished.noFree
      rw [h.working] at noConflict noFree
      have settled := h.settledBy noConflict noFree
      have closed := h.closed_of_settledBy settled
      refine .inr (.inl ⟨rfl, h.not_contradictory closed noConflict,
        (h.settled_iff closed).2 settled, ?_, ?_⟩)
      · intro l forced
        obtain ⟨r, hr, -⟩ := Trail.mem_derived.1 ((h.forces_iff closed).1 forced)
        exact Trail.mem_assignment.2 ⟨r, hr⟩
      · -- what was not derived was decided
        intro l hl
        obtain ⟨r, hr⟩ := Trail.mem_assignment.1 hl
        by_cases decision : r = .decision
        · exact .inr (h.decided _ hr decision).1
        · exact .inl ((h.forces_iff closed).2 (Trail.mem_derived.2 ⟨r, hr, decision⟩))
  | approved mode => cases mode
  | unexplained _ _ judged => cases judged

/-- The three ways in which a search without a budget ends. They exclude each other, so each answer
is given just in its own case. -/
theorem solve_cases_of_no_budget (budget : o.decisionLimit = some 0) (f : Formula) (n : Nat) :
    let g := if o.simplify then f.prune else f
    (solve o f n = .ok .unsat ∧ g.Contradictory) ∨
    (∃ m, solve o f n = .ok (.sat m) ∧ ¬ g.Contradictory ∧ g.Settled ∧
      m.Completes g o.phase (max n f.maxVar)) ∨
    (solve o f n = .ok .unknown ∧ ¬ g.Contradictory ∧ ¬ g.Settled) := by
  intro g
  have ends := ends_solveWith o f n EmptyTheory.mk .complete
  obtain ⟨s, h, halt⟩ := exists_halt_of_ends (P := State.Propagated g o.phase)
    (fun _ _ m h => m.propagated budget h) (propagated_start o f n EmptyTheory.mk) ends
  rcases halt.propagated h with unsat | ⟨sat, consistent, settled, forced, others⟩ | unknown
  · exact .inl unsat
  · have vars := (solves_of_ends ends sat).map_var_eq_range' (holds_of_solveWith sat).2.2
    exact .inr (.inl ⟨s.trail.assignment, sat, consistent, settled, vars, forced, others⟩)
  · exact .inr (.inr unknown)

/-- Search without a budget is unit propagation on the clauses that are left by pruning, if that is
asked for. The assignment that it finds adds nothing to the forced literals but the phase. -/
theorem solve_propagation (phase simplify : Bool) (f : Formula) (n : Nat) :
    let o : Options := { phase, decisionLimit := some 0, simplify }
    let g := if simplify then f.prune else f
    (solve o f n = .ok .unsat ↔ g.Contradictory) ∧
    (∀ m, solve o f n = .ok (.sat m) ↔
      ¬ g.Contradictory ∧ g.Settled ∧ m.Completes g phase (max n f.maxVar)) ∧
    (solve o f n = .ok .unknown ↔ ¬ g.Contradictory ∧ ¬ g.Settled) ∧
    (¬ g.Contradictory → g.Settled → ∃ m, solve o f n = .ok (.sat m)) := by
  intro o g
  have cases_ : (solve o f n = .ok .unsat ∧ g.Contradictory) ∨
      (∃ m, solve o f n = .ok (.sat m) ∧ ¬ g.Contradictory ∧ g.Settled ∧
        m.Completes g phase (max n f.maxVar)) ∨
      (solve o f n = .ok .unknown ∧ ¬ g.Contradictory ∧ ¬ g.Settled) :=
    solve_cases_of_no_budget (o := o) rfl f n
  rcases cases_ with ⟨h, contradictory⟩ | ⟨m, h, consistent, settled, completes⟩ |
    ⟨h, consistent, unsettled⟩
  · rw [h]
    simp [contradictory]
  · rw [h]
    refine ⟨by simp [consistent], ?_, by simp [settled], fun _ _ => ⟨m, rfl⟩⟩
    intro m'
    constructor
    · intro same
      cases same
      exact ⟨consistent, settled, completes⟩
    · -- there is only one completion
      rintro ⟨-, -, completes'⟩
      rw [completes.unique completes']
  · rw [h]
    simp [consistent, unsettled]

end Search

end EqualityLogic
