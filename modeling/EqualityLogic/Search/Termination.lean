import EqualityLogic.Counting
import EqualityLogic.Search.Invariant

/-!
# Searches end

A search with a lawful theory makes no endless run (`acc_start`), whatever the formula, the options
and the oversight.

The measure reads a trail as a number in base three, its oldest literal first: a decision counts
one, another literal zero, and the places of the variables that are still free are filled up from
above. Pushing a literal fixes a place that was open, and reversing a decision lowers its digit, so
both lower the number. The two moves that keep the trail come at most once before it changes: after
a check the theory is not due again, and a learned clause is false, so that a decision is reversed
next.
-/

set_option autoImplicit false

namespace EqualityLogic

namespace Trail

/-! ### The measure of a trail -/

/-- The number of variables up to `b` without a value. -/
def freeCount (b : Nat) (values : Values) : Nat :=
  (List.range (b + 1)).countP fun v => values.lookup v = none

/-- The entries of a trail as a number in base three. -/
def weight : List (Literal × Reason) → Nat
  | [] => 0
  | (_, r) :: es => 3 * weight es + if r = .decision then 1 else 0

/-- What the places of the variables up to `b` without a value have room for. -/
def room (b : Nat) (values : Values) : Nat := Nat.pow 3 (freeCount b values)

/-- The measure of a trail over the variables up to `b`. -/
def measure (b : Nat) (t : Trail) : Nat := (weight t.entries + 1) * room b t.values

/-- A free variable that gets a value is free no longer. It has to be one of those that are counted,
which are the variables up to `b`. -/
theorem freeCount_assign_lt {b v : Nat} {values : Values} (x : Bool) (le : v ≤ b)
    (free : values.lookup v = none) : freeCount b (values.assign v x) < freeCount b values := by
  refine countP_lt_countP (fun w _ hw => ?_) (List.mem_range.2 (Nat.lt_succ_of_le le))
    (decide_eq_true free) ?_
  · rw [decide_eq_true_eq, Values.lookup_assign] at hw
    split at hw
    · cases hw
    · exact decide_eq_true hw
  · rw [decide_eq_false_iff_not, Values.lookup_assign, if_pos rfl]
    exact Option.some_ne_none x

/-- Clearing a value frees at most one variable, and none if the variable had no value before. -/
theorem freeCount_clear_le (b v : Nat) (values : Values) :
    freeCount b (values.clear v) ≤ freeCount b values + 1 := by
  refine countP_le_countP_add_one List.nodup_range v fun w _ hw => ?_
  rw [decide_eq_true_eq, Values.lookup_clear] at hw
  split at hw
  · next e => exact .inr e
  · exact .inl (decide_eq_true hw)

/-- Pushing a literal of a free variable lowers the measure: the number gets one digit more, at most
one in value, and the room below it shrinks to a third. -/
theorem measure_push_lt {b : Nat} {t : Trail} {l : Literal} (r : Reason) (le : l.var ≤ b)
    (free : t.values.lookup l.var = none) : (t.push l r).measure b < t.measure b := by
  have hlt := freeCount_assign_lt (!l.isNegated) le free
  show (weight ((l, r) :: t.entries) + 1) * 3 ^ freeCount b (t.values.assign l.var !l.isNegated) < _
  -- the open place that is fixed makes room for one more digit
  have hpow :
      3 ^ freeCount b (t.values.assign l.var !l.isNegated) * 3 ≤ 3 ^ freeCount b t.values := by
    rw [← Nat.pow_succ]
    exact Nat.pow_le_pow_right (by decide) hlt
  have hpos : 0 < 3 ^ freeCount b (t.values.assign l.var !l.isNegated) := Nat.pow_pos (by decide)
  have hdigit : weight ((l, r) :: t.entries) + 1 < 3 * (weight t.entries + 1) := by
    rw [weight]
    split <;> omega
  calc (weight ((l, r) :: t.entries) + 1) * 3 ^ freeCount b (t.values.assign l.var !l.isNegated)
      < 3 * (weight t.entries + 1) * 3 ^ freeCount b (t.values.assign l.var !l.isNegated) :=
        Nat.mul_lt_mul_of_pos_right hdigit hpos
    _ = (weight t.entries + 1) *
          (3 ^ freeCount b (t.values.assign l.var !l.isNegated) * 3) := by
        rw [Nat.mul_comm 3, Nat.mul_assoc, Nat.mul_comm 3]
    _ ≤ t.measure b := Nat.mul_le_mul_left _ hpow

/-- Taking off entries opens places again, but the decision at the end of them is worth all that is
written below it. The bound is the weight of what was there, without the one that `measure` adds. -/
private theorem measure_backtrackFrom_le {b : Nat} {values : Values}
    {es : List (Literal × Reason)} {t : Trail} (le : ∀ e ∈ es, e.1.var ≤ b)
    (back : backtrackFrom values es = some t) :
    t.measure b ≤ weight es * room b values := by
  induction es generalizing values with
  | nil => cases back
  | cons e es ih =>
    obtain ⟨l, r⟩ := e
    have hl : l.var ≤ b := le (l, r) List.mem_cons_self
    have hclear := freeCount_clear_le b l.var values
    rw [backtrackFrom] at back
    split at back
    · next dec =>
      cases back
      have hlt : freeCount b ((values.clear l.var).assign l.negate.var !l.negate.isNegated)
          < freeCount b (values.clear l.var) := by
        refine freeCount_assign_lt _ (by rw [Literal.var_negate]; exact hl) ?_
        rw [Literal.var_negate, Values.lookup_clear, if_pos rfl]
      show (weight ((l.negate, .backjump) :: es) + 1) *
        3 ^ freeCount b ((values.clear l.var).assign l.negate.var !l.negate.isNegated) ≤ _
      -- the digit of the decision falls from one to zero
      have hweight : weight ((l.negate, .backjump) :: es) + 1 = weight ((l, r) :: es) := by
        rw [weight, weight, if_neg (by decide), if_pos dec]
      rw [hweight]
      exact Nat.mul_le_mul_left _ (Nat.pow_le_pow_right (by decide) (by omega))
    · next notDec =>
      -- a digit zero comes off, and its place is open again
      have hweight : weight ((l, r) :: es) = 3 * weight es := by
        rw [weight, if_neg notDec, Nat.add_zero]
      calc t.measure b ≤ weight es * 3 ^ freeCount b (values.clear l.var) :=
            ih (fun e he => le e (List.mem_cons_of_mem _ he)) back
        _ ≤ weight es * 3 ^ (freeCount b values + 1) :=
            Nat.mul_le_mul_left _ (Nat.pow_le_pow_right (by decide) hclear)
        _ = weight ((l, r) :: es) * 3 ^ freeCount b values := by
            rw [hweight, Nat.pow_succ, Nat.mul_comm 3, Nat.mul_assoc, Nat.mul_comm 3]

/-- Reversing a decision lowers the measure, however many literals go with it. -/
theorem measure_backtrack?_lt {b : Nat} {t t' : Trail} (le : ∀ e ∈ t.entries, e.1.var ≤ b)
    (back : t.backtrack? = some t') : t'.measure b < t.measure b :=
  Nat.lt_of_le_of_lt (measure_backtrackFrom_le le back)
    (Nat.mul_lt_mul_of_pos_right (Nat.lt_succ_self _) (Nat.pow_pos (by decide)))

end Trail

namespace Search

/-! ### What moves keep -/

variable {τ : Type}

/-- The trail is well formed, and no variable in sight exceeds `b`. -/
structure State.Bounded (b : Nat) (s : State τ) : Prop where
  /-- The trail is well formed. -/
  wellFormed : s.trail.WellFormed
  /-- The variables of the trail. -/
  entries_le : ∀ e ∈ s.trail.entries, e.1.var ≤ b
  /-- The table of values. -/
  size_le : s.trail.values.size ≤ b + 1
  /-- The variables of the clauses. -/
  working_le : ∀ c ∈ s.working, ∀ l ∈ c, l.var ≤ b

/-- A literal of the trail names no variable beyond `b`, as stated of its entries. -/
theorem State.Bounded.var_le {b : Nat} {s : State τ} (h : s.Bounded b) {l : Literal}
    (hl : l ∈ s.trail.assignment) : l.var ≤ b := by
  obtain ⟨r, hr⟩ := Trail.mem_assignment.1 hl
  exact h.entries_le _ hr

/-- Pushing a literal of a free variable keeps the bound, if the variable is within it. The table of
values grows no further than to the slot of that variable. -/
theorem State.Bounded.assume {b : Nat} {s : State τ} (h : s.Bounded b) {l : Literal} (r : Reason)
    (le : l.var ≤ b) (free : s.trail.values.lookup l.var = none) : (s.assume l r).Bounded b where
  wellFormed := h.wellFormed.push r free
  entries_le e he := by
    rcases List.mem_cons.1 he with rfl | he
    · exact le
    · exact h.entries_le e he
  size_le := by
    show (s.trail.values.assign l.var !l.isNegated).size ≤ b + 1
    rw [Values.size_assign]
    have := h.size_le
    omega
  working_le := h.working_le

/-- Reversing a decision keeps the bound: the variables that are left were on the trail before, and
the table does not grow. -/
private theorem backtrackFrom_bounded {b : Nat} {values : Values} {es : List (Literal × Reason)}
    {t : Trail} (le : ∀ e ∈ es, e.1.var ≤ b) (size : values.size ≤ b + 1)
    (back : Trail.backtrackFrom values es = some t) :
    (∀ e ∈ t.entries, e.1.var ≤ b) ∧ t.values.size ≤ b + 1 := by
  induction es generalizing values with
  | nil => cases back
  | cons e es ih =>
    obtain ⟨l, r⟩ := e
    have hl : l.var ≤ b := le (l, r) List.mem_cons_self
    have hes : ∀ e ∈ es, e.1.var ≤ b := fun e he => le e (List.mem_cons_of_mem _ he)
    rw [Trail.backtrackFrom] at back
    split at back
    · cases back
      refine ⟨fun e he => ?_, ?_⟩
      · rcases List.mem_cons.1 he with rfl | he
        · show l.negate.var ≤ b
          rw [Literal.var_negate]
          exact hl
        · exact hes e he
      · show ((values.clear l.var).assign l.negate.var !l.negate.isNegated).size ≤ b + 1
        -- the reversed literal goes into the slot of the decision
        rw [Values.size_assign, Values.size_clear, Literal.var_negate]
        omega
    · exact ih hes (by rw [Values.size_clear]; exact size) back

/-- How much is left before the trail has to change: nothing when a clause is false, else less once
the theory has seen the trail. -/
def State.pending (oversight : Oversight) (s : State τ) : Nat :=
  if s.working.value s.trail = some false then 0
  else if oversight = .partialAssignments ∧ s.changed then 2
  else 1

/-- At most two moves keep the trail, so the factor of three lets any change of the trail outweigh
them. -/
theorem State.pending_le (oversight : Oversight) (s : State τ) : s.pending oversight ≤ 2 := by
  rw [pending]
  split
  · omega
  · split <;> omega

/-- A trail that the theory has seen is judged no more, and at most one move is left that keeps it.
-/
theorem State.pending_lt_two {oversight : Oversight} {s : State τ}
    (noConflict : s.working.value s.trail ≠ some false) (seen : s.changed = false) :
    s.pending oversight < 2 := by
  rw [pending, if_neg noConflict, if_neg (by rw [seen]; simp)]
  omega

/-- The measure of a search over the variables up to `b`. -/
def State.measure (b : Nat) (oversight : Oversight) (s : State τ) : Nat :=
  3 * s.trail.measure b + s.pending oversight

/-- A lower trail lowers the measure of a search, whatever becomes of the moves that keep the trail.
-/
private theorem measure_lt_of_trail {b : Nat} {oversight : Oversight} {s s' : State τ}
    (h : s'.trail.measure b < s.trail.measure b) :
    s'.measure b oversight < s.measure b oversight := by
  have := s'.pending_le oversight
  rw [State.measure, State.measure]
  omega

/-- On the same trail, a move less to make lowers the measure. -/
private theorem measure_lt_of_pending {b : Nat} {oversight : Oversight} {s s' : State τ}
    (same : s'.trail = s.trail) (h : s'.pending oversight < s.pending oversight) :
    s'.measure b oversight < s.measure b oversight := by
  rw [State.measure, State.measure, same]
  omega

variable [Theory τ] {o : Options} {oversight : Oversight}

/-- A lawful theory stays lawful throughout a search, since a move makes at most one check and one
request for a clause. -/
theorem Move.lawful {s s' : State τ} (m : Move o oversight s s') (h : Theory.Lawful s.theory) :
    Theory.Lawful s'.theory := by
  cases m with
  | approve _ _ judged =>
    have := h.perform (.check s.trail.assignment)
    rwa [Theory.perform, judged] at this
  | learn _ _ judged explained =>
    have := (h.perform (.check s.trail.assignment)).perform .learn
    rwa [Theory.perform, Theory.perform, judged, explained] at this
  | _ => exact h

/-- A learned clause is false under the trail that led to it, and so are the clauses that it joins.
The literals of the clause are negations of literals on the trail; this is where the law of theories
comes in, and the reason why no clause is learned twice on the same trail. -/
theorem value_append_learned {s : State τ} {th th' : τ} {c : Clause} (h : s.trail.WellFormed)
    (lawful : Theory.Lawful s.theory)
    (judged : Theory.check s.theory s.trail.assignment = (.inconsistent, th))
    (explained : Theory.learn th = (.ok c, th')) :
    Formula.value s.trail (s.working ++ [c]) = some false :=
  Formula.value_eq_some_false.2 ⟨c, List.mem_append_right _ List.mem_cons_self,
    Clause.value_eq_some_false.2 fun _ hl =>
      h.value_eq_some_false.2 (Trail.mem_assignment.1 (lawful.negate_mem judged explained hl))⟩

/-- Every move keeps the bound and lowers the measure. The bound comes along, for the measure counts
the variables up to it only. -/
theorem Move.bounded_and_measure_lt {b : Nat} {s s' : State τ} (m : Move o oversight s s')
    (lawful : Theory.Lawful s.theory) (h : s.Bounded b) :
    s'.Bounded b ∧ s'.measure b oversight < s.measure b oversight := by
  cases m with
  | backtrack conflict back =>
    obtain ⟨hle, hsize⟩ := backtrackFrom_bounded h.entries_le h.size_le back
    exact ⟨⟨h.wellFormed.backtrack? back, hle, hsize, h.working_le⟩,
      measure_lt_of_trail (Trail.measure_backtrack?_lt h.entries_le back)⟩
  | approve noConflict due judged fine =>
    refine ⟨⟨h.wellFormed, h.entries_le, h.size_le, h.working_le⟩, ?_⟩
    have before : s.pending oversight = 2 := by
      rw [State.pending, if_neg noConflict]
      exact if_pos due
    exact measure_lt_of_pending rfl (before ▸ State.pending_lt_two noConflict rfl)
  | @learn c th th' noConflict asked judged explained =>
    -- the learned clause is false, so nothing is pending after it
    have isFalse := value_append_learned h.wellFormed lawful judged explained
    refine ⟨⟨h.wellFormed, h.entries_le, h.size_le, fun d hd l hl => ?_⟩, ?_⟩
    · rcases List.mem_append.1 hd with hd | hd
      · exact h.working_le d hd l hl
      · rw [List.mem_singleton.1 hd] at hl
        rw [← Literal.var_negate]
        exact h.var_le (lawful.negate_mem judged explained hl)
    · refine measure_lt_of_pending rfl ?_
      rw [State.pending, State.pending, if_pos isFalse, if_neg noConflict]
      split <;> omega
  | @propagate l noConflict notDue forced =>
    obtain ⟨c, hc, hunit⟩ := Formula.unit?_eq_some forced
    obtain ⟨hl, free, _⟩ := Clause.unit?_eq_some hunit
    have le := h.working_le c hc l hl
    have free := Trail.value_eq_none.1 free
    exact ⟨h.assume _ le free, measure_lt_of_trail (Trail.measure_push_lt _ le free)⟩
  | @decide l noConflict notDue noUnit free within =>
    obtain ⟨c, hc, hfree⟩ := Formula.free?_eq_some free
    obtain ⟨hl, free, _⟩ := Clause.free?_eq_some hfree
    have le : (l.atom.withPolarity o.phase).var ≤ b := by
      simpa using h.working_le c hc l hl
    have free : s.trail.values.lookup (l.atom.withPolarity o.phase).var = none := by
      simpa using Trail.value_eq_none.1 free
    have bounded := h.assume .decision le free
    exact ⟨⟨bounded.wellFormed, bounded.entries_le, bounded.size_le, bounded.working_le⟩,
      measure_lt_of_trail (Trail.measure_push_lt _ le free)⟩
  | @complete l noConflict notDue noUnit noFree left =>
    obtain ⟨slot, free⟩ := Trail.firstFree?_eq_some left
    have le : (l.withPolarity o.phase).var ≤ b := by
      have := h.size_le
      rw [Literal.var_withPolarity]
      omega
    have free : s.trail.values.lookup (l.withPolarity o.phase).var = none := by
      rw [Literal.var_withPolarity]; exact free
    exact ⟨h.assume _ le free, measure_lt_of_trail (Trail.measure_push_lt _ le free)⟩

/-- A search from a bounded state makes no endless run. The induction is on the measure, over all
states at once, with a theory that may have changed. -/
theorem acc_of_bounded {b : Nat} {s : State τ} (lawful : Theory.Lawful s.theory)
    (h : s.Bounded b) : Acc (Process.Follows (step o oversight)) s :=
  Process.acc_of_measure (P := fun s => Theory.Lawful s.theory ∧ s.Bounded b)
    (fun _ _ h e =>
      have m := move_of_step e
      have kept := m.bounded_and_measure_lt h.1 h.2
      ⟨⟨m.lawful h.1, kept.1⟩, kept.2⟩)
    ⟨lawful, h⟩

omit [Theory τ] in
/-- A search starts within the bound given by its own variables and the number of those to be
assigned. -/
theorem bounded_start (o : Options) (f : Formula) (n : Nat) (theory : τ) :
    (State.start o f n theory).Bounded (max n f.maxVar) where
  wellFormed := Trail.wellFormed_empty _
  entries_le e he := by cases he
  size_le := Nat.le_of_eq (Values.size_blank _)
  working_le c hc l hl := by
    have hc : c ∈ f := by
      rw [State.start] at hc
      split at hc
      · exact f.prune_sublist.mem hc
      · exact hc
    have := Formula.var_le_maxVar hc hl
    omega

/-- A search with a lawful theory makes no endless run, whatever the formula, the options and the
oversight. `solveWith` runs on this fact. -/
theorem acc_start (o : Options) (oversight : Oversight) (f : Formula) (n : Nat) {theory : τ}
    (lawful : Theory.Lawful theory) :
    Acc (Process.Follows (step o oversight)) (State.start o f n theory) :=
  acc_of_bounded lawful (bounded_start o f n theory)

end Search

end EqualityLogic
