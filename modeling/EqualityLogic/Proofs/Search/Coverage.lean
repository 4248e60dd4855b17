import EqualityLogic.Search.Invariant
import Mathlib.Data.List.Nodup

/-!
# The assignments that a search reports

A search reports its trail in the order of the variables. `Assignment.Solves` says what such an
assignment is worth to a caller: no variable occurs twice, none up to a bound is left out, and each
clause has a literal in it that is listed. The last is more than that the clauses hold under the
valuation of the assignment, which would count a variable that is not listed as false.

An assignment that ends a search has a literal of each clause that the search worked on, because no
clause is open or false then (`State.Finished.exists_mem`). Pruned clauses have been out of sight.
They hold because the clauses that were kept imply them, and all their variables are listed, so it
must be a listed literal that makes them hold (`Assignment.exists_mem_of_holds`).
-/

set_option autoImplicit false

namespace EqualityLogic

/-- Ascending lists with the same members are equal. It turns statements about which variables are
listed into one about the list. -/
theorem eq_of_ascending {vs ws : List Nat} (hv : vs.Pairwise (· < ·)) (hw : ws.Pairwise (· < ·))
    (mem : ∀ v, v ∈ vs ↔ v ∈ ws) : vs = ws := by
  have perm : vs.Perm ws :=
    (List.perm_ext_iff_of_nodup (hv.imp Nat.ne_of_lt) (hw.imp Nat.ne_of_lt)).2 mem
  exact perm.eq_of_pairwise (fun _ _ _ _ h h' => absurd h (Nat.lt_asymm h')) hv hw

namespace Assignment

/-- An assignment in the order of the variables, which lists all variables from 1 to `b` and a
literal of each clause of the formula. -/
structure Solves (m : Assignment) (f : Formula) (b : Nat) : Prop where
  ascending : m.Pairwise fun k l => k.var < l.var
  covers : ∀ v, 1 ≤ v → v ≤ b → ∃ l ∈ m, l.var = v
  satisfies : ∀ c ∈ f, ∃ l ∈ c, l ∈ m

variable {m : Assignment}

/-- An ascending assignment does not list a variable with both signs, for it does not list it twice.
-/
theorem consistent_of_ascending (ascending : m.Pairwise fun k l => k.var < l.var) :
    m.Consistent := by
  intro l hl hneg
  have distinct : (m.map Literal.var).Nodup :=
    List.pairwise_map.2 (ascending.imp Nat.ne_of_lt)
  exact Literal.negate_ne_self l
    (List.inj_on_of_nodup_map distinct hneg hl (Literal.var_negate l))

/-- An assignment that lists the variables from one on is ascending. -/
theorem ascending_of_map_var {b : Nat} (vars : m.map Literal.var = List.range' 1 b) :
    m.Pairwise fun k l => k.var < l.var := by
  have h := List.pairwise_lt_range' (s := 1) (n := b)
  rw [← vars] at h
  exact List.pairwise_map.1 h

/-- A clause that holds under a consistent assignment, all of whose variables are listed, has a
listed literal. Without the condition on the variables, a negative literal may hold because its
variable is not listed. -/
theorem exists_mem_of_holds (consistent : m.Consistent) {c : Clause}
    (listed : ∀ l ∈ c, ∃ k ∈ m, k.var = l.var) (holds : c.holds m.valuation = true) :
    ∃ l ∈ c, l ∈ m := by
  obtain ⟨l, hl, hlρ⟩ := Clause.holds_iff.1 holds
  obtain ⟨k, hk, hvar⟩ := listed l hl
  rcases Literal.eq_or_eq_negate_of_var hvar with rfl | rfl
  · exact ⟨k, hl, hk⟩
  · -- the listed literal would be false under its own assignment
    have hneg := consistent.holds hk
    rw [Literal.holds_negate, hlρ] at hneg
    cases hneg

/-- The clauses hold under the valuation of the assignment. This is less than `Solves` says, as
noted above. -/
theorem Solves.holds {f : Formula} {b : Nat} (h : m.Solves f b) : f.holds m.valuation = true := by
  refine Formula.holds_iff.2 fun c hc => ?_
  obtain ⟨l, hl, hlm⟩ := h.satisfies c hc
  exact Clause.holds_iff.2 ⟨l, hl, (consistent_of_ascending h.ascending).holds hlm⟩

/-- An assignment without a variable beyond the bound lists each variable up to it once, in order.
-/
theorem Solves.map_var_eq_range' {f : Formula} {b : Nat} (h : m.Solves f b)
    (le : ∀ l ∈ m, l.var ≤ b) : m.map Literal.var = List.range' 1 b := by
  refine eq_of_ascending (List.pairwise_map.2 h.ascending)
    (List.pairwise_lt_range' (s := 1) (n := b)) fun v => ?_
  rw [List.mem_range'_1, List.mem_map]
  constructor
  · rintro ⟨l, hl, rfl⟩
    have := l.var_ne_zero
    have := le l hl
    omega
  · intro hv
    exact h.covers v hv.1 (by omega)

end Assignment

namespace Trail

/-- The assignment of a well-formed trail is in the order of the variables, whatever the order in
which they were assigned. -/
theorem WellFormed.ascending_assignment {t : Trail} (h : t.WellFormed) :
    t.assignment.Pairwise fun k l => k.var < l.var := by
  have sorted : t.assignment.Pairwise fun k l => decide (k.var ≤ l.var) = true :=
    List.pairwise_mergeSort (fun a b c hab hbc => by simp at hab hbc ⊢; omega)
      (fun a b => by simp; omega) _
  -- sorting gives an order that is not strict, and the trail has no variable twice
  have distinct : t.assignment.Pairwise fun k l => k.var ≠ l.var := by
    have hperm : (t.assignment.map Literal.var).Perm (t.entries.map fun e => e.1.var) := by
      have hlits : t.assignment.Perm (t.entries.map Prod.fst) :=
        (List.mergeSort_perm _ _).trans (List.reverse_perm _)
      have := hlits.map Literal.var
      rwa [List.map_map] at this
    exact List.pairwise_map.1 (hperm.nodup_iff.2 h.nodup)
  refine (sorted.and distinct).imp fun {k l} hkl => ?_
  have hle := of_decide_eq_true hkl.1
  have hne := hkl.2
  omega

/-- A variable that has a value is listed, since its value comes from a literal of the trail. -/
theorem WellFormed.exists_mem_assignment {t : Trail} (h : t.WellFormed) {v : Nat}
    (assigned : t.values.lookup v ≠ none) : ∃ l ∈ t.assignment, l.var = v := by
  obtain ⟨b, hb⟩ := Option.ne_none_iff_exists'.1 assigned
  obtain ⟨e, he, hv, -⟩ := (h.lookup_iff v b).1 hb
  exact ⟨e.1, mem_assignment.2 ⟨e.2, he⟩, hv⟩

/-- The table of values never gets shorter when entries are taken off. -/
theorem size_le_of_backtrackFrom {values : Values} {es : List (Literal × Reason)} {t : Trail}
    (back : backtrackFrom values es = some t) : values.size ≤ t.values.size := by
  induction es generalizing values with
  | nil => cases back
  | cons e es ih =>
      obtain ⟨l, r⟩ := e
      rw [backtrackFrom] at back
      split at back
      · cases back
        -- clearing leaves the slots, and an assignment adds to them if anything
        show values.size ≤ ((values.clear l.var).assign l.negate.var !l.negate.isNegated).size
        rw [Values.size_assign, Values.size_clear]
        omega
      · have := ih back
        rwa [Values.size_clear] at this

end Trail

namespace Search

variable {τ : Type} {o : Options} {oversight : Oversight} {s s' : State τ}

/-- No move takes a slot away from the table of values. So the slots made at the start are there at
the end. -/
theorem Move.size_le [Theory τ] (m : Move o oversight s s') :
    s.trail.values.size ≤ s'.trail.values.size := by
  have pushed : ∀ (l : Literal) (r : Reason),
      s.trail.values.size ≤ (s.trail.push l r).values.size := fun l r => by
    show _ ≤ (s.trail.values.assign l.var !l.isNegated).size
    rw [Values.size_assign]
    omega
  cases m with
  | backtrack _ back => exact Trail.size_le_of_backtrackFrom back
  | approve => exact Nat.le_refl _
  | learn => exact Nat.le_refl _
  | propagate => exact pushed _ _
  | decide => exact pushed _ _
  | complete => exact pushed _ _

/-- When nothing is left to be assigned, every variable with a slot is listed. The slots are made at
the start for all variables in sight, so none of these is left out. -/
theorem State.Finished.covers (finished : s.Finished oversight) (h : s.trail.WellFormed) {b : Nat}
    (slots : b < s.trail.values.size) {v : Nat} (pos : 1 ≤ v) (le : v ≤ b) :
    ∃ l ∈ s.trail.assignment, l.var = v :=
  h.exists_mem_assignment (Trail.firstFree?_eq_none finished.noneLeft pos (by omega))

end Search

end EqualityLogic
