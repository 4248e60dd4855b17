import EqualityLogic.Search.Trail

/-!
# Well-formed trails

A trail is well formed when it assigns no variable twice and its table says of each variable what
its literals say. The empty trail is well formed (`wellFormed_empty`), and both operations of a
search keep this: pushing a literal of a variable without a value (`WellFormed.push`) and reversing
the latest decision (`WellFormed.backtrack?`).
-/

set_option autoImplicit false

namespace EqualityLogic

namespace Values

/-- A table starts without values, inside and outside of its slots. -/
@[simp] theorem lookup_blank (n v : Nat) : (blank n).lookup v = none := by
  rw [lookup, blank, Array.getElem?_replicate]
  split <;> rfl

/-- A variable reads the value that was assigned last, and all others what they read before, also
when the table has to grow for it. -/
theorem lookup_assign (values : Values) (v w : Nat) (b : Bool) :
    (values.assign v b).lookup w = if w = v then some b else values.lookup w := by
  rw [assign, lookup, lookup]
  split
  · next h =>
    rw [Array.getElem?_setIfInBounds]
    by_cases e : w = v
    · simp [e, h]
    · rw [if_neg (Ne.symm e), if_neg e]
  · next h =>
    -- without a slot for the variable, the table is filled up to it first
    have size : (values ++ Array.replicate (v - values.size) none).size = v := by
      rw [Array.size_append, Array.size_replicate]; omega
    rw [Array.getElem?_push, size]
    by_cases e : w = v
    · simp [e]
    · rw [if_neg e, if_neg e, Array.getElem?_append]
      split
      · rfl
      · next hw =>
        rw [Array.getElem?_replicate, Array.getElem?_eq_none (by omega)]
        split <;> rfl

/-- A variable that was cleared reads no value, and all others what they read before. -/
theorem lookup_clear (values : Values) (v w : Nat) :
    (values.clear v).lookup w = if w = v then none else values.lookup w := by
  rw [clear, lookup, lookup, Array.getElem?_setIfInBounds]
  by_cases e : w = v
  · subst e
    rw [if_pos rfl, if_pos rfl]
    split <;> rfl
  · rw [if_neg (Ne.symm e), if_neg e]

/-- There is a slot for each variable up to `n`, and one for the unused number zero. -/
@[simp] theorem size_blank (n : Nat) : (blank n).size = n + 1 := by
  rw [blank, Array.size_replicate]

/-- An assignment makes room for its variable, and takes no room away. -/
theorem size_assign (values : Values) (v : Nat) (b : Bool) :
    (values.assign v b).size = max values.size (v + 1) := by
  rw [assign]
  split
  · rw [Array.size_setIfInBounds]; omega
  · rw [Array.size_push, Array.size_append, Array.size_replicate]; omega

/-- Clearing a value leaves its slot, so a table never shrinks. -/
@[simp] theorem size_clear (values : Values) (v : Nat) : (values.clear v).size = values.size := by
  rw [clear, Array.size_setIfInBounds]

end Values

namespace Trail

/-- No variable is assigned twice, and the table agrees with the literals. -/
structure WellFormed (t : Trail) : Prop where
  /-- The variables of the literals are distinct. -/
  nodup : (t.entries.map fun e => e.1.var).Nodup
  /-- A variable has a value just if it has a literal with that sign. -/
  lookup_iff : ∀ v b, t.values.lookup v = some b ↔
    ∃ e ∈ t.entries, e.1.var = v ∧ (!e.1.isNegated) = b

/-- The empty trail is well formed: it has no literals, and its table no values. -/
theorem wellFormed_empty (n : Nat) : (empty n).WellFormed where
  nodup := List.nodup_nil
  lookup_iff v b := by simp [empty]

/-- A literal of a variable without a value may be pushed. By the table that variable is not on the
trail yet, so it is not assigned twice. -/
theorem WellFormed.push {t : Trail} (h : t.WellFormed) {l : Literal} (r : Reason)
    (free : t.values.lookup l.var = none) : (t.push l r).WellFormed where
  nodup := by
    refine List.nodup_cons.2 ⟨fun mem => ?_, h.nodup⟩
    obtain ⟨e, he, hv⟩ := List.mem_map.1 mem
    -- an entry of the same variable would have given it a value
    have := (h.lookup_iff l.var _).2 ⟨e, he, hv, rfl⟩
    rw [free] at this
    cases this
  lookup_iff v b := by
    simp only [Trail.push, Values.lookup_assign, List.mem_cons]
    split
    · next e =>
      subst e
      constructor
      · intro hb
        exact ⟨(l, r), .inl rfl, rfl, Option.some.inj hb⟩
      · rintro ⟨e, rfl | he, hv, hb⟩
        · rw [← hb]
        · have := (h.lookup_iff l.var b).2 ⟨e, he, hv, hb⟩
          rw [free] at this
          cases this
    · next ne =>
      rw [h.lookup_iff]
      constructor
      · rintro ⟨e, he, hv, hb⟩
        exact ⟨e, .inr he, hv, hb⟩
      · rintro ⟨e, rfl | he, hv, hb⟩
        · exact absurd hv.symm ne
        · exact ⟨e, he, hv, hb⟩

/-- The latest literal may be taken off. Since its variable occurs nowhere else, the value to be
cleared is that of no other literal. -/
theorem WellFormed.pop {l : Literal} {r : Reason} {es : List (Literal × Reason)} {values : Values}
    (h : WellFormed ⟨(l, r) :: es, values⟩) : WellFormed ⟨es, values.clear l.var⟩ where
  nodup := (List.nodup_cons.1 h.nodup).2
  lookup_iff v b := by
    have fresh := (List.nodup_cons.1 h.nodup).1
    simp only [Values.lookup_clear]
    split
    · next e =>
      subst e
      constructor
      · intro hb; cases hb
      · rintro ⟨e, he, hv, _⟩
        exact absurd (List.mem_map.2 ⟨e, he, hv⟩) fresh
    · next ne =>
      rw [h.lookup_iff]
      constructor
      · rintro ⟨e, he, hv, hb⟩
        rcases List.mem_cons.1 he with rfl | he
        · exact absurd hv.symm ne
        · exact ⟨e, he, hv, hb⟩
      · rintro ⟨e, he, hv, hb⟩
        exact ⟨e, List.mem_cons_of_mem _ he, hv, hb⟩

/-- Entries may be taken off up to a decision, and that one reversed. The induction follows the
entries, with `pop` for each of them and `push` at the decision. -/
theorem WellFormed.backtrackFrom {values : Values} {es : List (Literal × Reason)} {t : Trail}
    (h : WellFormed ⟨es, values⟩) (back : Trail.backtrackFrom values es = some t) :
    t.WellFormed := by
  induction es generalizing values with
  | nil => cases back
  | cons e es ih =>
    obtain ⟨l, r⟩ := e
    rw [Trail.backtrackFrom] at back
    split at back
    · cases back
      refine h.pop.push _ ?_
      rw [Literal.var_negate, Values.lookup_clear, if_pos rfl]
    · exact ih h.pop back

/-- The latest decision may be reversed, which is how a search answers a conflict. -/
theorem WellFormed.backtrack? {t t' : Trail} (h : t.WellFormed) (back : t.backtrack? = some t') :
    t'.WellFormed :=
  h.backtrackFrom back

/-! ### Literals -/

/-- A literal is true just if it is on the trail. So the table and the list may stand for each other
from here on. -/
theorem WellFormed.value_eq_some_true {t : Trail} (h : t.WellFormed) {l : Literal} :
    t.value l = some true ↔ ∃ r, (l, r) ∈ t.entries := by
  rw [value, Option.map_eq_some_iff]
  constructor
  · rintro ⟨b, hb, e⟩
    obtain ⟨⟨k, r⟩, hk, hv, hs⟩ := (h.lookup_iff _ _).1 hb
    have : k = l := Literal.eq_of_var_of_isNegated hv (by
      cases hl : l.isNegated <;> cases hk' : k.isNegated <;> simp_all)
    exact ⟨r, this ▸ hk⟩
  · rintro ⟨r, hr⟩
    exact ⟨!l.isNegated, (h.lookup_iff _ _).2 ⟨(l, r), hr, rfl, rfl⟩, by cases l.isNegated <;> rfl⟩

/-- A literal and its negation have opposite values, and neither has one if the other has none. -/
theorem value_negate (t : Trail) (l : Literal) : t.value l.negate = (t.value l).map (!·) := by
  rw [value, value, Literal.var_negate, Literal.isNegated_negate]
  cases t.values.lookup l.var with
  | none => rfl
  | some b => cases b <;> cases l.isNegated <;> rfl

/-- A literal is false just if its negation is on the trail. No literal is false for any other
reason, as free variables have no value. -/
theorem WellFormed.value_eq_some_false {t : Trail} (h : t.WellFormed) {l : Literal} :
    t.value l = some false ↔ ∃ r, (l.negate, r) ∈ t.entries := by
  rw [← h.value_eq_some_true, value_negate]
  cases t.value l with
  | none => simp
  | some b => cases b <;> simp

/-- A literal has a value just if its variable has one, whichever sign it has. -/
theorem value_eq_none {t : Trail} {l : Literal} :
    t.value l = none ↔ t.values.lookup l.var = none := by
  rw [value, Option.map_eq_none_iff]

/-- The assignment lists the literals of the trail, without the reasons for which they are there. It
sorts them, so only membership is the same. -/
theorem mem_assignment {t : Trail} {l : Literal} :
    l ∈ t.assignment ↔ ∃ r, (l, r) ∈ t.entries := by
  rw [assignment, List.mem_mergeSort, List.mem_reverse, List.mem_map]
  constructor
  · rintro ⟨⟨k, r⟩, hk, rfl⟩
    exact ⟨r, hk⟩
  · rintro ⟨r, hr⟩
    exact ⟨(l, r), hr, rfl⟩

/-! ### Choices -/

/-- The variable chosen to complete a trail has a slot in the table, but no value, so its literal
may be pushed. -/
theorem firstFree?_eq_some {t : Trail} {l : Literal} (h : t.firstFree? = some l) :
    l.var < t.values.size ∧ t.values.lookup l.var = none := by
  rw [firstFree?] at h
  obtain ⟨i, hi, hl⟩ := List.exists_of_findSome?_eq_some h
  split at hl
  · next free =>
    cases hl
    rw [Literal.var_ofVar]
    have := List.mem_range.1 hi
    exact ⟨by omega, free⟩
  · cases hl

/-- It is chosen as a positive literal. The sign that it gets in the end is a matter of the options.
-/
theorem isNegated_of_firstFree?_eq_some {t : Trail} {l : Literal} (h : t.firstFree? = some l) :
    l.isNegated = false := by
  rw [firstFree?] at h
  obtain ⟨i, _, hl⟩ := List.exists_of_findSome?_eq_some h
  split at hl
  · cases hl
    exact Literal.isNegated_ofVar _ _
  · cases hl

/-- If no variable is left to choose, all that have a slot have a value. Number zero has a slot and
is no variable, hence the lower bound. -/
theorem firstFree?_eq_none {t : Trail} (h : t.firstFree? = none) {v : Nat} (pos : 1 ≤ v)
    (slot : v < t.values.size) : t.values.lookup v ≠ none := by
  intro free
  rw [firstFree?, List.findSome?_eq_none_iff] at h
  have := h (v - 1) (List.mem_range.2 (by omega))
  rw [if_pos (by rw [Nat.sub_add_cancel pos]; exact free)] at this
  cases this

end Trail

/-- A forced literal is a free literal of its clause, which is open, and its only one. This is what
may be relied on when it is pushed. -/
theorem Clause.unit?_eq_some {t : Trail} {c : Clause} {l : Literal} (h : c.unit? t = some l) :
    l ∈ c ∧ t.value l = none ∧ c.value t = none ∧ ∀ k ∈ c, t.value k = none → k = l := by
  rw [unit?] at h
  split at h
  · cases h
  · next k ks e =>
    split at h
    · next hk =>
      cases h
      have mem : l ∈ c.filter fun l => t.value l = none := by
        rw [e]; exact List.mem_cons_self
      obtain ⟨hl, hv⟩ := List.mem_filter.1 mem
      refine ⟨hl, of_decide_eq_true hv, hk.1, fun k hkc hkv => ?_⟩
      have : k ∈ l :: ks := by
        rw [← e]; exact List.mem_filter.2 ⟨hkc, decide_eq_true hkv⟩
      rcases List.mem_cons.1 this with rfl | hk'
      · rfl
      · exact hk.2 k hk'
    · cases h

/-- A literal that a clause offers belongs to it and is free, and the clause is open: a true clause
offers none. -/
theorem Clause.free?_eq_some {t : Trail} {c : Clause} {l : Literal} (h : c.free? t = some l) :
    l ∈ c ∧ t.value l = none ∧ c.value t = none := by
  rw [free?] at h
  split at h
  · next open_ =>
    exact ⟨List.mem_of_find?_eq_some h, by simpa using List.find?_some h, open_⟩
  · cases h

/-- A literal that a formula forces is forced by one of its clauses, the first that forces any. -/
theorem Formula.unit?_eq_some {t : Trail} {f : Formula} {l : Literal} (h : f.unit? t = some l) :
    ∃ c ∈ f, c.unit? t = some l :=
  List.exists_of_findSome?_eq_some h

/-- A literal that a formula offers is offered by one of its clauses, so its variable is one of the
formula. -/
theorem Formula.free?_eq_some {t : Trail} {f : Formula} {l : Literal} (h : f.free? t = some l) :
    ∃ c ∈ f, c.free? t = some l :=
  List.exists_of_findSome?_eq_some h

end EqualityLogic
