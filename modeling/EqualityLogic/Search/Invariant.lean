import EqualityLogic.Search.Move
import EqualityLogic.Search.WellFormed

/-!
# What every search keeps

Facts that hold in all states of a search, with any theory whatsoever:

* the trail is well formed (`Move.wellFormed`);
* the clauses that the search works on mean the same as all clauses (`Move.sameMeaning`);
* clauses are only added (`Move.clauses_prefix`).

So an assignment with which a search ends satisfies all clauses, also those left out of the search
(`Halt.holds_of_sat`).
-/

set_option autoImplicit false

namespace EqualityLogic

/-! ### Values and meaning -/

/-- A clause is true just if one of its literals is. It needs no well-formed trail, since the values
are read off the table alone. -/
theorem Clause.value_eq_some_true {t : Trail} {c : Clause} :
    c.value t = some true ↔ ∃ l ∈ c, t.value l = some true := by
  rw [value]
  split
  · next h => exact ⟨fun _ => h, fun _ => rfl⟩
  · next h =>
    refine ⟨fun e => ?_, fun e => absurd e h⟩
    split at e <;> cases e

/-- A clause is false just if all its literals are. The clause without literals is one of these,
under any trail. -/
theorem Clause.value_eq_some_false {t : Trail} {c : Clause} :
    c.value t = some false ↔ ∀ l ∈ c, t.value l = some false := by
  rw [value]
  split
  · next h =>
    obtain ⟨l, hl, ht⟩ := h
    constructor
    · intro e; cases e
    · intro all
      rw [all l hl] at ht
      cases ht
  · split
    · next h => exact ⟨fun _ => h, fun _ => rfl⟩
    · next h => exact ⟨nofun, fun e => absurd e h⟩

/-- A formula is false just if one of its clauses is, whatever the others are. -/
theorem Formula.value_eq_some_false {t : Trail} {f : Formula} :
    f.value t = some false ↔ ∃ c ∈ f, c.value t = some false := by
  rw [value]
  split
  · next h => exact ⟨fun _ => h, fun _ => rfl⟩
  · next h =>
    refine ⟨fun e => ?_, fun e => absurd e h⟩
    split at e <;> cases e

/-- A clause without a free literal to offer is not open, so it is true or false by now. A search
that finds none has nothing to decide in its clauses. -/
theorem Clause.value_ne_none_of_free?_eq_none {t : Trail} {c : Clause} (h : c.free? t = none) :
    c.value t ≠ none := by
  intro open_
  rw [free?, if_pos open_, List.find?_eq_none] at h
  -- every literal has a value, and none is true, so all are false and so is the clause
  have some_ : ∀ l ∈ c, t.value l ≠ none := fun l hl => by simpa using h l hl
  have notTrue : ¬ ∃ l ∈ c, t.value l = some true := fun e => by
    rw [value_eq_some_true.2 e] at open_
    cases open_
  have allFalse : ∀ l ∈ c, t.value l = some false := fun l hl => by
    cases hv : t.value l with
    | none => exact absurd hv (some_ l hl)
    | some b =>
      cases b with
      | false => rfl
      | true => exact absurd ⟨l, hl, hv⟩ notTrue
  rw [value_eq_some_false.2 allFalse] at open_
  cases open_

/-- A clause forces a literal just if that one is free and the others are false. The literal may
occur more than once in the clause; what counts is that no other literal is free. -/
theorem Clause.unit?_eq_some_iff {t : Trail} {c : Clause} {l : Literal} :
    c.unit? t = some l ↔
      l ∈ c ∧ t.value l = none ∧ ∀ k ∈ c, k = l ∨ t.value k = some false := by
  constructor
  · intro h
    obtain ⟨hl, free, open_, only⟩ := unit?_eq_some h
    refine ⟨hl, free, fun k hk => ?_⟩
    cases hv : t.value k with
    | none => exact .inl (only k hk hv)
    | some b =>
      cases b with
      | false => exact .inr rfl
      | true =>
        rw [value_eq_some_true.2 ⟨k, hk, hv⟩] at open_
        cases open_
  · intro ⟨hl, free, others⟩
    -- a literal is free, so the clause is not false, and none of the others is true
    have open_ : c.value t = none := by
      cases hv : c.value t with
      | none => rfl
      | some b =>
        cases b with
        | false =>
          rw [value_eq_some_false.1 hv l hl] at free
          cases free
        | true =>
          obtain ⟨k, hk, ht⟩ := value_eq_some_true.1 hv
          rcases others k hk with rfl | hf
          · rw [ht] at free; cases free
          · rw [ht] at hf; cases hf
    have only : ∀ k ∈ c.filter fun k => t.value k = none, k = l := by
      intro k hk
      obtain ⟨hkc, hv⟩ := List.mem_filter.1 hk
      refine (others k hkc).resolve_right fun hf => ?_
      simp [hf] at hv
    have mem : l ∈ c.filter fun k => t.value k = none := List.mem_filter.2 ⟨hl, by simp [free]⟩
    rw [unit?]
    split
    · next nothing =>
      rw [nothing] at mem
      cases mem
    · next k ks e =>
      rw [e] at only
      have first : k = l := only k List.mem_cons_self
      have same : ∀ x ∈ ks, x = k := by
        intro x hx
        rw [first, only x (List.mem_cons_of_mem k hx)]
      rw [if_pos ⟨open_, same⟩, first]

/-- When no clause is false and none is open, all of them are true. This is the state in which a
search stops looking for literals in its clauses. -/
theorem Formula.value_eq_some_true_of_mem {t : Trail} {f : Formula}
    (noConflict : f.value t ≠ some false) (noFree : f.free? t = none) {c : Clause} (hc : c ∈ f) :
    c.value t = some true := by
  have notOpen : c.value t ≠ none :=
    Clause.value_ne_none_of_free?_eq_none (List.findSome?_eq_none_iff.1 noFree c hc)
  cases hv : c.value t with
  | none => exact absurd hv notOpen
  | some b =>
    cases b with
    | false => exact absurd (Formula.value_eq_some_false.2 ⟨c, hc, hv⟩) noConflict
    | true => rfl

namespace Trail

/-- The literals of a well-formed trail do not contradict each other, since no variable occurs
twice. An assignment that is handed out is consistent for this reason. -/
theorem WellFormed.consistent {t : Trail} (h : t.WellFormed) : t.assignment.Consistent := by
  intro l hl hn
  have htrue := h.value_eq_some_true.2 (mem_assignment.1 hl)
  have hfalse := h.value_eq_some_false.2 (mem_assignment.1 hn)
  rw [htrue] at hfalse
  cases hfalse

end Trail

namespace Search

variable {τ : Type} [Theory τ] {o : Options} {oversight : Oversight} {s s' : State τ}

/-- A search keeps its trail well formed. The choices of a step provide what `Trail.WellFormed.push`
asks for: a literal that is forced, offered or left over has a variable without a value. -/
theorem Move.wellFormed (m : Move o oversight s s') (h : s.trail.WellFormed) :
    s'.trail.WellFormed := by
  cases m with
  | backtrack _ back => exact h.backtrack? back
  | approve => exact h
  | learn => exact h
  | propagate _ _ forced =>
    obtain ⟨c, _, hunit⟩ := Formula.unit?_eq_some forced
    exact h.push _ (Trail.value_eq_none.1 (Clause.unit?_eq_some hunit).2.1)
  | decide _ _ _ free =>
    obtain ⟨c, _, hfree⟩ := Formula.free?_eq_some free
    refine h.push _ ?_
    rw [Literal.var_withPolarity, Literal.var_atom]
    exact Trail.value_eq_none.1 (Clause.free?_eq_some hfree).2.1
  | complete _ _ _ _ left =>
    refine h.push _ ?_
    rw [Literal.var_withPolarity]
    exact (Trail.firstFree?_eq_some left).2

/-- The clauses that a search works on hold whenever all its clauses do. -/
def State.SameMeaning {τ : Type} (s : State τ) : Prop :=
  ∀ ρ, s.working.holds ρ = s.clauses.holds ρ

/-- A search learns clauses for both of its formulas, so they go on to mean the same. No other move
changes either of them. -/
theorem Move.sameMeaning (m : Move o oversight s s') (h : s.SameMeaning) : s'.SameMeaning := by
  cases m with
  | learn =>
    intro ρ
    show Formula.holds ρ (s.working ++ [_]) = Formula.holds ρ (s.clauses ++ [_])
    rw [Formula.holds_append, Formula.holds_append, h ρ]
  | _ => exact h

omit [Theory τ] in
/-- A search starts with clauses that mean the same, since pruning keeps the meaning. Without
pruning they are the same clauses. -/
theorem sameMeaning_start (o : Options) (f : Formula) (n : Nat) (theory : τ) :
    (State.start o f n theory).SameMeaning := by
  intro ρ
  show Formula.holds ρ (if o.simplify then f.prune else f) = f.holds ρ
  split
  · exact f.holds_prune ρ
  · rfl

/-- A search keeps its clauses in front and only adds to them. So the clauses that it was given are
still there in the end, in their order. -/
theorem Move.clauses_prefix (m : Move o oversight s s') : s.clauses <+: s'.clauses := by
  cases m with
  | learn => exact List.prefix_append _ _
  | _ => exact List.prefix_rfl

omit [Theory τ] in
/-- When nothing is left to be assigned, a literal of each clause is on the trail. It makes the
clause true under whatever gives the literals of the trail their values. -/
theorem State.Finished.exists_mem (finished : s.Finished oversight) (h : s.trail.WellFormed)
    {c : Clause} (hc : c ∈ s.working) : ∃ l ∈ c, l ∈ s.trail.assignment := by
  have isTrue := Formula.value_eq_some_true_of_mem finished.noConflict finished.noFree hc
  obtain ⟨l, hl, ht⟩ := Clause.value_eq_some_true.1 isTrue
  exact ⟨l, hl, Trail.mem_assignment.2 (h.value_eq_some_true.1 ht)⟩

omit [Theory τ] in
/-- When nothing is left to be assigned, the clauses hold under the valuation that makes just the
positive literals of the trail true. -/
theorem State.Finished.holds (finished : s.Finished oversight) (h : s.trail.WellFormed) :
    s.working.holds s.trail.assignment.valuation = true := by
  refine Formula.holds_iff.2 fun c hc => ?_
  obtain ⟨l, hl, hmem⟩ := finished.exists_mem h hc
  exact Clause.holds_iff.2 ⟨l, hl, h.consistent.holds hmem⟩

/-- An assignment with which a search ends is that of its trail, and nothing was left to do. Both
ways to end so say this, with the theory asked last or seen before. -/
theorem Halt.finished_of_sat {r : Result τ} {m : Assignment} (halt : Halt o oversight s r)
    (sat : r.answer = .ok (.sat m)) :
    m = s.trail.assignment ∧ s.Finished oversight ∧ r.clauses = s.clauses := by
  cases halt with
  | accept _ finished => cases sat; exact ⟨rfl, finished, rfl⟩
  | approved _ finished => cases sat; exact ⟨rfl, finished, rfl⟩
  | _ => cases sat

/-- An assignment with which a search ends satisfies all clauses, also those that pruning left out
of the search and those learned from the theory on the way. -/
theorem Halt.holds_of_sat {r : Result τ} {m : Assignment} (halt : Halt o oversight s r)
    (sat : r.answer = .ok (.sat m)) (h : s.trail.WellFormed) (same : s.SameMeaning) :
    r.clauses.holds m.valuation = true := by
  obtain ⟨rfl, finished, hc⟩ := halt.finished_of_sat sat
  rw [hc, ← same]
  exact finished.holds h

/-- A property that all moves keep holds in the state in which a search ends. Together with the
lemmas on `Halt` it gives what holds of results, with no further induction on runs. -/
theorem exists_halt_of_ends {P : State τ → Prop} {r : Result τ}
    (kept : ∀ s s', Move o oversight s s' → P s → P s') (hs : P s)
    (h : Process.Ends (step o oversight) s r) : ∃ s', P s' ∧ Halt o oversight s' r := by
  obtain ⟨s', reached, last⟩ := h.last
  exact ⟨s', reached.keeps (fun a b ha e => kept a b (move_of_step e) ha) hs, halt_of_step last⟩

end Search

end EqualityLogic
