import EqualityLogic.Cnf.Formula

/-!
# Valuations

The meaning of formulas: a valuation gives every variable a truth value, and a formula holds when
each of its clauses has a literal that holds. A literal and its negation never hold together
(`Literal.holds_negate`). An assignment lists literals; if it is consistent, they hold under the
valuation that it stands for (`Assignment.Consistent.holds`).
-/

set_option autoImplicit false

namespace EqualityLogic

/-- A truth value for every variable. -/
abbrev Valuation := Nat → Bool

/-- Whether a literal holds under a valuation. -/
def Literal.holds (ρ : Valuation) (l : Literal) : Bool := ρ l.var != l.isNegated

/-- Whether some literal of a clause holds. -/
def Clause.holds (ρ : Valuation) (c : Clause) : Bool := c.any (Literal.holds ρ)

/-- Whether all clauses of a formula hold. -/
def Formula.holds (ρ : Valuation) (f : Formula) : Bool := f.all (Clause.holds ρ)

/-- The literals that are true, in the order in which a search reports them. A partial assignment
leaves variables out. -/
abbrev Assignment := List Literal

/-- The valuation that makes just the positive literals of an assignment true. -/
def Assignment.valuation (m : Assignment) : Valuation := fun v =>
  m.any fun l => l.var == v && !l.isNegated

/-- Of a literal and its negation just one holds, under every valuation. So a literal that makes a
clause hold and one that rules it out cannot be negations of each other. -/
@[simp] theorem Literal.holds_negate (ρ : Valuation) (l : Literal) :
    l.negate.holds ρ = !l.holds ρ := by
  cases h : ρ l.var <;> cases h' : l.isNegated <;> simp [holds, h, h']

/-- An assignment that does not list a literal together with its negation. -/
def Assignment.Consistent (m : Assignment) : Prop := ∀ l ∈ m, l.negate ∉ m

/-- The literals of a consistent assignment hold under its valuation. That valuation makes a
variable true if its positive literal is listed; a negative literal holds because the positive one
cannot be listed too. -/
theorem Assignment.Consistent.holds {m : Assignment} (h : m.Consistent) {l : Literal}
    (mem : l ∈ m) : l.holds m.valuation = true := by
  rw [Literal.holds, Assignment.valuation]
  cases hs : l.isNegated with
  | false =>
    have : (m.any fun k => k.var == l.var && !k.isNegated) = true :=
      List.any_eq_true.2 ⟨l, mem, by simp [hs]⟩
    rw [this]
    rfl
  | true =>
    -- a negative literal holds unless its variable is listed as positive, which would be its
    -- negation
    have : (m.any fun k => k.var == l.var && !k.isNegated) = false := by
      rw [List.any_eq_false]
      intro k hk hkl
      rw [Bool.and_eq_true, beq_iff_eq, Bool.not_eq_true'] at hkl
      refine h l mem ?_
      have : l.negate = k :=
        Literal.eq_of_var_of_isNegated (by simp [hkl.1]) (by simp [hs, hkl.2])
      rwa [this]
    rw [this]
    rfl

/-- A clause holds by one of its literals. The clause without literals holds nowhere. -/
theorem Clause.holds_iff {ρ : Valuation} {c : Clause} :
    c.holds ρ = true ↔ ∃ l ∈ c, l.holds ρ = true := by
  simp [holds]

/-- A clause that negates literals of a consistent assignment is false under it. The clauses that
theories learn are of this kind, so each rules out the assignment that it explains. -/
theorem Assignment.Consistent.holds_eq_false {m : Assignment} (h : m.Consistent) {c : Clause}
    (negated : ∀ l ∈ c, l.negate ∈ m) : c.holds m.valuation = false := by
  refine List.any_eq_false.2 fun l hl e => ?_
  have := h.holds (negated l hl)
  rw [Literal.holds_negate, e] at this
  cases this

/-- A formula holds if each of its clauses does. So clauses may be added or dropped one at a time
when two formulas are compared. -/
theorem Formula.holds_iff {ρ : Valuation} {f : Formula} :
    f.holds ρ = true ↔ ∀ c ∈ f, c.holds ρ = true := by
  simp [holds]

/-- Two formulas hold together just if their clauses, put in one list, do. Clauses that are learned
join a formula in this way. -/
theorem Formula.holds_append {ρ : Valuation} {f g : Formula} :
    (f ++ g).holds ρ = (f.holds ρ && g.holds ρ) := by
  simp [holds]

end EqualityLogic
