import EqualityLogic.Equality.Theory
import EqualityLogic.Proofs.Equality.Partition
import Mathlib.Data.List.Nodup

/-!
# Interpretations of the theory's variables

What the theory of equality is about. An interpretation gives each of the theory's variables a value
in some domain, and realises an assignment when the equations of the assignment have equal sides
and its disequations different ones.

The link to the forest is the relation `Linked`, the chains of equations of an assignment. Merging
the equations makes a forest with just these classes (`represents_mergeEquations`). Two theorems
rest on it:

* `realisable_iff`: an assignment can be realised just if none of its disequations is violated, that
  is, has linked sides. An interpretation that realises it keeps linked variables equal, and where
  nothing is violated, the roots of the forest are an interpretation.
* `valid_explanation`: the clause that explains the rejection of an assignment is a law of the
  theory. It holds under every valuation that gives the atoms the truth values of their equations,
  whatever the interpretation.
-/

set_option autoImplicit false

namespace EqualityLogic.AtomTable

variable {n : Nat} (atoms : AtomTable n) (m : Assignment)

/-- A literal is about the atom that bears the number of its variable. The definitions below look
atoms up with `atomOf?`; this fixes what that means, namely to be an atom of the table with that
number. No two atoms of a table have the same number, so the atom is the only one. -/
theorem atomOf?_eq_some {atoms : AtomTable n} {l : Literal} {a : Atom n} :
    atoms.atomOf? l = some a ↔ a ∈ atoms.atoms ∧ a.id = l.var := by
  have found : ∀ {b}, atoms.atomOf? l = some b → b ∈ atoms.atoms ∧ b.id = l.var := by
    intro b h
    have hid := List.find?_some h
    exact ⟨List.mem_of_find?_eq_some h, by simpa [Int.natCast_inj] using hid⟩
  constructor
  · exact found
  · rintro ⟨ha, hid⟩
    cases h : atoms.atomOf? l with
    | none =>
        have := List.find?_eq_none.1 h a ha
        simp [hid] at this
    | some b =>
        -- identifiers ascend, so no other atom bears the number
        have distinct : (atoms.atoms.map Atom.id).Nodup :=
          List.pairwise_map.2 (atoms.ascending.imp Nat.ne_of_lt)
        obtain ⟨hb, hid'⟩ := found h
        rw [List.inj_on_of_nodup_map distinct hb ha (hid'.trans hid.symm)]

/-- Positive literals have atoms with equal sides, negative ones atoms with different sides.
Literals without an atom do not matter. That `a` is the atom of `l` is said by the lookup `atomOf?`,
and means that `a` belongs to the table and has the number of the literal's variable
(`atomOf?_eq_some`). -/
def Realises {D : Type} (I : Fin n → D) : Prop :=
  ∀ l ∈ m, ∀ a, atoms.atomOf? l = some a → (l.isNegated = false ↔ I a.left = I a.right)

/-- Some interpretation, over some domain, realises the assignment. The domain is left open, so that
this is about equality alone and not about how many values there are. -/
def Realisable : Prop := ∃ (D : Type) (I : Fin n → D), atoms.Realises m I

/-- The variables are the sides of an equation of the assignment, the left one first: of an atom of
the table that has the number of a positive literal's variable. This is what the lookup `atomOf?`
comes to, by `atomOf?_eq_some`. -/
def Equates (x y : Fin n) : Prop :=
  ∃ l ∈ m, l.isNegated = false ∧ ∃ a, atoms.atomOf? l = some a ∧ x = a.left ∧ y = a.right

/-- A chain of equations of the assignment, each read in either direction, leads from one variable
to the other. -/
def Linked : Fin n → Fin n → Prop := Relation.EqvGen (atoms.Equates m)

/-- The literal is a disequation between linked variables. It is negative, and `a` is the atom of
the table with the number of its variable, as `atomOf?_eq_some` says of the lookup `atomOf?`. -/
def Violated (l : Literal) (a : Atom n) : Prop :=
  l.isNegated = true ∧ atoms.atomOf? l = some a ∧ atoms.Linked m a.left a.right

/-- Merging the equations makes the classes of linked variables, whatever the forest was before its
reset. -/
theorem represents_mergeEquations (f : Forest n) :
    (atoms.mergeEquations m f.reset).Represents (atoms.Equates m) := by
  have merged := Forest.represents_foldl_merge (fun p : Literal × Atom n => p.2.left)
    (fun p => p.2.right) ((atoms.theoryLiterals m).filter fun p => !p.1.isNegated)
  have same : (fun x y => ∃ p ∈ (atoms.theoryLiterals m).filter fun p => !p.1.isNegated,
      x = p.2.left ∧ y = p.2.right) = atoms.Equates m := by
    funext x y
    apply propext
    -- the pairs that are merged are the equations of the assignment, one for one
    constructor
    · rintro ⟨⟨l, a⟩, hp, hx, hy⟩
      obtain ⟨hmem, hpos⟩ := List.mem_filter.1 hp
      obtain ⟨hl, ha⟩ := (mem_theoryLiterals atoms m).1 hmem
      exact ⟨l, hl, by simpa using hpos, a, ha, hx, hy⟩
    · rintro ⟨l, hl, hpos, a, ha, hx, hy⟩
      exact ⟨(l, a), List.mem_filter.2 ⟨(mem_theoryLiterals atoms m).2 ⟨hl, ha⟩, by simp [hpos]⟩,
        hx, hy⟩
  rw [same] at merged
  rw [Forest.reset_eq_discrete]
  exact merged

/-- The same of the test for one class, which is how a check reads the forest after it has merged
the equations. -/
theorem sameClass_mergeEquations (f : Forest n) (x y : Fin n) :
    (atoms.mergeEquations m f.reset).sameClass x y = true ↔ atoms.Linked m x y := by
  unfold Forest.sameClass
  rw [decide_eq_true_eq]
  exact atoms.represents_mergeEquations m f x y

variable {atoms m}

/-- An interpretation that realises an assignment gives linked variables one value, as it does so
for the sides of each equation. -/
theorem Realises.eq_of_linked {D : Type} {I : Fin n → D} (h : atoms.Realises m I) {x y : Fin n}
    (linked : atoms.Linked m x y) : I x = I y := by
  refine eq_of_eqvGen (fun u v huv => ?_) linked
  obtain ⟨l, hl, hpos, a, ha, rfl, rfl⟩ := huv
  exact (h l hl a ha).1 hpos

/-- An assignment can be realised just if it violates none of its disequations. For the one
direction the roots of the merged forest serve as values: linked variables have the same root, and
the sides of a disequation that is not violated have different ones. -/
theorem realisable_iff : atoms.Realisable m ↔ ∀ l ∈ m, ∀ a, ¬ atoms.Violated m l a := by
  constructor
  · -- linked sides have one value, so the literal would have to be positive
    rintro ⟨D, I, h⟩ l hl a ⟨hneg, ha, linked⟩
    have hpos := (h l hl a ha).2 (h.eq_of_linked linked)
    rw [hneg] at hpos
    cases hpos
  · intro none_
    -- every variable takes the root of its class as its value
    let f := atoms.mergeEquations m (Forest.discrete n).reset
    refine ⟨Fin n, f.find, fun l hl a ha => ?_⟩
    have hfind : f.find a.left = f.find a.right ↔ atoms.Linked m a.left a.right :=
      atoms.represents_mergeEquations m (Forest.discrete n) a.left a.right
    rw [hfind]
    constructor
    · intro hpos
      exact .rel _ _ ⟨l, hl, hpos, a, ha, rfl, rfl⟩
    · intro linked
      cases hneg : l.isNegated with
      | false => rfl
      | true => exact absurd ⟨hneg, ha, linked⟩ (none_ l hl a)

/-! ### Laws of the theory -/

/-- The valuation gives each atom the truth value of its equation. -/
def Agrees {D : Type} (atoms : AtomTable n) (ρ : Valuation) (I : Fin n → D) : Prop :=
  ∀ a ∈ atoms.atoms, (ρ a.id = true ↔ I a.left = I a.right)

/-- A clause that the theory alone makes true. -/
def Valid (atoms : AtomTable n) (c : Clause) : Prop :=
  ∀ (D : Type) (I : Fin n → D) (ρ : Valuation), atoms.Agrees ρ I → c.holds ρ = true

/-- Literals that hold under a valuation are realised by an interpretation that agrees with it. Only
those with an atom are asked to hold, for an interpretation says nothing of the others. -/
theorem Agrees.realises {D : Type} {I : Fin n → D} {ρ : Valuation} (h : atoms.Agrees ρ I)
    (holds : ∀ p ∈ atoms.theoryLiterals m, p.1.holds ρ = true) : atoms.Realises m I := by
  intro l hl a ha
  have hlit : l.holds ρ = true := holds (l, a) ((mem_theoryLiterals atoms m).2 ⟨hl, ha⟩)
  obtain ⟨hmem, hid⟩ := atomOf?_eq_some.1 ha
  rw [← h a hmem, hid]
  unfold Literal.holds at hlit
  cases hneg : l.isNegated <;> simp_all

/-- The explanation of an assignment that cannot be realised is a law of the theory. If it failed
under a valuation that agrees with an interpretation, the literals that it negates would all hold
there, and the interpretation would realise the assignment. -/
theorem valid_explanation (h : ¬ atoms.Realisable m) : atoms.Valid (atoms.explanation m) := by
  intro D I ρ agrees
  rw [Clause.holds_iff]
  by_cases all : ∀ p ∈ atoms.theoryLiterals m, p.1.holds ρ = true
  · exact absurd ⟨D, I, agrees.realises all⟩ h
  · -- a literal of the assignment is false, and the explanation has its negation
    simp only [Classical.not_forall] at all
    obtain ⟨p, hp, hfalse⟩ := all
    refine ⟨p.1.negate, List.mem_map.2 ⟨p, hp, rfl⟩, ?_⟩
    rw [Literal.holds_negate, Bool.eq_false_iff.2 hfalse]
    rfl

end EqualityLogic.AtomTable
