import EqualityLogic.Proofs.Equality.Explanation
import Mathlib.Logic.Function.Basic

/-!
# Renamed variables

The theory of equality does not depend on what its variables are, nor on which side of an equation
is the left one. In a `Renamed` table the atoms have their sides renamed by an injection, in either
order. The renamed variables may stand in another order, and there may be more of them.

The two tables have atoms for the same literals, so they give the same explanations
(`Renamed.explanation_eq`), and they have the same realisable assignments: an interpretation of the
renamed variables is one of the given variables, and the other way round one of the given variables
can be extended to those that no atom mentions (`Renamed.realisable_iff`). These two facts make up
all of what a theory says, so renamed theories give the same verdicts
(`EqualityTheory.verdict_check_renamed`), although the forests that they make may have other roots.
-/

set_option autoImplicit false

namespace EqualityLogic

namespace AtomTable

variable {n n' : Nat}

/-- The same atoms, with their sides renamed by an injection. The sides may also be swapped, for
each atom on its own, and the tables list their atoms under the same numbers. -/
structure Renamed (σ : Fin n → Fin n') (atoms : AtomTable n) (atoms' : AtomTable n') : Prop where
  injective : Function.Injective σ
  ids : atoms'.atoms.map Atom.id = atoms.atoms.map Atom.id
  sides : ∀ a ∈ atoms.atoms, ∀ b ∈ atoms'.atoms, b.id = a.id →
    b.left = σ a.left ∧ b.right = σ a.right ∨ b.left = σ a.right ∧ b.right = σ a.left

variable {σ : Fin n → Fin n'} {atoms : AtomTable n} {atoms' : AtomTable n'} {m : Assignment}

/-- A table has an atom for a literal just if it has one with the number of its variable, so only
the numbers of a table decide which literals are about an equation. -/
theorem isSome_atomOf?_iff {l : Literal} :
    (atoms.atomOf? l).isSome = true ↔ l.var ∈ atoms.atoms.map Atom.id := by
  rw [Option.isSome_iff_exists, List.mem_map]
  exact exists_congr fun a => atomOf?_eq_some

namespace Renamed

/-- Renamed tables have atoms for the same literals, as they list the same numbers. What an
explanation leaves out is then the same as well. -/
theorem isSome_atomOf?_eq (h : Renamed σ atoms atoms') (l : Literal) :
    (atoms'.atomOf? l).isSome = (atoms.atomOf? l).isSome := by
  rw [Bool.eq_iff_iff, isSome_atomOf?_iff, isSome_atomOf?_iff, h.ids]

/-- What a literal is about in the one table, it is about in the other. The two atoms are related by
`sides_eq_iff`. -/
theorem exists_atomOf? (h : Renamed σ atoms atoms') {l : Literal} {a : Atom n}
    (ha : atoms.atomOf? l = some a) : ∃ b, atoms'.atomOf? l = some b := by
  rw [← Option.isSome_iff_exists, h.isSome_atomOf?_eq, ha]
  rfl

/-- The sides of an atom are equal just if those of the renamed atom are, swapped or not. The one
condition is that the interpretations make the same variables equal. -/
theorem sides_eq_iff (h : Renamed σ atoms atoms') {l : Literal} {a : Atom n} {b : Atom n'}
    (ha : atoms.atomOf? l = some a) (hb : atoms'.atomOf? l = some b) {D D' : Type} {I : Fin n → D}
    {I' : Fin n' → D'} (same : ∀ x y, I' (σ x) = I' (σ y) ↔ I x = I y) :
    I' b.left = I' b.right ↔ I a.left = I a.right := by
  obtain ⟨ha, hid⟩ := atomOf?_eq_some.1 ha
  obtain ⟨hb, hid'⟩ := atomOf?_eq_some.1 hb
  rcases h.sides a ha b hb (hid'.trans hid.symm) with ⟨hl, hr⟩ | ⟨hl, hr⟩
  · rw [hl, hr]
    exact same a.left a.right
  · -- an equation says the same when it is read the other way round
    rw [hl, hr, same a.right a.left]
    exact eq_comm

/-- Interpretations that make the same variables equal realise the same assignments. Their domains
may differ, and so may what the second one says of variables that are no image of a given one. -/
theorem realises_iff (h : Renamed σ atoms atoms') {D D' : Type} {I : Fin n → D} {I' : Fin n' → D'}
    (same : ∀ x y, I' (σ x) = I' (σ y) ↔ I x = I y) :
    atoms'.Realises m I' ↔ atoms.Realises m I := by
  constructor
  · intro realises l hl a ha
    obtain ⟨b, hb⟩ := h.exists_atomOf? ha
    rw [realises l hl b hb]
    exact h.sides_eq_iff ha hb same
  · intro realises l hl b hb
    -- the atom of the one table has its partner in the other, since both list the same numbers
    have some_ : (atoms.atomOf? l).isSome = true := by
      rw [← h.isSome_atomOf?_eq, hb]
      rfl
    obtain ⟨a, ha⟩ := Option.isSome_iff_exists.1 some_
    rw [realises l hl a ha]
    exact (h.sides_eq_iff ha hb same).symm

/-- Renamed equations can be realised together just if the given ones can. An interpretation of the
given variables is carried along the injection, with a new value for all that is not in its image.
-/
theorem realisable_iff (h : Renamed σ atoms atoms') : atoms'.Realisable m ↔ atoms.Realisable m := by
  constructor
  · -- a given variable takes the value of its new name
    rintro ⟨D, I, realises⟩
    exact ⟨D, I ∘ σ, (h.realises_iff fun _ _ => Iff.rfl).1 realises⟩
  · -- variables that are new take a value that is new
    rintro ⟨D, I, realises⟩
    let I' : Fin n' → Option D := Function.extend σ (some ∘ I) fun _ => none
    refine ⟨Option D, I', (h.realises_iff ?_).2 realises⟩
    intro x y
    show Function.extend σ (some ∘ I) _ (σ x) = Function.extend σ (some ∘ I) _ (σ y) ↔ I x = I y
    rw [h.injective.extend_apply, h.injective.extend_apply]
    exact Option.some_inj

/-- A rejection is explained in the same way, for an explanation depends on which literals have an
atom and not on what the atoms say. -/
theorem explanation_eq (h : Renamed σ atoms atoms') (m : Assignment) :
    atoms'.explanation m = atoms.explanation m := by
  rw [AtomTable.explanation_eq, AtomTable.explanation_eq]
  exact congrArg _ (List.filter_congr fun l _ => h.isSome_atomOf?_eq l)

/-- Renamed tables have the same largest number, so problems over them have as many variables. -/
theorem maxId_eq (h : Renamed σ atoms atoms') : atoms'.maxId = atoms.maxId :=
  congrArg (List.foldr max 0) h.ids

end Renamed

end AtomTable

namespace EqualityTheory

variable {n n' : Nat} {σ : Fin n → Fin n'} {t : EqualityTheory n} {t' : EqualityTheory n'}

/-- Theories of renamed atoms give the same verdicts, whatever has happened to either of them
before. -/
theorem verdict_check_renamed (h : AtomTable.Renamed σ t.atoms t'.atoms) (m : Assignment) :
    (t'.check m).verdict = (t.check m).verdict := by
  by_cases hm : t.atoms.Realisable m
  · rw [verdict_check_eq_consistent.2 hm, verdict_check_eq_consistent]
    exact h.realisable_iff.2 hm
  · rw [verdict_check_eq_inconsistent.2 hm, verdict_check_eq_inconsistent]
    exact mt h.realisable_iff.1 hm

end EqualityTheory

end EqualityLogic
