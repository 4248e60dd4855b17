import EqualityLogic.Equality.Forest
import Mathlib.Logic.Relation

/-!
# The partition that a forest stands for

A forest is read through its roots only: two indexes are in one class when they have the same root.
`find_merge` is the law of that reading. A merge sends the indexes under the second root to the
first one and leaves all others where they were, whatever the trees look like inside.

`Represents f r` says that the classes of `f` are those of the relation `r`: two indexes share a
root just if a chain of related pairs joins them. The forest of single indexes represents the empty
relation (`represents_discrete`), and merging `a` with `b` adds the pair `(a, b)` to the relation
(`Represents.merge`). A run of merges then represents the set of the merged pairs
(`represents_foldl_merge`), which is all that the theory of equality asks of a forest.
-/

set_option autoImplicit false

namespace EqualityLogic

/-- A function that agrees on related values agrees on all that a chain of them joins, since
equality of its values is itself an equivalence. -/
theorem eq_of_eqvGen {α β : Type} {r : α → α → Prop} {v : α → β}
    (agrees : ∀ x y, r x y → v x = v y) {x y : α} (h : Relation.EqvGen r x y) : v x = v y :=
  congrArg (Quot.lift v agrees) (Quot.eqvGen_sound h)

namespace Forest

variable {n : Nat}

/-- Hanging `c` under `p` gives the indexes under `c` the root `p`, and leaves the roots of all
others. Both have to be roots, or the link would be no tree edge. -/
theorem find_link {f : Forest n} {p c : Fin n} (hp : f.parent p = none) (hc : f.parent c = none)
    (hne : p ≠ c) (x : Fin n) :
    (f.link hp hc hne).find x = if f.find x = c then p else f.find x := by
  have hroot : (f.link hp hc hne).parent p = none := by
    rw [parent_link, if_neg (Ne.symm hne), hp]
  -- up the chain of parents from `x`, which only `c` leaves in another way than before
  fun_induction find f x with
  | case1 x h =>
      by_cases hx : x = c
      · subst hx
        have hparent : (f.link hp hc hne).parent x = some p := by
          rw [parent_link, if_pos rfl]
        rw [if_pos rfl, find_of_parent_eq_some hparent, find_of_parent_eq_none hroot]
      · have hparent : (f.link hp hc hne).parent x = none := by
          rw [parent_link, if_neg (Ne.symm hx), h]
        rw [if_neg hx, find_of_parent_eq_none hparent]
  | case2 x q h ih =>
      have hx : c ≠ x := by
        intro e
        rw [e, h] at hc
        cases hc
      have hparent : (f.link hp hc hne).parent x = some q := by
        rw [parent_link, if_neg hx, h]
      rw [find_of_parent_eq_some hparent, ih]

/-- A merge gives the members of the second class the root of the first one. When the classes are
the same already this says that nothing changes. -/
theorem find_merge (f : Forest n) (a b x : Fin n) :
    (f.merge a b).find x = if f.find x = f.find b then f.find a else f.find x := by
  unfold merge
  split
  · next same =>
    by_cases hx : f.find x = f.find b
    · rw [if_pos hx, hx, same]
    · rw [if_neg hx]
  · exact find_link _ _ _ x

/-- The classes of a forest are those that a relation generates. -/
def Represents (f : Forest n) (r : Fin n → Fin n → Prop) : Prop :=
  ∀ x y, f.find x = f.find y ↔ Relation.EqvGen r x y

/-- Single indexes are joined by nothing, so each is related to itself alone. -/
theorem represents_discrete : (discrete n).Represents fun _ _ => False := by
  intro x y
  have hfind : ∀ z, (discrete n).find z = z := fun z =>
    find_of_parent_eq_none (by simp [parent, discrete])
  rw [hfind, hfind]
  constructor
  · rintro rfl
    exact .refl x
  · exact eq_of_eqvGen (v := id) fun _ _ h => h.elim

/-- Merging two indexes relates them, and nothing else. The pair joins two classes of the relation
as a whole, which is what the new root of the second class shows. -/
theorem Represents.merge {f : Forest n} {r : Fin n → Fin n → Prop} (h : f.Represents r)
    (a b : Fin n) : (f.merge a b).Represents fun x y => r x y ∨ x = a ∧ y = b := by
  intro x y
  have hold : ∀ {u v}, f.find u = f.find v →
      Relation.EqvGen (fun x y => r x y ∨ x = a ∧ y = b) u v := fun {u v} e =>
    Relation.EqvGen.mono (fun _ _ => .inl) _ _ ((h u v).1 e)
  have hab : Relation.EqvGen (fun x y => r x y ∨ x = a ∧ y = b) a b := .rel _ _ (.inr ⟨rfl, rfl⟩)
  constructor
  · intro e
    rw [find_merge, find_merge] at e
    by_cases hx : f.find x = f.find b
    · by_cases hy : f.find y = f.find b
      · exact hold (hx.trans hy.symm)
      · -- `x` is moved from the class of `b` to that of `a`, where `y` is
        rw [if_pos hx, if_neg hy] at e
        exact ((hold hx).trans _ _ _ (hab.symm _ _)).trans _ _ _ (hold e)
    · by_cases hy : f.find y = f.find b
      · rw [if_neg hx, if_pos hy] at e
        exact ((hold e).trans _ _ _ hab).trans _ _ _ (hold hy.symm)
      · rw [if_neg hx, if_neg hy] at e
        exact hold e
  · -- the new roots are equal along each related pair, so along a chain of them
    refine eq_of_eqvGen fun u v huv => ?_
    rw [find_merge, find_merge]
    rcases huv with huv | ⟨rfl, rfl⟩
    · rw [(h u v).2 (.rel u v huv)]
    · rw [if_pos rfl]
      split <;> rfl

/-- A run of merges relates just the pairs that are merged, besides those that were related before.
-/
theorem Represents.foldl_merge {α : Type} {f : Forest n} {r : Fin n → Fin n → Prop}
    (h : f.Represents r) (left right : α → Fin n) (ps : List α) :
    (ps.foldl (fun f p => f.merge (left p) (right p)) f).Represents
      fun x y => r x y ∨ ∃ p ∈ ps, x = left p ∧ y = right p := by
  induction ps generalizing f r with
  | nil => simpa using h
  | cons p ps ih =>
      have hrest := ih (h.merge (left p) (right p))
      rw [List.foldl_cons]
      simpa only [List.mem_cons, exists_eq_or_imp, or_assoc] using hrest

/-- Merges of single indexes make the classes that the merged pairs generate. The order of the
merges has no part in that, although it decides which index becomes a root. -/
theorem represents_foldl_merge {α : Type} (left right : α → Fin n) (ps : List α) :
    (ps.foldl (fun f p => f.merge (left p) (right p)) (discrete n)).Represents
      fun x y => ∃ p ∈ ps, x = left p ∧ y = right p := by
  simpa only [false_or] using represents_discrete.foldl_merge left right ps

end Forest

end EqualityLogic
