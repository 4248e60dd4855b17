import EqualityLogic.Equality.Forest
import EqualityLogic.Process
import Mathlib.Data.List.Nodup
import Mathlib.Logic.Relation
import Mathlib.Order.WellFounded

/-!
# The members of a class

A forest keeps its trees twice, as parents and as lists of children. `Forest.find` reads the
parents, and `Forest.preorder` the lists. The two agree in a forest that is `Matched`: each index
that has a parent is listed by it, once, and by no other index. The type of forests guarantees one
half of that only, so it is stated apart, and every merge keeps it (`Matched.merge`).

In a matched forest the tree below an index lists what hangs under it, at any depth, once
(`mem_preorder`, `nodup_preorder`). No index is met twice: two children of one index would have to
hang under each other, and chains of parents do not come back. Below a root this makes up the class
(`Matched.count_classOf`), and the classes of all roots make up the universe
(`Matched.flatMap_classOf_perm`).

The functions are defined along the chains of a forest, so they always have a result. Two processes
say the same of plain links. `climb` goes from parent to parent, and `visit` takes indexes from a
stack, where it puts the children of each one in its place. Both come to an end (`ends_climb`,
`ends_visit`).
-/

set_option autoImplicit false

namespace EqualityLogic.Forest

open Process (Ends)

variable {n : Nat} {f : Forest n}

/-! ### Up the tree -/

/-- The index `x` hangs under `a`, at any depth, or is `a`. -/
def Below (f : Forest n) : Fin n → Fin n → Prop :=
  Relation.ReflTransGen fun x a => f.parent x = some a

/-- Each index hangs under its root, or is the root. -/
theorem below_find (f : Forest n) (x : Fin n) : f.Below x (f.find x) := by
  fun_induction find f x with
  | case1 x h => exact .refl
  | case2 x p h ih => exact ih.head h

/-- What hangs under an index has its root, since the way up from there leads through that index. -/
theorem Below.find_eq {x a : Fin n} (h : f.Below x a) : f.find x = f.find a := by
  induction h with
  | refl => rfl
  | tail _ hparent ih => rw [ih, find_of_parent_eq_some hparent]

/-- The class of a root is what hangs under it. This ties the way up, which finds the root of an
index, to the way down, which lists the members of a class. -/
theorem find_eq_iff_below {x r : Fin n} (root : f.parent r = none) :
    f.find x = r ↔ f.Below x r := by
  constructor
  · intro h
    rw [← h]
    exact f.below_find x
  · intro h
    rw [h.find_eq, find_of_parent_eq_none root]

/-- Chains of parents do not come back to where they started, as the links of a forest go down a
well-founded relation. -/
theorem not_below_of_parent {x a : Fin n} (h : f.parent x = some a) : ¬ f.Below a x := by
  intro back
  have cycle : Relation.TransGen (fun x a => f.parent x = some a) x x :=
    Relation.TransGen.head' h back
  exact f.downward.transGen.irrefl.irrefl x cycle

/-- An index hangs under one child of each index at most: of two children on the way up from it, one
would hang under the other, and so under their common parent twice. -/
theorem Below.eq_of_siblings {x c c' a : Fin n} (h : f.Below x c) (h' : f.Below x c')
    (hc : f.parent c = some a) (hc' : f.parent c' = some a) : c = c' := by
  -- the chain of parents from `x` meets both, so one of them hangs under the other
  have one : f.Below c c' ∨ f.Below c' c :=
    Relation.ReflTransGen.total_of_right_unique
      (fun _ _ _ e e' => Option.some.inj (e.symm.trans e')) h h'
  by_contra hne
  rcases one with between | between
  · rcases between.cases_head with rfl | ⟨p, hp, above⟩
    · exact hne rfl
    · obtain rfl : p = a := Option.some.inj (hp.symm.trans hc)
      exact not_below_of_parent hc' above
  · rcases between.cases_head with rfl | ⟨p, hp, above⟩
    · exact hne rfl
    · obtain rfl : p = a := Option.some.inj (hp.symm.trans hc')
      exact not_below_of_parent hc above

/-- Goes from an index to its parent, or ends at a root. -/
def climb (f : Forest n) (a : Fin n) : Step (Fin n) (Fin n) :=
  match f.parent a with
  | none => .done a
  | some p => .next p

/-- The way up ends at the root, by induction along the links. The process knows nothing of why it
ends; that is a matter of the forest. -/
theorem ends_climb (f : Forest n) (a : Fin n) : Ends f.climb a (f.find a) := by
  fun_induction find f a with
  | case1 a h => exact .done (by simp [climb, h])
  | case2 a p h ih => exact .next (by simp [climb, h]) ih

/-! ### Children and parents -/

/-- Each index that has a parent is listed by it, once, and by no other index. -/
def Matched (f : Forest n) : Prop :=
  ∀ a b, (f.childrenOf a).count b = if f.parent b = some a then 1 else 0

/-- In a matched forest an index lists those whose parent it is. Both ways to read a link are open
from here on. -/
theorem Matched.mem_childrenOf (h : f.Matched) {a c : Fin n} :
    c ∈ f.childrenOf a ↔ f.parent c = some a := by
  rw [← List.count_pos_iff, h]
  split <;> simp [*]

/-- In a matched forest an index lists no child twice, so a walk through the lists meets no child
again. -/
theorem Matched.nodup_childrenOf (h : f.Matched) (a : Fin n) : (f.childrenOf a).Nodup := by
  rw [List.nodup_iff_count_le_one]
  intro c
  rw [h]
  split <;> omega

/-- Single indexes have no parents and no children, so they match. All forests come from these. -/
theorem matched_discrete : (discrete n).Matched := by
  intro a b
  simp [childrenOf, parent, discrete]

/-- Hanging a root under another one adds it to that one's list, and to no other. It goes to the end
of the list, so the order is that of the merges. -/
theorem childrenOf_link {p c : Fin n} (hp : f.parent p = none) (hc : f.parent c = none)
    (hne : p ≠ c) (a : Fin n) :
    (f.link hp hc hne).childrenOf a =
      if p = a then f.childrenOf a ++ [c] else f.childrenOf a := by
  show (f.children.set p (f.childrenOf p ++ [c]))[a] = _
  simp only [Fin.getElem_fin, Vector.getElem_set, Fin.val_inj]
  by_cases h : p = a
  · simp [h]
  · simp [h, childrenOf]

/-- Hanging a root under another one keeps parents and children in step, since a root was listed
nowhere before. -/
theorem Matched.link (h : f.Matched) {p c : Fin n} (hp : f.parent p = none)
    (hc : f.parent c = none) (hne : p ≠ c) : (f.link hp hc hne).Matched := by
  intro a b
  rw [childrenOf_link, parent_link]
  by_cases hb : c = b
  · -- the root that is hung was listed nowhere before
    subst hb
    have unlisted : (f.childrenOf a).count c = 0 := by
      rw [h, hc]
      simp
    by_cases ha : p = a <;> simp [ha, unlisted]
  · have other : [c].count b = 0 := by simp [hb]
    by_cases ha : p = a <;> simp [ha, hb, other, h a b]

/-- A merge keeps parents and children in step. It links the roots of its two indexes, or does
nothing when they are the same. -/
theorem Matched.merge (h : f.Matched) (a b : Fin n) : (f.merge a b).Matched := by
  unfold Forest.merge
  split
  · exact h
  · exact h.link _ _ _

/-! ### Down the tree -/

/-- The tree below an index is that index and the trees below its children, in the order of the
list. -/
theorem preorder_eq (f : Forest n) (a : Fin n) :
    f.preorder a = a :: (f.childrenOf a).flatMap f.preorder := by
  rw [preorder]
  simp

/-- The tree below an index holds what hangs under it. The induction goes along the links, and each
index below is the top or below one of the children. -/
theorem Matched.mem_preorder (h : f.Matched) {x a : Fin n} :
    x ∈ f.preorder a ↔ f.Below x a := by
  induction a using f.downward.induction with
  | h a ih =>
      -- below `a` is `a` itself and what is below one of its children
      have split : f.Below x a ↔ x = a ∨ ∃ c, f.Below x c ∧ f.parent c = some a :=
        (Relation.ReflTransGen.cases_tail_iff _ x a).trans (by rw [eq_comm]; rfl)
      rw [preorder_eq, List.mem_cons, List.mem_flatMap, split]
      refine or_congr_right (exists_congr fun c => ?_)
      rw [h.mem_childrenOf, and_comm]
      exact and_congr_left fun hc => ih c hc

/-- The tree below an index holds nothing twice: not the top again, since chains do not come back,
and nothing below two children. -/
theorem Matched.nodup_preorder (h : f.Matched) (a : Fin n) : (f.preorder a).Nodup := by
  induction a using f.downward.induction with
  | h a ih =>
      rw [preorder_eq, List.nodup_cons, List.nodup_flatMap]
      refine ⟨?_, ?_, ?_⟩
      · -- the index itself does not hang under its children
        intro mem
        obtain ⟨c, hc, hac⟩ := List.mem_flatMap.1 mem
        exact not_below_of_parent (h.mem_childrenOf.1 hc) (h.mem_preorder.1 hac)
      · intro c hc
        exact ih c (h.mem_childrenOf.1 hc)
      · -- what hangs below two children would make them the same
        refine (h.nodup_childrenOf a).imp_of_mem fun {c c'} hc hc' hne => ?_
        intro x hx hx'
        exact hne ((h.mem_preorder.1 hx).eq_of_siblings (h.mem_preorder.1 hx')
          (h.mem_childrenOf.1 hc) (h.mem_childrenOf.1 hc'))

/-- Takes the top of a stack into the list of members and puts its children in its place, or ends
with the members when the stack is empty. -/
def visit (f : Forest n) :
    List (Fin n) × List (Fin n) → Step (List (Fin n) × List (Fin n)) (List (Fin n))
  | ([], members) => .done members
  | (a :: todo, members) => .next (f.childrenOf a ++ todo, members ++ [a])

/-- A visit gets through the tree of the index on top, and goes on with the rest. The members that
are listed in between are those of `preorder`, in the same order. -/
theorem ends_visit_cons (f : Forest n) {a : Fin n} {todo members r : List (Fin n)}
    (rest : Ends f.visit (todo, members ++ f.preorder a) r) :
    Ends f.visit (a :: todo, members) r := by
  induction a using f.downward.induction generalizing todo members with
  | h a ih =>
      -- the trees of the children are gone through one after the other
      have siblings : ∀ (cs : List (Fin n)) (members : List (Fin n)),
          (∀ c ∈ cs, f.parent c = some a) →
          Ends f.visit (todo, members ++ cs.flatMap f.preorder) r →
          Ends f.visit (cs ++ todo, members) r := by
        intro cs
        induction cs with
        | nil =>
            intro members _ h
            simpa using h
        | cons c cs ihcs =>
            intro members hcs h
            refine ih c (hcs c List.mem_cons_self) (ihcs _ ?_ ?_)
            · intro d hd
              exact hcs d (List.mem_cons_of_mem c hd)
            · simpa using h
      refine .next rfl (siblings (f.childrenOf a) (members ++ [a]) ?_ ?_)
      · intro c hc
        exact f.parent_of_mem hc
      · rw [preorder_eq] at rest
        simpa using rest

/-- A visit that starts at the root of an index ends with the index's class. So the loop over a
stack and the recursion along the links say the same. -/
theorem ends_visit (f : Forest n) (a : Fin n) :
    Ends f.visit ([f.find a], []) (f.classOf a) :=
  f.ends_visit_cons (.done (by simp [visit, classOf]))

/-! ### Classes and roots -/

/-- The first member that a class lists is its representative. -/
theorem head?_classOf (f : Forest n) (a : Fin n) : (f.classOf a).head? = some (f.find a) := by
  rw [classOf, preorder_eq]
  rfl

/-- Two indexes are in one class just if their roots are the same, so the test is an equivalence
without further proof. -/
theorem sameClass_iff {a b : Fin n} : f.sameClass a b = true ↔ f.find a = f.find b := by
  simp [sameClass]

/-- The class of an index lists those that are in one class with it, found by the way down from the
root. -/
theorem Matched.mem_classOf (h : f.Matched) {a b : Fin n} :
    b ∈ f.classOf a ↔ f.sameClass a b = true := by
  rw [classOf, h.mem_preorder, ← find_eq_iff_below (f.parent_find a), sameClass_iff, eq_comm]

/-- A class lists its members once, and nothing else. As a count it says both in one equation. -/
theorem Matched.count_classOf (h : f.Matched) (a b : Fin n) :
    (f.classOf a).count b = if f.sameClass a b then 1 else 0 := by
  have nodup : (f.classOf a).Nodup := h.nodup_preorder (f.find a)
  rw [nodup.count]
  exact if_congr h.mem_classOf rfl rfl

/-- The roots are the indexes without a parent. -/
theorem mem_roots {a : Fin n} : a ∈ f.roots ↔ f.parent a = none := by
  simp [roots]

/-- The classes of the roots make up the universe: each index is in the class of its own root, and
in that of no other. -/
theorem Matched.flatMap_classOf_perm (h : f.Matched) :
    (f.roots.flatMap f.classOf).Perm (List.finRange n) := by
  have nodup : (f.roots.flatMap f.classOf).Nodup := by
    rw [List.nodup_flatMap]
    refine ⟨fun r _ => h.nodup_preorder (f.find r), ?_⟩
    have roots : f.roots.Nodup := (List.nodup_finRange n).filter _
    refine roots.imp_of_mem fun {r s} hr hs hne => ?_
    intro x hx hx'
    -- a common member would have two roots
    have same : f.find r = f.find s :=
      (sameClass_iff.1 (h.mem_classOf.1 hx)).trans (sameClass_iff.1 (h.mem_classOf.1 hx')).symm
    rw [find_of_parent_eq_none (mem_roots.1 hr), find_of_parent_eq_none (mem_roots.1 hs)] at same
    exact hne same
  rw [List.perm_ext_iff_of_nodup nodup (List.nodup_finRange n)]
  intro x
  refine iff_of_true ?_ (List.mem_finRange x)
  rw [List.mem_flatMap]
  refine ⟨f.find x, mem_roots.2 (f.parent_find x), h.mem_classOf.2 (sameClass_iff.2 ?_)⟩
  exact find_of_parent_eq_none (f.parent_find x)

end EqualityLogic.Forest
