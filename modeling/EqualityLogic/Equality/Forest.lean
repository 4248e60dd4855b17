/-!
# Forests of equivalence classes

A partition of the indexes below `n`, kept as a forest: each class is a tree, named by its root.
Merging hangs the second root under the first, so the shape of a tree tells the order in which its
classes were merged.

Parents and children say the same twice. The type keeps them in step, and keeps the parent links
free of cycles: chains of parents and chains of children both end, which is what makes `find` and
`preorder` end.
-/

set_option autoImplicit false

namespace EqualityLogic

/-- A forest over the indexes below `n`. -/
structure Forest (n : Nat) where
  /-- The parent of each index that is no root. -/
  parents : Vector (Option (Fin n)) n
  /-- The children of each index, in the order in which they came. -/
  children : Vector (List (Fin n)) n
  /-- A child's parent is the index that lists it. -/
  parent_of_mem : ∀ {a c : Fin n}, c ∈ children[a] → parents[c] = some a
  /-- Chains of parents end. -/
  upward : WellFounded fun p a : Fin n => parents[a] = some p
  /-- Chains of children end. -/
  downward : WellFounded fun c a : Fin n => parents[c] = some a

namespace Forest

variable {n : Nat}

/-- The forest of single indexes. -/
def discrete (n : Nat) : Forest n where
  parents := Vector.replicate n none
  children := Vector.replicate n []
  parent_of_mem h := by simp at h
  upward := ⟨fun _ => ⟨_, fun _ h => by simp at h⟩⟩
  downward := ⟨fun _ => ⟨_, fun _ h => by simp at h⟩⟩

/-- The forest with every merge forgotten: each index is its own class again. -/
def reset (f : Forest n) : Forest n where
  parents := f.parents.map fun _ => none
  children := f.children.map fun _ => []
  parent_of_mem h := by simp at h
  upward := ⟨fun _ => ⟨_, fun _ h => by simp at h⟩⟩
  downward := ⟨fun _ => ⟨_, fun _ h => by simp at h⟩⟩

/-- Forests are equal when they have the same parents and lists of children, since the other fields
are proofs. Equality of forests is decided by this. -/
theorem ext {f g : Forest n} (hp : f.parents = g.parents) (hc : f.children = g.children) :
    f = g := by
  cases f; cases g; cases hp; cases hc; rfl

/-- Nothing of a forest survives a reset. So a check, which starts with one, depends on no check
before it. -/
theorem reset_eq_discrete (f : Forest n) : f.reset = discrete n := by
  apply ext
  · show f.parents.map (fun _ => none) = Vector.replicate n none
    ext i hi
    simp
  · show f.children.map (fun _ => []) = Vector.replicate n []
    ext i hi
    simp

instance : DecidableEq (Forest n) := fun f g =>
  decidable_of_iff (f.parents = g.parents ∧ f.children = g.children)
    ⟨fun h => ext h.1 h.2, fun h => h ▸ ⟨rfl, rfl⟩⟩

/-- The parent of an index, unless it is a root. -/
def parent (f : Forest n) (a : Fin n) : Option (Fin n) := f.parents[a]

/-- The children of an index. -/
def childrenOf (f : Forest n) (a : Fin n) : List (Fin n) := f.children[a]

/-- The root of an index's tree, which names its class. -/
def find (f : Forest n) (a : Fin n) : Fin n :=
  match _h : f.parent a with
  | none => a
  | some p => f.find p
termination_by f.upward.wrap a
decreasing_by exact _h

/-- What `find` ends at is a root. `merge` needs this to link two roots, and it makes the root of a
class a name for it. -/
theorem parent_find (f : Forest n) (a : Fin n) : f.parent (f.find a) = none := by
  fun_induction find f a with
  | case1 a h => exact h
  | case2 a p h ih => exact ih

/-- The root of a root is the root itself. This is the end of the climb. -/
theorem find_of_parent_eq_none {f : Forest n} {a : Fin n} (h : f.parent a = none) :
    f.find a = a := by
  rw [find]
  split
  · rfl
  · next p h' => rw [h] at h'; cases h'

/-- An index has the root of its parent. This is one step of the climb, read as an equation. -/
theorem find_of_parent_eq_some {f : Forest n} {a p : Fin n} (h : f.parent a = some p) :
    f.find a = f.find p := by
  rw [find]
  split
  · next h' => rw [h] at h'; cases h'
  · next p' h' => rw [h] at h'; cases h'; rfl

/-- Whether two indexes are in one class. -/
def sameClass (f : Forest n) (a b : Fin n) : Bool := f.find a = f.find b

/-! ### Merging -/

section Link

variable (f : Forest n) {p c : Fin n} (hp : f.parent p = none) (hc : f.parent c = none)
  (hne : p ≠ c)

/-- The parents after `c` has been hung under `p`. Only `c` has a new one, which both proofs below
use to follow a chain through the old forest. -/
private theorem linked_parents (x : Fin n) :
    (f.parents.set c (some p))[x] = if c = x then some p else f.parent x := by
  simp only [Fin.getElem_fin, Vector.getElem_set, Fin.val_inj]
  rfl

include hp hne in
/-- Chains of parents still end after `c` has been hung under `p`. Such a chain is one of the old
forest until it meets `c`, goes on at `p`, and ends there, because `p` is a root and is not `c`. -/
private theorem linked_upward :
    WellFounded fun q a : Fin n => (f.parents.set c (some p))[a] = some q := by
  have top : Acc (fun q a : Fin n => (f.parents.set c (some p))[a] = some q) p :=
    ⟨_, fun q h => by rw [linked_parents, if_neg (Ne.symm hne), hp] at h; cases h⟩
  refine ⟨fun a => ?_⟩
  induction f.upward.apply a with
  | intro a _ ih =>
    refine ⟨_, fun q h => ?_⟩
    rw [linked_parents] at h
    split at h
    · cases h; exact top
    · exact ih q h

include hp hc hne in
/-- Chains of children still end after `c` has been hung under `p`. Such a chain may now pass from
`p` to `c`, but it does not come back: below `c` every index has the root `c`, and the root of `p`
is another. Otherwise it is a chain of the old forest. -/
private theorem linked_downward :
    WellFounded fun q a : Fin n => (f.parents.set c (some p))[q] = some a := by
  -- the tree below `c` is as it was, so its members are accessible first
  have below : ∀ a, f.find a = c →
      Acc (fun q a : Fin n => (f.parents.set c (some p))[q] = some a) a := by
    intro a
    induction f.downward.apply a with
    | intro a _ ih =>
      intro ha
      refine ⟨_, fun q h => ?_⟩
      rw [linked_parents] at h
      split at h
      · cases h
        rw [find_of_parent_eq_none hp] at ha
        exact absurd ha hne
      · exact ih q h ((find_of_parent_eq_some h).trans ha)
  refine ⟨fun a => ?_⟩
  induction f.downward.apply a with
  | intro a _ ih =>
    refine ⟨_, fun q h => ?_⟩
    rw [linked_parents] at h
    split at h
    · next e => cases e; exact below c (find_of_parent_eq_none hc)
    · exact ih q h

/-- Hangs one root under another, as its last child. -/
def link : Forest n where
  parents := f.parents.set c (some p)
  children := f.children.set p (f.childrenOf p ++ [c])
  parent_of_mem {a x} h := by
    rw [linked_parents]
    simp only [Fin.getElem_fin, Vector.getElem_set, Fin.val_inj] at h
    split at h
    · next e =>
      cases e
      rcases List.mem_append.1 h with h | h
      · have := f.parent_of_mem h
        split
        · rfl
        · exact this
      · rw [List.mem_singleton.1 h, if_pos rfl]
    · have hx : f.parent x = some a := f.parent_of_mem h
      split
      · next e => cases e; rw [hc] at hx; cases hx
      · exact hx
  upward := linked_upward f hp hne
  downward := linked_downward f hp hc hne

/-- Only the root that was hung has another parent. All that later proofs know of a link they have
from this. -/
theorem parent_link (x : Fin n) :
    (f.link hp hc hne).parent x = if c = x then some p else f.parent x :=
  linked_parents f x

end Link

/-- Joins two classes: the second root goes under the first. -/
def merge (f : Forest n) (a b : Fin n) : Forest n :=
  if h : f.find a = f.find b then f
  else f.link (f.parent_find a) (f.parent_find b) h

/-! ### Classes -/

/-- The tree below an index: the index first, then each child's tree in turn. -/
def preorder (f : Forest n) (a : Fin n) : List (Fin n) :=
  a :: (f.childrenOf a).attach.flatMap fun ⟨c, _hc⟩ => f.preorder c
termination_by f.downward.wrap a
decreasing_by exact f.parent_of_mem _hc

/-- The members of an index's class, its root first. -/
def classOf (f : Forest n) (a : Fin n) : List (Fin n) := f.preorder (f.find a)

/-- The roots, in ascending order. -/
def roots (f : Forest n) : List (Fin n) :=
  (List.finRange n).filter fun a => f.parent a = none

/-! ### Access by number

Numbers that are no indexes give no result, except that every number is in one class with itself.
-/

/-- The index that a number names. -/
def index? (n i : Nat) : Option (Fin n) := if h : i < n then some ⟨i, h⟩ else none

/-- The root of a number's tree. -/
def find? (f : Forest n) (a : Nat) : Option (Fin n) := (index? n a).map f.find

/-- Joins the classes of two numbers. -/
def merge? (f : Forest n) (a b : Nat) : Option (Forest n) := do
  return f.merge (← index? n a) (← index? n b)

/-- Whether two numbers are in one class. -/
def sameClass? (f : Forest n) (a b : Nat) : Option Bool :=
  if a = b then some true else do return f.sameClass (← index? n a) (← index? n b)

/-- The members of a number's class. -/
def classOf? (f : Forest n) (a : Nat) : Option (List (Fin n)) := (index? n a).map f.classOf

end Forest

end EqualityLogic
