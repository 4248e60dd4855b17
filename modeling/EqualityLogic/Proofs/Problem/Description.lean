import EqualityLogic.Proofs.Equality.Classes
import EqualityLogic.Proofs.Integration.Correctness

/-!
# The classes of names that an assignment makes

`Problem.describe` shows an assignment as lists of names. `describe_partition` says that these lists
are a partition of the names, and which one: two names are in one list just if a chain of equations
of the assignment links their variables. Other literals, and the order in which the literals come,
may change the order of the lists but nothing else. For an assignment with which a strategy answers,
the lists show the atoms as they are: the two names of an atom are in one list just if its literal
is positive.

A check leaves a forest behind even when it rejects the assignment, and nothing is said about its
trees. What matters is that its links are in step (`matched_check`), so that each class is listed
without loss or repetition. In order, a class is then what remains of all variables when the others
are left out (`Forest.Matched.mergeSort_classOf`). So each list is the list of names with some left
out (`groupOf_sublist`), and it does not depend on the root by which the class is found
(`mem_describe`).
-/

set_option autoImplicit false

namespace EqualityLogic

namespace Forest

variable {n : Nat} {f : Forest n}

/-- A class in order is what remains of all indexes. Sorting thus does away with the shape of the
tree from which the class was listed. -/
theorem Matched.mergeSort_classOf (h : f.Matched) (a : Fin n) :
    ((f.classOf a).mergeSort fun x y => x ≤ y) = (List.finRange n).filter (f.sameClass a) := by
  have nodup : (f.classOf a).Nodup := h.nodup_preorder (f.find a)
  -- both list the members of the class, once
  have same : (f.classOf a).Perm ((List.finRange n).filter (f.sameClass a)) := by
    rw [List.perm_ext_iff_of_nodup nodup ((List.nodup_finRange n).filter _)]
    intro x
    rw [h.mem_classOf, List.mem_filter, and_iff_right (List.mem_finRange x)]
  have ascending : ((List.finRange n).filter (f.sameClass a)).Pairwise (· ≤ ·) :=
    (List.sortedLT_finRange n).sortedLE.pairwise.filter _
  exact ((List.mergeSort_perm _ _).trans same).eq_of_pairwise'
    (List.pairwise_mergeSort' (· ≤ ·) _) ascending

/-- Indexes of one class have the same others in their class. So a group does not depend on the
member whose group it is said to be. -/
theorem sameClass_congr {a b : Fin n} (h : f.sameClass a b = true) :
    f.sameClass a = f.sameClass b := by
  funext x
  simp only [sameClass, sameClass_iff.1 h]

end Forest

namespace AtomTable

variable {n : Nat} {atoms : AtomTable n} {m : Assignment}

/-- The links of a forest stay in step while equations are merged, from the reset on. -/
theorem matched_mergeEquations (atoms : AtomTable n) (m : Assignment) (f : Forest n) :
    (atoms.mergeEquations m f.reset).Matched := by
  unfold mergeEquations
  rw [Forest.reset_eq_discrete]
  generalize (atoms.theoryLiterals m).filter _ = ps
  refine List.foldlRecOn ps _ Forest.matched_discrete ?_
  intro f matched p _
  exact matched.merge p.2.left p.2.right

/-- In an assignment that can be realised, the sides of an atom are linked just if its literal is
positive. If a negative one had linked sides, no interpretation could tell them apart. -/
theorem Realisable.linked_iff (h : atoms.Realisable m) {l : Literal} {a : Atom n} (hl : l ∈ m)
    (ha : atoms.atomOf? l = some a) : atoms.Linked m a.left a.right ↔ l.isNegated = false := by
  constructor
  · intro linked
    cases hneg : l.isNegated with
    | false => rfl
    | true => exact absurd ⟨hneg, ha, linked⟩ (realisable_iff.1 h l hl a)
  · intro positive
    exact .rel _ _ ⟨l, hl, positive, a, ha, rfl, rfl⟩

/-- Assignments with the same equations link the same variables, whatever else is in them.
Disequations, literals without an atom, repetitions and order make no difference. -/
theorem linked_congr {m' : Assignment}
    (same : ∀ l a, l.isNegated = false → atoms.atomOf? l = some a → (l ∈ m ↔ l ∈ m')) :
    atoms.Linked m = atoms.Linked m' := by
  have equates : atoms.Equates m = atoms.Equates m' := by
    funext x y
    apply propext
    constructor
    · intro ⟨l, hl, positive, a, ha, sides⟩
      exact ⟨l, (same l a positive ha).1 hl, positive, a, ha, sides⟩
    · intro ⟨l, hl, positive, a, ha, sides⟩
      exact ⟨l, (same l a positive ha).2 hl, positive, a, ha, sides⟩
  unfold Linked
  rw [equates]

end AtomTable

namespace Problem

variable {p : Problem} {m : Assignment}

/-- The classes of variables that the equations of an assignment make. -/
def classes (p : Problem) (m : Assignment) : Forest p.names.length := (p.theory.check m).forest

/-- The names in the class of a variable, in the order of their declarations. -/
def groupOf (p : Problem) (m : Assignment) (i : Fin p.names.length) : List String :=
  ((List.finRange _).filter ((p.classes m).sameClass i)).map p.nameOf

/-- The names of two variables are in one list. -/
def ListsTogether (p : Problem) (m : Assignment) (i j : Fin p.names.length) : Prop :=
  ∃ c ∈ p.describe m, p.nameOf i ∈ c ∧ p.nameOf j ∈ c

/-- The classes of an assignment come from a forest whose links are in step. -/
theorem matched_classes (p : Problem) (m : Assignment) : (p.classes m).Matched :=
  p.atoms.matched_mergeEquations m p.theory.forest

/-- Two variables are in one class just if equations of the assignment link them. From here on the
forest is not mentioned, apart from its roots. -/
theorem sameClass_classes {i j : Fin p.names.length} :
    (p.classes m).sameClass i j = true ↔ p.atoms.Linked m i j :=
  p.theory.sameClass_check m i j

/-- The names of all variables, in order, are the names of the problem. -/
theorem map_nameOf_finRange (p : Problem) :
    (List.finRange p.names.length).map p.nameOf = p.names :=
  List.map_get_finRange p.names

/-- Different variables have different names, since no name is declared twice. So a name tells the
variable, and lists of names tell the classes. -/
theorem nameOf_injective (p : Problem) : Function.Injective p.nameOf :=
  List.nodup_iff_injective_get.1 p.distinct

/-- An assignment is described by the groups of the roots, in the order of the roots. The lists that
the trees give are sorted, and these are the groups. -/
theorem describe_eq (p : Problem) (m : Assignment) :
    p.describe m = (p.classes m).roots.map (p.groupOf m) := by
  refine List.map_congr_left ?_
  intro r _
  show ((((p.classes m).classOf r).mergeSort fun a b => a ≤ b).map p.nameOf) = p.groupOf m r
  rw [(p.matched_classes m).mergeSort_classOf]
  rfl

/-- A name is in the group of a variable just if the two are linked, by a chain of any length. -/
theorem nameOf_mem_groupOf {i j : Fin p.names.length} :
    p.nameOf j ∈ p.groupOf m i ↔ p.atoms.Linked m i j := by
  unfold groupOf
  rw [List.mem_map_of_injective p.nameOf_injective, List.mem_filter,
    and_iff_right (List.mem_finRange j), sameClass_classes]

/-- A group is the list of names with some left out, so it keeps their order. -/
theorem groupOf_sublist (p : Problem) (m : Assignment) (i : Fin p.names.length) :
    (p.groupOf m i).Sublist p.names := by
  have := (List.filter_sublist (p := (p.classes m).sameClass i)
    (l := List.finRange p.names.length)).map p.nameOf
  rwa [map_nameOf_finRange] at this

/-- The lists are the groups of all variables, whichever of them are roots. Which member of a class
is its root depends on the order of the merges, so this is what makes the description a matter of
the assignment. -/
theorem mem_describe {c : List String} : c ∈ p.describe m ↔ ∃ i, p.groupOf m i = c := by
  rw [describe_eq, List.mem_map]
  constructor
  · intro ⟨r, _, hr⟩
    exact ⟨r, hr⟩
  · intro ⟨i, hi⟩
    refine ⟨(p.classes m).find i, Forest.mem_roots.2 ((p.classes m).parent_find i), ?_⟩
    have same : (p.classes m).sameClass ((p.classes m).find i) i = true :=
      Forest.sameClass_iff.2 (Forest.find_of_parent_eq_none ((p.classes m).parent_find i))
    rw [← hi]
    unfold groupOf
    rw [Forest.sameClass_congr same]

/-- Names are in one list just if their variables are linked. A variable is linked with itself, so
this covers each name alone. -/
theorem listsTogether_iff {i j : Fin p.names.length} :
    p.ListsTogether m i j ↔ p.atoms.Linked m i j := by
  unfold ListsTogether
  constructor
  · intro ⟨c, hc, hi, hj⟩
    obtain ⟨k, rfl⟩ := mem_describe.1 hc
    exact ((nameOf_mem_groupOf.1 hi).symm _ _).trans _ _ _ (nameOf_mem_groupOf.1 hj)
  · intro linked
    exact ⟨p.groupOf m i, mem_describe.2 ⟨i, rfl⟩, nameOf_mem_groupOf.2 (.refl i),
      nameOf_mem_groupOf.2 linked⟩

/-- No list is empty, as each group holds the name it is the group of. -/
theorem ne_nil_of_mem_describe {c : List String} (hc : c ∈ p.describe m) : c ≠ [] := by
  obtain ⟨i, rfl⟩ := mem_describe.1 hc
  exact List.ne_nil_of_mem (nameOf_mem_groupOf.2 (.refl i))

/-- The lists make up the names: taken together they hold each name once. -/
theorem flatten_describe_perm (p : Problem) (m : Assignment) :
    (p.describe m).flatten.Perm p.names := by
  let f := p.classes m
  -- in each list, the names of a class have only been sorted
  have sorted : ∀ r ∈ f.roots,
      (((f.classOf r).mergeSort fun a b => a ≤ b).map p.nameOf).Perm
        ((f.classOf r).map p.nameOf) := by
    intro r _
    exact (List.mergeSort_perm _ _).map p.nameOf
  have unsorted : (f.roots.flatMap fun r => (f.classOf r).map p.nameOf).Perm p.names := by
    have all := (p.matched_classes m).flatMap_classOf_perm.map p.nameOf
    rwa [map_nameOf_finRange, List.map_flatMap] at all
  exact (List.Perm.flatMap_left f.roots sorted).trans unsorted

/-- No list comes twice. Two equal lists would hold the same names, and a list is never empty. -/
theorem nodup_describe (p : Problem) (m : Assignment) : (p.describe m).Nodup := by
  have nodup : (p.describe m).flatten.Nodup := (p.flatten_describe_perm m).nodup_iff.2 p.distinct
  refine (List.nodup_flatten.1 nodup).2.imp_of_mem ?_
  -- two lists that are one would have a name in common
  intro c d hc _ disjoint same
  obtain ⟨name, mem⟩ := List.exists_mem_of_ne_nil c (ne_nil_of_mem_describe hc)
  exact disjoint mem (same ▸ mem)

/-- Assignments with the same equations are described by the same lists. Only the order of the lists
may differ, which is that of the roots. -/
theorem describe_perm {m' : Assignment}
    (same : ∀ l a, l.isNegated = false → p.atoms.atomOf? l = some a → (l ∈ m ↔ l ∈ m')) :
    (p.describe m).Perm (p.describe m') := by
  have sameClass : ∀ i, (p.classes m).sameClass i = (p.classes m').sameClass i := by
    intro i
    funext j
    rw [Bool.eq_iff_iff, sameClass_classes, sameClass_classes, AtomTable.linked_congr same]
  have groups : p.groupOf m = p.groupOf m' := by
    funext i
    unfold groupOf
    rw [sameClass]
  rw [List.perm_ext_iff_of_nodup (p.nodup_describe m) (p.nodup_describe m')]
  intro c
  rw [mem_describe, mem_describe, groups]

/-- The lists are a partition of the names, made by the equations of the assignment. For the
assignment with which a strategy answers, they show which atoms are true.

The assignment is arbitrary in all parts but the last: it need not be realisable, and it may repeat
or leave out variables. -/
theorem describe_partition (p : Problem) (m : Assignment) :
    (∀ c ∈ p.describe m, c ≠ [] ∧ c.Sublist p.names) ∧
    (p.describe m).flatten.Perm p.names ∧
    (∀ i j, p.ListsTogether m i j ↔ p.atoms.Linked m i j) ∧
    (∀ m', (∀ l a, l.isNegated = false → p.atoms.atomOf? l = some a → (l ∈ m ↔ l ∈ m')) →
      (p.describe m).Perm (p.describe m')) ∧
    (∀ s strategy out, p.solveBy s strategy = .ok out → out.answer = .sat m →
      ∀ l ∈ m, ∀ a, p.atoms.atomOf? l = some a →
        (p.ListsTogether m a.left a.right ↔ l.isNegated = false)) := by
  refine ⟨?_, p.flatten_describe_perm m, fun i j => listsTogether_iff,
    fun m' same => describe_perm same, ?_⟩
  · intro c hc
    obtain ⟨i, rfl⟩ := mem_describe.1 hc
    exact ⟨ne_nil_of_mem_describe hc, p.groupOf_sublist m i⟩
  · intro s strategy out answered sat l hl a ha
    -- what a strategy answers with can be realised, so its literals tell which sides are linked
    obtain ⟨out', answered', correct⟩ := p.exists_outcome s strategy
    rw [answered] at answered'
    cases answered'
    rw [sat] at correct
    rw [listsTogether_iff]
    exact correct.realisable.linked_iff hl ha

/-- The order of the literals decides which of two variables becomes the root of their class, and so
where their list stands. -/
example :
    let p : Problem :=
      { names := ["a", "b", "c"]
        atoms := ⟨[⟨1, ⟨0, by decide⟩, ⟨2, by decide⟩⟩, ⟨2, ⟨2, by decide⟩, ⟨0, by decide⟩⟩],
          by decide, by decide⟩
        formula := []
        distinct := by decide }
    p.describe [⟨1, by decide⟩, ⟨2, by decide⟩] = [["a", "c"], ["b"]] ∧
      p.describe [⟨2, by decide⟩, ⟨1, by decide⟩] = [["b"], ["a", "c"]] := by
  cbv

end Problem

end EqualityLogic
