import EqualityLogic.Cnf.AsymmetricTautology
import Mathlib.Data.List.Basic

/-!
# Mirrored formulas

The mirror image of a formula has each literal negated. Elimination of clauses does not depend on
signs: it goes through a clause literal by literal and asks which of them are known, so it does with
the mirror image of a formula what it does with the formula (`Formula.prune_mirror`).
-/

set_option autoImplicit false

namespace EqualityLogic

namespace Literal

/-- Different literals have different negations, since negating twice leads back. Repetitions and
memberships are thus the same in a clause and in its mirror image. -/
theorem negate_injective : Function.Injective negate := by
  intro a b h
  rw [← negate_negate a, h, negate_negate]

/-- Negations are equal just if the literals are. In this form a test for equality of literals is
the same test in the mirror image. -/
@[simp] theorem negate_inj {a b : Literal} : a.negate = b.negate ↔ a = b :=
  negate_injective.eq_iff

/-- A literal and its negation have the same atom. The search decides atoms, so here no sign is left
to be mirrored. -/
@[simp] theorem atom_negate (l : Literal) : l.negate.atom = l.atom :=
  ext (by simp [atom, ofVar])

/-- The other polarity is the mirror image. This is the one place where the phase of a search comes
in, and the reason why it has to be turned over with the formula. -/
theorem withPolarity_not (l : Literal) (b : Bool) :
    l.withPolarity (!b) = (l.withPolarity b).negate := by
  cases b with
  | false => exact (negate_negate l).symm
  | true => rfl

end Literal

namespace Clause

/-- The clause with each literal negated. -/
def mirror (c : Clause) : Clause := c.map Literal.negate

/-- A negation is in the mirror image just if the literal is in the clause. It is how membership is
read on the other side, without taking the list of negations apart. -/
@[simp] theorem negate_mem_mirror {c : Clause} {l : Literal} : l.negate ∈ c.mirror ↔ l ∈ c :=
  List.mem_map_of_injective Literal.negate_injective

/-- What is asked of all literals of the mirror image is asked of the negations of the clause's
literals. -/
theorem forall_mem_mirror {c : Clause} {P : Literal → Prop} :
    (∀ l ∈ c.mirror, P l) ↔ ∀ l ∈ c, P l.negate := List.forall_mem_map

/-- What is asked of some literal of the mirror image is asked of the negation of one of the
clause's. -/
theorem exists_mem_mirror {c : Clause} {P : Literal → Prop} :
    (∃ l ∈ c.mirror, P l) ↔ ∃ l ∈ c, P l.negate := by
  simp [mirror]

/-- The mirror image of a clause forces the mirror image of the literal. The test asks which
literals are known and which are equal, and goes through the clause in order; none of this depends
on a sign. -/
theorem asymmetric?_mirror (known c : Clause) :
    asymmetric? known.mirror c.mirror = (asymmetric? known c).map Literal.negate := by
  have same : ∀ l : Literal,
      (l.negate.negate ∉ known.mirror ∧ ∀ k ∈ c.mirror, k = l.negate ∨ k ∈ known.mirror) ↔
        l.negate ∉ known ∧ ∀ k ∈ c, k = l ∨ k ∈ known := by
    intro l
    rw [negate_mem_mirror, forall_mem_mirror]
    simp only [Literal.negate_inj, negate_mem_mirror]
  unfold asymmetric?
  rw [mirror, mirror, List.find?_map]
  refine congrArg (fun p => (List.find? p c).map Literal.negate) (funext fun l => ?_)
  exact decide_eq_decide.2 (same l)

end Clause

namespace Formula

/-- The formula with each literal negated. -/
def mirror (f : Formula) : Formula := f.map Clause.mirror

/-- What is asked of all clauses of the mirror image is asked of the mirror images of the clauses.
-/
theorem forall_mem_mirror {f : Formula} {P : Clause → Prop} :
    (∀ c ∈ f.mirror, P c) ↔ ∀ c ∈ f, P c.mirror := List.forall_mem_map

/-- What is asked of some clause of the mirror image is asked of the mirror image of one of the
clauses. -/
theorem exists_mem_mirror {f : Formula} {P : Clause → Prop} :
    (∃ c ∈ f.mirror, P c) ↔ ∃ c ∈ f, P c.mirror := by
  simp [mirror]

/-- Clauses of two formulas are mirrored apart. -/
theorem mirror_append (f g : Formula) : (f ++ g).mirror = f.mirror ++ g.mirror :=
  List.map_append

/-- A formula and its mirror image mention the same variables, so a search starts with the same
table for both. -/
@[simp] theorem maxVar_mirror (f : Formula) : f.mirror.maxVar = f.maxVar := by
  have vars : f.mirror.flatten.map Literal.var = f.flatten.map Literal.var := by
    show (f.map (List.map Literal.negate)).flatten.map Literal.var = _
    rw [← List.map_flatten, List.map_map]
    exact List.map_congr_left fun l _ => l.var_negate
  rw [maxVar, vars, maxVar]

/-- What is found clause by clause in the mirror image is the mirror image of what is found in the
formula. The elimination and the search look through a formula in this way, each for a literal of
its own kind, so it is stated for whatever finds alike in a clause and its mirror image. -/
theorem findSome?_mirror {find find' : Clause → Option Literal}
    (alike : ∀ c : Clause, find' c.mirror = (find c).map Literal.negate) (f : Formula) :
    f.mirror.findSome? find' = (f.findSome? find).map Literal.negate := by
  rw [mirror, List.findSome?_map, List.map_findSome?]
  exact congrArg (List.findSome? · f) (funext alike)

end Formula

/-- The mirror images of clauses refute the mirror images of what the clauses refute. The closures
grow side by side, by a literal here and its negation there, and are contradictory at the same time.
The induction is on the rounds of the one that is not mirrored. -/
theorem Clause.refutes_mirror (f : Formula) (known : Clause) :
    refutes f.mirror known.mirror = refutes f known := by
  rw [refutes_eq, Formula.findSome?_mirror (asymmetric?_mirror known)]
  fun_induction refutes f known with
  | case1 known nothing =>
      rw [nothing]
      rfl
  | case2 known l found mem =>
      rw [found]
      exact if_pos (negate_mem_mirror.2 mem)
  | case3 known l found new ih =>
      rw [found]
      show (if l.negate ∈ mirror known then true
        else refutes f.mirror (mirror (l.negate :: known))) = _
      -- what is made known next is the mirror image of what is made known on the other side
      rw [if_neg (mt negate_mem_mirror.1 new), refutes_eq,
        Formula.findSome?_mirror (asymmetric?_mirror (l.negate :: known))]
      exact ih

namespace Formula

/-- Clauses are judged like their mirror images, with the mirror images of the same others at hand.
-/
theorem pruneFrom_mirror (kept f : Formula) :
    pruneFrom kept.mirror f.mirror = (pruneFrom kept f).mirror := by
  induction f generalizing kept with
  | nil => rfl
  | cons c rest ih =>
      have judged : Clause.isAsymmetricTautology (kept.mirror ++ mirror rest) c.mirror =
          Clause.isAsymmetricTautology (kept ++ rest) c := by
        rw [← mirror_append]
        exact Clause.refutes_mirror _ c
      show pruneFrom kept.mirror (c.mirror :: mirror rest) = _
      rw [pruneFrom, pruneFrom, judged]
      split
      · exact ih kept
      · rw [← ih, mirror_append]
        rfl

/-- The mirror image of a formula is pruned to the mirror image of the pruned formula. A search that
prunes first thus starts with mirror images too. -/
theorem prune_mirror (f : Formula) : f.mirror.prune = f.prune.mirror := pruneFrom_mirror [] f

end Formula

end EqualityLogic
