import EqualityLogic.Cnf.Valuation
import EqualityLogic.Proofs.Cnf.Irredundance
import Mathlib.Data.List.Nodup

/-!
# The unit rule

When all literals of a clause but one are false, that one must be true. `Clause.Extends` lets
literals become known to be false by this rule, in any order and starting from nothing. A formula
*forces* the literals that some run of the rule makes true (`Formula.Forces`), it is *settled* when
each of its clauses has a forced literal, and it is *contradictory* when some run makes a whole
clause false.

These three notions range over all runs of the rule, of which there are many. One run that can go no
further tells them all (`Formula.forces_iff`, `Formula.contradictory_iff`), since the literals of
every other run are among its own.

`Assignment.Completes` says what a complete assignment looks like that adds nothing to the forced
literals but a fixed sign for all other variables. There is only one
(`Assignment.Completes.unique`).
-/

set_option autoImplicit false

namespace EqualityLogic

namespace Formula

/-- Some run of the unit rule makes the literal true. -/
def Forces (f : Formula) (l : Literal) : Prop :=
  ∃ known, Clause.Extends f [] known ∧ l.negate ∈ known

/-- Each clause has a forced literal. -/
def Settled (f : Formula) : Prop := ∀ c ∈ f, ∃ l ∈ c, f.Forces l

/-- Some run of the unit rule makes all literals of a clause false. -/
def Contradictory (f : Formula) : Prop :=
  ∃ known, Clause.Extends f [] known ∧ ∃ c ∈ f, ∀ l ∈ c, l ∈ known

variable {f : Formula} {known : List Literal}

/-- A run that can go no further makes all forced literals true. The literals of any other run are
among its own, since each use of the rule there is one that it must have made itself. -/
theorem forces_iff (run : Clause.Extends f [] known) (closed : Clause.Closed f known)
    {l : Literal} : f.Forces l ↔ l.negate ∈ known := by
  constructor
  · intro ⟨_, other, mem⟩
    exact other.subset closed (by simp) l.negate mem
  · intro mem
    exact ⟨known, run, mem⟩

/-- A run that can go no further makes a clause false if any run does. The order of the uses thus
makes no difference, even where a search stops before it has used the rule as often as it can. -/
theorem contradictory_iff (run : Clause.Extends f [] known) (closed : Clause.Closed f known) :
    f.Contradictory ↔ ∃ c ∈ f, ∀ l ∈ c, l ∈ known := by
  constructor
  · intro ⟨_, other, c, hc, false_⟩
    exact ⟨c, hc, fun l hl => other.subset closed (by simp) l (false_ l hl)⟩
  · intro false_
    exact ⟨known, run, false_⟩

end Formula

namespace Assignment

/-- The assignment lists each variable up to `b` once and in order. It holds the literals that the
formula forces, and all others have the sign of the phase. -/
structure Completes (m : Assignment) (f : Formula) (phase : Bool) (b : Nat) : Prop where
  vars : m.map Literal.var = List.range' 1 b
  forced : ∀ l, f.Forces l → l ∈ m
  others : ∀ l ∈ m, f.Forces l ∨ l.isNegated = !phase

variable {m m' : Assignment} {f : Formula} {phase : Bool} {b : Nat}

/-- A variable is listed with one sign, because the variables of the list are all different. -/
theorem Completes.eq_of_var (h : m.Completes f phase b) {k l : Literal} (hk : k ∈ m) (hl : l ∈ m)
    (hv : k.var = l.var) : k = l := by
  have distinct : (m.map Literal.var).Nodup := by
    rw [h.vars]
    exact List.nodup_range'
  exact List.inj_on_of_nodup_map distinct hk hl hv

/-- The forced literals and the phase leave no choice. Both assignments list the same variables in
the same places, so it is enough that the literals of one variable agree: a forced literal stands in
both, and any other has the sign of the phase. -/
theorem Completes.unique (h : m.Completes f phase b) (h' : m'.Completes f phase b) : m = m' := by
  have same : ∀ k ∈ m, ∀ l ∈ m', k.var = l.var → k = l := by
    intro k hk l hl hv
    -- a literal that is forced is in both, and one that is not has the sign of the phase in both
    rcases h.others k hk with forced | sign
    · exact h'.eq_of_var (h'.forced k forced) hl hv
    · rcases h'.others l hl with forced | sign'
      · exact h.eq_of_var hk (h.forced l forced) hv
      · exact Literal.eq_of_var_of_isNegated hv (sign.trans sign'.symm)
  have vars : m.map Literal.var = m'.map Literal.var := h.vars.trans h'.vars.symm
  refine List.ext_getElem (by simpa using congrArg List.length vars) ?_
  intro i hi hi'
  refine same _ (List.getElem_mem hi) _ (List.getElem_mem hi') ?_
  simpa [hi, hi'] using congrArg (·[i]?) vars

end Assignment

end EqualityLogic
