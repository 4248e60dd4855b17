import EqualityLogic.Cnf.Formula

/-!
# Clauses and their numbers

The numbers of a clause are not zero, and they determine the clause (`Clause.toNumbers_inj`).
Numbers that are not zero are those of a clause (`Clause.exists_toNumbers`), which can be read back
from them (`Clause.ofNumbers_toNumbers`), and a zero is refused wherever it stands
(`Clause.ofNumbers_of_zero_mem`).
-/

set_option autoImplicit false

namespace EqualityLogic

namespace Clause

/-- A literal is a number other than zero, so a zero never belongs to a clause. Texts use it as the
mark between clauses. -/
theorem zero_notMem_toNumbers (c : Clause) : (0 : Int) ∉ c.toNumbers := by
  intro h
  obtain ⟨l, -, hl⟩ := List.mem_map.1 h
  exact l.number_ne_zero hl

/-- Clauses with the same numbers are the same: a literal is its number, and nothing else. So a text
that shows the numbers shows the clause. -/
theorem toNumbers_inj {c d : Clause} (h : c.toNumbers = d.toNumbers) : c = d :=
  (List.map_inj_right fun _ _ => Literal.ext).1 h

/-- The numbers of a clause are read back as that clause, without an error. A draft holds clauses as
numbers and loses nothing by it. -/
theorem ofNumbers_toNumbers (c : Clause) : ofNumbers c.toNumbers = .ok c := by
  induction c with
  | nil => rfl
  | cons l c ih =>
      have literal : Literal.ofNumber l.number = .ok l := dif_neg l.number_ne_zero
      have rest : (toNumbers c).mapM Literal.ofNumber = .ok c := ih
      show (l.number :: toNumbers c).mapM Literal.ofNumber = _
      rw [List.mapM_cons, literal, rest]
      rfl

/-- Numbers other than zero are those of literals. With `ofNumbers_toNumbers` it follows that a zero
is the only reason to refuse a list of numbers. -/
theorem exists_toNumbers {ns : List Int} (nonzero : 0 ∉ ns) : ∃ c : Clause, c.toNumbers = ns := by
  induction ns with
  | nil => exact ⟨[], rfl⟩
  | cons n ns ih =>
      obtain ⟨hn, hns⟩ := List.ne_and_not_mem_of_not_mem_cons nonzero
      obtain ⟨c, rfl⟩ := ih hns
      exact ⟨⟨n, hn.symm⟩ :: c, rfl⟩

/-- A zero is refused, with the same error wherever it stands and whatever stands around it. -/
theorem ofNumbers_of_zero_mem {ns : List Int} (zero : 0 ∈ ns) :
    ofNumbers ns = .error .zero := by
  induction ns with
  | nil => cases zero
  | cons n ns ih =>
      show (n :: ns).mapM Literal.ofNumber = _
      rw [List.mapM_cons]
      by_cases hn : n = 0
      · rw [hn]
        rfl
      · have rest : ns.mapM Literal.ofNumber = .error .zero :=
          ih ((List.mem_cons.1 zero).resolve_left (Ne.symm hn))
        rw [rest]
        -- a fault at `n` would be the same error
        cases Literal.ofNumber n with
        | error e => cases e; rfl
        | ok l => rfl

end Clause

/-- Formulas with the same lists of numbers are the same, clause by clause. It makes a problem
unique among those with given parts. -/
theorem Formula.toNumbers_inj {f g : Formula} (h : f.toNumbers = g.toNumbers) : f = g :=
  (List.map_inj_right fun _ _ => Clause.toNumbers_inj).1 h

end EqualityLogic
