import EqualityLogic.Proofs.Problem.Building

/-!
# Numbered equations

The equations of a text are numbered from 1 on, and their names are declared. So nothing can be
wrong with them but their number: they are without fault (`faultless_numbered`) unless there are
more of them than variables that input may name, and then the first one too many is at fault
(`firstFault_numbered`).
-/

set_option autoImplicit false

namespace EqualityLogic

namespace Draft

/-- Equations between pairs of names, numbered from `k + 1` on. -/
def numbered (k : Nat) : List (String × String) → List Equation
  | [] => []
  | (left, right) :: pairs => ⟨(k + 1 : Nat), left, right⟩ :: numbered (k + 1) pairs

/-- Equations of two lists of pairs are numbered on from the one to the other. So a text may add
them one at a time. -/
theorem numbered_append (k : Nat) (ps qs : List (String × String)) :
    numbered k (ps ++ qs) = numbered k ps ++ numbered (k + ps.length) qs := by
  induction ps generalizing k with
  | nil => rfl
  | cons p ps ih =>
      rw [List.cons_append, numbered, numbered, ih, List.length_cons, Nat.add_right_comm,
        List.cons_append]
      rfl

/-- There is an equation for each pair. -/
theorem length_numbered (k : Nat) (ps : List (String × String)) :
    (numbered k ps).length = ps.length := by
  induction ps generalizing k with
  | nil => rfl
  | cons p ps ih => simp [numbered, ih]

/-- A numbered equation is between names of a pair, and its number comes after those before it. Both
bounds are needed, the upper one to tell when a number is out of range. -/
theorem of_mem_numbered {k : Nat} {ps : List (String × String)} {e : Equation}
    (h : e ∈ numbered k ps) :
    (e.left, e.right) ∈ ps ∧ (k : Int) < e.id ∧ e.id ≤ (k + ps.length : Nat) := by
  induction ps generalizing k with
  | nil => cases h
  | cons p ps ih =>
      rw [List.length_cons]
      rcases List.mem_cons.1 h with rfl | h
      · refine ⟨List.mem_cons_self, ?_, ?_⟩
        · show (k : Int) < (k + 1 : Nat)
          omega
        · show ((k + 1 : Nat) : Int) ≤ _
          omega
      · obtain ⟨mem, lower, upper⟩ := ih h
        exact ⟨List.mem_cons_of_mem p mem, by omega, by omega⟩

/-- The numbers ascend, so none is taken twice. -/
theorem ascending_numbered (k : Nat) (ps : List (String × String)) :
    (numbered k ps).Pairwise fun e e' => e.id < e'.id := by
  induction ps generalizing k with
  | nil => exact .nil
  | cons p ps ih =>
      refine .cons ?_ (ih (k + 1))
      intro e he
      exact (of_mem_numbered he).2.1

variable {names : List String} {ps : List (String × String)}

/-- Numbered equations between declared names are without fault if they are not too many. Their
numbers are positive and all different. -/
theorem faultless_numbered (declared : ∀ p ∈ ps, p.1 ∈ names ∧ p.2 ∈ names)
    (few : ps.length ≤ maxVariable) : Faultless (Equation.fault names) (numbered 0 ps) := by
  rw [Equation.faultless_iff]
  constructor
  · intro e he
    obtain ⟨mem, lower, upper⟩ := of_mem_numbered he
    obtain ⟨left, right⟩ := declared _ mem
    exact ⟨left, right, by omega, by omega⟩
  · refine List.pairwise_map.2 ((ascending_numbered 0 ps).imp ?_)
    intro e e' less
    exact Int.ne_of_lt less

/-- If they are too many, the first one whose number is out of range is at fault. Those before it
are without fault, being few enough. -/
theorem firstFault_numbered (declared : ∀ p ∈ ps, p.1 ∈ names ∧ p.2 ∈ names)
    (many : maxVariable < ps.length) :
    FirstFault (Equation.fault names) (numbered 0 ps) (.invalidId (maxVariable + 1 : Nat)) := by
  -- the equations that are in range, the first one that is not, and the others
  obtain ⟨few, p, more, rfl, full⟩ : ∃ few p more, ps = few ++ p :: more ∧
      few.length = maxVariable := by
    refine ⟨ps.take maxVariable, ps[maxVariable], ps.drop (maxVariable + 1), ?_, ?_⟩
    · rw [List.getElem_cons_drop, List.take_append_drop]
    · rw [List.length_take, Nat.min_eq_left (Nat.le_of_lt many)]
  obtain ⟨left, right⟩ := p
  rw [List.forall_mem_append, List.forall_mem_cons] at declared
  obtain ⟨declaredFew, ⟨hleft, hright⟩, -⟩ := declared
  refine ⟨numbered 0 few, ⟨(maxVariable + 1 : Nat), left, right⟩, ?_, ?_, ?_⟩
  · rw [numbered_append, Nat.zero_add, full, numbered, List.prefix_append_right_inj]
    exact ⟨numbered (maxVariable + 1) more, rfl⟩
  · exact faultless_numbered declaredFew (Nat.le_of_eq full)
  · have large : (maxVariable : Int) < (maxVariable + 1 : Nat) := by omega
    rw [Equation.fault, if_neg (not_not_intro hleft), if_neg (not_not_intro hright),
      if_pos (.inr large)]

end Draft

end EqualityLogic
