/-!
# Counting as a measure

A count over a fixed list falls when the counted property is narrowed and some member of the list
loses it (`countP_lt_countP`), and it rises by one at most when one member gains it
(`countP_le_countP_add_one`). The searches of this library end because such a count falls.
-/

set_option autoImplicit false

namespace EqualityLogic

/-- Narrowing a property, so that a member of the list no longer has it, lowers its count. Both
properties are judged over the same list, which is what lets the count serve as a measure: the list
stays, and the property shrinks from one step to the next. -/
theorem countP_lt_countP {α : Type} {p q : α → Bool} {xs : List α}
    (narrower : ∀ x ∈ xs, q x = true → p x = true) {x : α} (mem : x ∈ xs)
    (before : p x = true) (after : q x = false) : xs.countP q < xs.countP p := by
  induction xs with
  | nil => simp at mem
  | cons y ys ih =>
    have hys : ∀ x ∈ ys, q x = true → p x = true := fun z hz =>
      narrower z (List.mem_cons_of_mem _ hz)
    have hle : ys.countP q ≤ ys.countP p := List.countP_mono_left hys
    rw [List.countP_cons, List.countP_cons]
    rcases List.mem_cons.1 mem with rfl | hx
    · simp only [before, after, if_true, Bool.false_eq_true, if_false]
      omega
    · have hlt := ih hys hx
      have hy := narrower y List.mem_cons_self
      cases hq : q y
      · simp only [Bool.false_eq_true, if_false]
        split <;> omega
      · simp only [hy hq, if_true]
        omega

/-- Widening a property by one member raises its count by one at most. The list must hold no member
twice, since the new member would otherwise be counted as often as it occurs. -/
theorem countP_le_countP_add_one {α : Type} {p q : α → Bool} {xs : List α} (nodup : xs.Nodup)
    (a : α) (wider : ∀ x ∈ xs, q x = true → p x = true ∨ x = a) :
    xs.countP q ≤ xs.countP p + 1 := by
  induction xs with
  | nil => simp
  | cons y ys ih =>
    obtain ⟨hy, hys⟩ := List.nodup_cons.1 nodup
    rw [List.countP_cons, List.countP_cons]
    by_cases e : y = a
    · have hle : ys.countP q ≤ ys.countP p := List.countP_mono_left fun x hx hq =>
        (wider x (List.mem_cons_of_mem _ hx) hq).resolve_right fun e' => hy (e ▸ e' ▸ hx)
      split <;> omega
    · have hle := ih hys fun x hx => wider x (List.mem_cons_of_mem _ hx)
      cases hq : q y
      · simp only [Bool.false_eq_true, if_false]
        omega
      · have hp : p y = true := (wider y List.mem_cons_self hq).resolve_right e
        simp only [hp, if_true]
        omega

end EqualityLogic
