import Mathlib.Data.List.Induction

/-!
# The first fault of a list

A list of inputs is judged from left to right, each input against those before it. Nothing is wrong
with the list (`Faultless`), or there is a first input with a fault (`FirstFault`).

A loop that takes the inputs in turn and stops at a fault finds that one: `run_of_faultless` and
`run_of_firstFault` say so for all loops that are right about one more input (`Judges`). A table of
atoms and a formula are both built by such a loop.
-/

set_option autoImplicit false

namespace EqualityLogic

section

variable {α ε : Type} {fault : List α → α → Option ε}

/-- No input is at fault, given those before it. -/
def Faultless (fault : List α → α → Option ε) (xs : List α) : Prop :=
  ∀ before x, before ++ [x] <+: xs → fault before x = none

/-- The fault of the first input that is at fault. -/
def FirstFault (fault : List α → α → Option ε) (xs : List α) (e : ε) : Prop :=
  ∃ before x, before ++ [x] <+: xs ∧ Faultless fault before ∧ fault before x = some e

/-- Nothing is wrong with a list without inputs. -/
theorem faultless_nil : Faultless fault [] := by
  intro before x start
  simp at start

/-- A list without inputs has no first fault. -/
theorem not_firstFault_nil {e : ε} : ¬ FirstFault fault [] e := by
  intro ⟨before, x, start, _⟩
  simp at start

/-- A prefix that ends in an input ends in the last one or comes before it. Both kinds of faults are
stated with such prefixes. -/
theorem start_append_singleton {xs before : List α} {x y : α} :
    before ++ [y] <+: xs ++ [x] ↔ (before = xs ∧ y = x) ∨ before ++ [y] <+: xs := by
  rw [List.prefix_concat_iff, List.append_singleton_inj]

/-- Nothing is wrong with a list if nothing is with what comes before its last input, nor with that
one. -/
theorem faultless_append_singleton {xs : List α} {x : α} :
    Faultless fault (xs ++ [x]) ↔ Faultless fault xs ∧ fault xs x = none := by
  constructor
  · intro h
    refine ⟨fun before y start => ?_, h xs x List.prefix_rfl⟩
    exact h before y (start_append_singleton.2 (.inr start))
  · intro ⟨hxs, hx⟩ before y start
    rcases start_append_singleton.1 start with ⟨rfl, rfl⟩ | earlier
    · exact hx
    · exact hxs before y earlier

/-- The first fault is among the inputs before the last, or it is that of the last. With the lemma
above it lets an induction on a list go by its last input, as the loops do. -/
theorem firstFault_append_singleton {xs : List α} {x : α} {e : ε} :
    FirstFault fault (xs ++ [x]) e ↔
      FirstFault fault xs e ∨ Faultless fault xs ∧ fault xs x = some e := by
  constructor
  · intro ⟨before, y, start, fine, wrong⟩
    rcases start_append_singleton.1 start with ⟨rfl, rfl⟩ | earlier
    · exact .inr ⟨fine, wrong⟩
    · exact .inl ⟨before, y, earlier, fine, wrong⟩
  · intro h
    rcases h with ⟨before, y, earlier, fine, wrong⟩ | ⟨fine, wrong⟩
    · exact ⟨before, y, start_append_singleton.2 (.inr earlier), fine, wrong⟩
    · exact ⟨xs, x, List.prefix_rfl, fine, wrong⟩

/-- A list without a first fault has none. With `run_of_faultless` and `run_of_firstFault` it leaves
no case open for a loop. -/
theorem faultless_or_firstFault (fault : List α → α → Option ε) (xs : List α) :
    Faultless fault xs ∨ ∃ e, FirstFault fault xs e := by
  induction xs using List.reverseRecOn with
  | nil => exact .inl faultless_nil
  | append_singleton xs x ih =>
      rcases ih with fine | ⟨e, wrong⟩
      · cases hx : fault xs x with
        | none => exact .inl (faultless_append_singleton.2 ⟨fine, hx⟩)
        | some e => exact .inr ⟨e, firstFault_append_singleton.2 (.inr ⟨fine, hx⟩)⟩
      · exact .inr ⟨e, firstFault_append_singleton.2 (.inl wrong)⟩

/-! ### Loops that stop at the first fault -/

variable {σ : Type}

/-- What `run` makes of a list `Holds` of it, as long as nothing is at fault. One more input either
is at fault, and `run` fails with its fault, or is taken in. -/
structure Judges (fault : List α → α → Option ε) (run : List α → Except ε σ)
    (Holds : List α → σ → Prop) : Prop where
  /-- The empty list makes something. -/
  start : ∃ s, run [] = .ok s ∧ Holds [] s
  /-- An input without a fault is taken in. -/
  take : ∀ {xs x s}, run xs = .ok s → Holds xs s → fault xs x = none →
    ∃ s', run (xs ++ [x]) = .ok s' ∧ Holds (xs ++ [x]) s'
  /-- An input with a fault is refused. -/
  refuse : ∀ {xs x s e}, run xs = .ok s → Holds xs s → fault xs x = some e →
    run (xs ++ [x]) = .error e
  /-- What comes after a fault does not matter. -/
  stop : ∀ {xs x e}, run xs = .error e → run (xs ++ [x]) = .error e

variable {run : List α → Except ε σ} {Holds : List α → σ → Prop}

/-- A loop takes in a list without fault, and what it makes of the list holds of it. The induction
adds one input at the end. -/
theorem Judges.run_of_faultless (judges : Judges fault run Holds) {xs : List α}
    (fine : Faultless fault xs) : ∃ s, run xs = .ok s ∧ Holds xs s := by
  induction xs using List.reverseRecOn with
  | nil => exact judges.start
  | append_singleton xs x ih =>
      obtain ⟨before, hx⟩ := faultless_append_singleton.1 fine
      obtain ⟨s, ok, holds⟩ := ih before
      exact judges.take ok holds hx

/-- A loop fails with the first fault of a list, whatever comes after it. Up to that input the list
is without fault, and the lemma above applies. -/
theorem Judges.run_of_firstFault (judges : Judges fault run Holds) {xs : List α} {e : ε}
    (wrong : FirstFault fault xs e) : run xs = .error e := by
  induction xs using List.reverseRecOn with
  | nil => exact absurd wrong not_firstFault_nil
  | append_singleton xs x ih =>
      rcases firstFault_append_singleton.1 wrong with earlier | ⟨fine, hx⟩
      · exact judges.stop (ih earlier)
      · obtain ⟨s, ok, holds⟩ := judges.run_of_faultless fine
        exact judges.refuse ok holds hx

end

end EqualityLogic
