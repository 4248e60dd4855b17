import EqualityLogic.Theory.Basic

/-!
# Recorded theories

A theory together with the list of the questions it was asked and the answers it gave. Recording
changes no answer, and a recorded lawful theory is lawful.
-/

set_option autoImplicit false

namespace EqualityLogic

/-- A question to a theory, with its answer. -/
inductive OracleCall where
  /-- An assignment was judged. -/
  | check (m : Assignment) (verdict : Verdict)
  /-- A clause was asked for. -/
  | learn (answer : Except TheoryError Clause)

/-- A theory and the calls made to it. -/
structure Recorded (τ : Type) where
  /-- The theory's own state. -/
  theory : τ
  /-- The calls made so far, the latest first. -/
  latest : List OracleCall := []

namespace Recorded

variable {τ : Type}

/-- The calls in the order in which they were made. -/
def calls (t : Recorded τ) : List OracleCall := t.latest.reverse

variable [Theory τ]

instance : Theory (Recorded τ) where
  check t m :=
    let (verdict, theory) := Theory.check t.theory m
    (verdict, { theory, latest := .check m verdict :: t.latest })
  learn t :=
    let (answer, theory) := Theory.learn t.theory
    (answer, { theory, latest := .learn answer :: t.latest })

/-- A judgement of a recorded theory is that of the theory itself, and one entry more in the record.
-/
theorem of_check_eq {t th : Recorded τ} {m : Assignment} {v : Verdict}
    (h : Theory.check t m = (v, th)) :
    Theory.check t.theory m = (v, th.theory) ∧ th.latest = .check m v :: t.latest := by
  cases h
  exact ⟨rfl, rfl⟩

/-- A request to a recorded theory gets the answer of the theory itself, and is entered in the
record, whether a clause was given or an error. -/
theorem of_learn_eq {t th : Recorded τ} {answer : Except TheoryError Clause}
    (h : Theory.learn t = (answer, th)) :
    Theory.learn t.theory = (answer, th.theory) ∧ th.latest = .learn answer :: t.latest := by
  cases h
  exact ⟨rfl, rfl⟩

/-- A judgement is the latest call once it has been made. Here the record is read in the order of
the calls, the form in which theorems speak of it. -/
theorem calls_of_check_eq {t th : Recorded τ} {m : Assignment} {v : Verdict}
    (h : Theory.check t m = (v, th)) : th.calls = t.calls ++ [.check m v] := by
  rw [calls, calls, (of_check_eq h).2, List.reverse_cons]

/-- A request for a clause is the latest call once it has been made, with the answer it got. -/
theorem calls_of_learn_eq {t th : Recorded τ} {answer : Except TheoryError Clause}
    (h : Theory.learn t = (answer, th)) : th.calls = t.calls ++ [.learn answer] := by
  rw [calls, calls, (of_learn_eq h).2, List.reverse_cons]

instance [LawfulTheory τ] : LawfulTheory (Recorded τ) where
  negate_mem {t m _ _} h h' hl :=
    LawfulTheory.negate_mem (t := t.theory) (m := m) h h' hl

/-- A record follows the theory through calls of any kind, so what is known of the theory after some
calls holds of it inside the record. -/
theorem theory_after (t : Recorded τ) (calls : List TheoryCall) :
    (Theory.after t calls).theory = Theory.after t.theory calls := by
  induction calls generalizing t with
  | nil => rfl
  | cons call calls ih =>
    show (Theory.after (Theory.perform t call) calls).theory =
      Theory.after (Theory.perform t.theory call) calls
    rw [ih]
    cases call <;> rfl

/-- A lawful theory is lawful with a record. It is stated for one state, since a theory may be
lawful there without `LawfulTheory`. -/
theorem lawful {t : Recorded τ} (h : Theory.Lawful t.theory) : Theory.Lawful t := by
  intro calls m c rejected explained
  refine h calls m c ?_ ?_
  · rw [← theory_after]
    exact rejected
  · rw [← theory_after]
    exact explained

end Recorded

end EqualityLogic
