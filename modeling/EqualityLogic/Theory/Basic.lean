import EqualityLogic.Cnf.Valuation

/-!
# Theories as oracles

A theory judges assignments of truth values to propositional variables, partial or complete ones,
and explains a rejection by a clause. It is asked in two steps, a check and then a request for a
clause, and keeps a state between them. Nothing is assumed of it beyond that.

What makes its explanations useful is that each literal of a learned clause is false under the
rejected assignment. `Theory.Lawful` asks this of a theory in one state, for all calls that may
follow; `LawfulTheory` asks it of all states, so that it need not be asked again.
-/

set_option autoImplicit false

namespace EqualityLogic

/-- What a theory says of an assignment. -/
inductive Verdict where
  /-- No opinion. -/
  | unknown
  /-- The assignment can be realised. -/
  | consistent
  /-- The assignment cannot be realised. -/
  | inconsistent
deriving DecidableEq

/-- A verdict is written in lower case. -/
def Verdict.text : Verdict → String
  | .unknown => "unknown"
  | .consistent => "consistent"
  | .inconsistent => "inconsistent"

/-- Why a theory has no clause to give. -/
inductive TheoryError where
  /-- There is no check to explain: none was made, or its conflict was explained already. -/
  | noPriorCheck
  /-- The latest check found no conflict. -/
  | notInconsistent (verdict : Verdict)
deriving DecidableEq

/-- The wording of an error. -/
def TheoryError.message : TheoryError → String
  | .noPriorCheck => "no check to learn from: call check() before learn()"
  | .notInconsistent verdict => "cannot learn a clause after a " ++ verdict.text ++ " check"

/-- An oracle with a state, which checks assignments and explains rejections. -/
class Theory (τ : Type) where
  /-- Judges an assignment. -/
  check : τ → Assignment → Verdict × τ
  /-- Explains the latest rejection by a clause. -/
  learn : τ → Except TheoryError Clause × τ

/-- A call to a theory. -/
inductive TheoryCall where
  /-- An assignment is to be judged. -/
  | check (m : Assignment)
  /-- The latest rejection is to be explained. -/
  | learn
deriving DecidableEq

namespace Theory

variable {τ : Type} [Theory τ]

/-- The theory after a call. -/
def perform (t : τ) : TheoryCall → τ
  | .check m => (check t m).2
  | .learn => (learn t).2

/-- The theory after calls in turn. -/
def after (t : τ) (calls : List TheoryCall) : τ := calls.foldl perform t

/-- Whatever calls have come before, the clause that explains a rejection consists of negations of
literals of the rejected assignment. -/
def Lawful (t : τ) : Prop :=
  ∀ calls m c, (check (after t calls) m).1 = .inconsistent →
    (learn (check (after t calls) m).2).1 = .ok c → ∀ l ∈ c, l.negate ∈ m

/-- A lawful theory is so after any call, a check or a request for a clause. Whoever talks to a
theory may therefore keep lawfulness as an invariant, without knowing the calls made so far. -/
theorem Lawful.perform {t : τ} (h : Lawful t) (call : TheoryCall) :
    Lawful (Theory.perform t call) :=
  fun calls => h (call :: calls)

/-- An explained rejection, as the two calls that it takes: a literal of the clause is the negation
of one of the rejected assignment. The search meets the contract in this form. -/
theorem Lawful.negate_mem {t th th' : τ} (h : Lawful t) {m : Assignment} {c : Clause} {l : Literal}
    (judged : check t m = (.inconsistent, th)) (explained : learn th = (.ok c, th'))
    (hl : l ∈ c) : l.negate ∈ m := by
  refine h [] m c ?_ ?_ l hl
  · show (check t m).1 = _
    rw [judged]
  · show (learn (check t m).2).1 = _
    rw [judged, explained]

end Theory

/-- A learned clause consists of negations of literals of the assignment just rejected. -/
class LawfulTheory (τ : Type) [Theory τ] : Prop where
  negate_mem : ∀ {t : τ} {m : Assignment} {c : Clause} {l : Literal},
    (Theory.check t m).1 = .inconsistent → (Theory.learn (Theory.check t m).2).1 = .ok c →
      l ∈ c → l.negate ∈ m

/-- A theory that is lawful in all states is so in each of them, and asks for no proof. -/
theorem Theory.lawful {τ : Type} [Theory τ] [LawfulTheory τ] (t : τ) : Lawful t :=
  fun _ _ _ rejected explained _ hl => LawfulTheory.negate_mem rejected explained hl

/-- The theory that constrains nothing, which leaves plain propositional search. -/
structure EmptyTheory where
deriving DecidableEq

instance : Theory EmptyTheory where
  check t _ := (.consistent, t)
  learn t := (.error (.notInconsistent .consistent), t)

instance : LawfulTheory EmptyTheory where
  negate_mem h := by cases h

end EqualityLogic
