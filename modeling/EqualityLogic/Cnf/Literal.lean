/-!
# Literals

A literal is a nonzero signed number. Its absolute value names a propositional variable, and its
sign says whether it stands for the variable or for its negation. Negation cancels
(`negate_negate`), keeps the variable (`var_negate`) and flips the sign (`isNegated_negate`).
-/

set_option autoImplicit false

namespace EqualityLogic

/-- The largest variable that input may name. A search keeps one slot for each variable, so bigger
numbers are refused when they are read. -/
def maxVariable : Nat := Nat.pow 2 24

/-- A variable (a positive number) or the negation of one (a negative number). -/
structure Literal where
  /-- The signed number that names the literal. -/
  number : Int
  /-- Zero would name no variable. -/
  number_ne_zero : number ≠ 0
deriving DecidableEq

namespace Literal

/-- Why a number is no literal. -/
inductive Error where
  /-- The number is zero. -/
  | zero
deriving DecidableEq, Repr

/-- The wording of an error. -/
def Error.message : Error → String
  | .zero => "cannot construct a literal numbered zero"

/-- The literal with a given number. -/
def ofNumber (n : Int) : Except Error Literal :=
  if h : n = 0 then .error .zero else .ok ⟨n, h⟩

/-- The positive literal of a variable. -/
def ofVar (v : Nat) (h : v ≠ 0) : Literal :=
  ⟨v, by omega⟩

/-- The variable that a literal is about. -/
def var (l : Literal) : Nat := l.number.natAbs

/-- Whether a literal stands for the negation of its variable. -/
def isNegated (l : Literal) : Bool := l.number < 0

/-- The literal of the same variable and the other sign. -/
def negate (l : Literal) : Literal :=
  ⟨-l.number, by have := l.number_ne_zero; omega⟩

/-- The literal itself, or its negation when it is to be made false. -/
def withPolarity (l : Literal) (positive : Bool) : Literal :=
  if positive then l else l.negate

/-- The positive literal of a literal's variable. -/
def atom (l : Literal) : Literal :=
  ofVar l.var (by have := l.number_ne_zero; simp [var, this])

/-- A literal is written as its number. -/
def text (l : Literal) : String := toString l.number

/-- Literals are ordered by their signed numbers. -/
instance : Ord Literal := ⟨fun a b => compare a.number b.number⟩

/-! ### Small facts -/

/-- Literals are equal when their numbers are. That neither number is zero is a proof, of which
there is only one. -/
theorem ext {a b : Literal} (h : a.number = b.number) : a = b := by
  cases a; cases b; cases h; rfl

/-- No literal is about variable 0, so the slot for it in a table of values stays unused. -/
theorem var_ne_zero (l : Literal) : l.var ≠ 0 := by
  have := l.number_ne_zero
  simp [var, this]

/-- Negating twice gives the literal back. -/
@[simp] theorem negate_negate (l : Literal) : l.negate.negate = l :=
  ext (by simp [negate])

/-- A literal and its negation are about the same variable. -/
@[simp] theorem var_negate (l : Literal) : l.negate.var = l.var := by
  simp [var, negate]

/-- Of a literal and its negation one has the sign. The number is not zero, so it is negative or its
opposite is. -/
@[simp] theorem isNegated_negate (l : Literal) : l.negate.isNegated = !l.isNegated := by
  have h := l.number_ne_zero
  show decide (-l.number < 0) = !decide (l.number < 0)
  rw [← decide_not, decide_eq_decide]
  omega

/-- The positive literal of a variable is about that variable. -/
@[simp] theorem var_ofVar (v : Nat) (h : v ≠ 0) : (ofVar v h).var = v := by
  simp [var, ofVar]

/-- The positive literal of a variable has no sign. -/
@[simp] theorem isNegated_ofVar (v : Nat) (h : v ≠ 0) : (ofVar v h).isNegated = false := by
  show decide ((v : Int) < 0) = false
  exact decide_eq_false (by omega)

/-- The positive literal of a literal's variable is about the same variable. -/
@[simp] theorem var_atom (l : Literal) : l.atom.var = l.var :=
  var_ofVar _ _

/-- A polarity does not change the variable. A decision therefore concerns the variable of the
literal that was offered, whichever phase is set. -/
@[simp] theorem var_withPolarity (l : Literal) (b : Bool) : (l.withPolarity b).var = l.var := by
  cases b <;> simp [withPolarity]

/-- A polarity keeps the sign of a literal or turns it over. Of a positive literal it makes the one
with the sign that the phase of a search asks for. -/
theorem isNegated_withPolarity (l : Literal) (b : Bool) :
    (l.withPolarity b).isNegated = if b then l.isNegated else !l.isNegated := by
  cases b <;> simp [withPolarity]

/-- No literal is its own negation, since zero is no literal. An assignment is consistent for this
reason alone where it lists a variable once. -/
theorem negate_ne_self (l : Literal) : l.negate ≠ l := by
  intro h
  have h' : l.negate.isNegated = l.isNegated := by rw [h]
  simp at h'

/-- A variable and a sign name one literal. This is how literals are told to be equal wherever their
variables and signs are known, as from the table of a trail. -/
theorem eq_of_var_of_isNegated {a b : Literal} (hv : a.var = b.var)
    (hs : a.isNegated = b.isNegated) : a = b := by
  apply ext
  simp only [var, isNegated, decide_eq_decide] at hv hs
  omega

/-- Two literals of one variable are equal or each other's negation. There are no more than these
two. -/
theorem eq_or_eq_negate_of_var {a b : Literal} (hv : a.var = b.var) : a = b ∨ a = b.negate := by
  cases ha : a.isNegated <;> cases hb : b.isNegated
  · exact .inl (eq_of_var_of_isNegated hv (by rw [ha, hb]))
  · exact .inr (eq_of_var_of_isNegated (by simp [hv]) (by simp [ha, hb]))
  · exact .inr (eq_of_var_of_isNegated (by simp [hv]) (by simp [ha, hb]))
  · exact .inl (eq_of_var_of_isNegated hv (by rw [ha, hb]))

end Literal

end EqualityLogic
