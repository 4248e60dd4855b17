import EqualityLogic.Cnf.Literal

/-!
# Atoms

An atom is a propositional variable that stands for an equation between two of the theory's
variables, which are numbered from 0 below the size of the universe. A table of atoms keeps them in
ascending order of their identifiers, each identifier once. `AtomTable.insert` refuses an atom that
does not fit, and says why.
-/

set_option autoImplicit false

namespace EqualityLogic

/-- A propositional variable that stands for an equation over `n` theory variables. -/
structure Atom (n : Nat) where
  /-- The propositional variable. -/
  id : Nat
  /-- The left side of the equation. -/
  left : Fin n
  /-- The right side of the equation. -/
  right : Fin n
deriving DecidableEq

/-- Why a table refuses an atom. -/
inductive AtomError where
  /-- A side is no variable of the universe. -/
  | unknownVariable (atom : Int) (name : String)
  /-- The identifier is not positive or is too large. -/
  | invalidId (id : Int)
  /-- The identifier is taken. -/
  | duplicate (id : Int)
deriving DecidableEq

/-- The wording of an error. -/
def AtomError.message : AtomError → String
  | .unknownVariable atom name =>
    "atom " ++ toString atom ++ " refers to undeclared variable '" ++ name ++ "'"
  | .invalidId id =>
    "atom identifier " ++ toString id ++ " is not between 1 and " ++ toString maxVariable
  | .duplicate id => "atom identifier " ++ toString id ++ " is defined more than once"

/-- The atoms over a universe of `n` theory variables. -/
structure AtomTable (n : Nat) where
  /-- The atoms in ascending order. -/
  atoms : List (Atom n)
  /-- Identifiers ascend, so none occurs twice. -/
  ascending : atoms.Pairwise fun a b => a.id < b.id
  /-- Identifiers are variables that input may name. -/
  inRange : ∀ a ∈ atoms, 1 ≤ a.id ∧ a.id ≤ maxVariable
deriving DecidableEq

namespace AtomTable

variable {n : Nat}

/-- The table without atoms. -/
def empty (n : Nat) : AtomTable n := ⟨[], .nil, by simp⟩

/-- The atom with a given identifier. -/
def get? (t : AtomTable n) (id : Int) : Option (Atom n) :=
  t.atoms.find? fun a => (a.id : Int) = id

/-- The atom that a literal is about. -/
def atomOf? (t : AtomTable n) (l : Literal) : Option (Atom n) :=
  t.get? l.var

/-- The largest identifier, or 0 if there is no atom. -/
def maxId (t : AtomTable n) : Nat := (t.atoms.map Atom.id).foldr max 0

/-! ### Insertion -/

/-- Puts an atom before the first one with a larger identifier. -/
def place (a : Atom n) : List (Atom n) → List (Atom n)
  | [] => [a]
  | b :: bs => if a.id < b.id then a :: b :: bs else b :: place a bs

/-- Placing an atom adds it to the others and loses none of them. With `ascending_place` this makes
`insert` build a table again. -/
theorem mem_place {a x : Atom n} {as : List (Atom n)} : x ∈ place a as ↔ x = a ∨ x ∈ as := by
  induction as with
  | nil => simp [place]
  | cons b bs ih =>
    rw [place]
    split
    · exact List.mem_cons
    · rw [List.mem_cons, ih, List.mem_cons]
      exact ⟨fun h => by rcases h with h | h | h <;> simp [h],
        fun h => by rcases h with h | h | h <;> simp [h]⟩

/-- Placing an atom keeps the identifiers in ascending order. It must have an identifier of its own:
behind an atom with the same one, the order would no longer be strict. -/
theorem ascending_place {a : Atom n} {as : List (Atom n)}
    (asc : as.Pairwise fun x y => x.id < y.id) (new : ∀ x ∈ as, x.id ≠ a.id) :
    (place a as).Pairwise fun x y => x.id < y.id := by
  induction as with
  | nil => exact List.pairwise_singleton _ _
  | cons b bs ih =>
    obtain ⟨hb, hbs⟩ := List.pairwise_cons.1 asc
    rw [place]
    split
    · next h =>
      refine List.pairwise_cons.2 ⟨fun x hx => ?_, asc⟩
      rcases List.mem_cons.1 hx with rfl | hx
      · exact h
      · exact Nat.lt_trans h (hb x hx)
    · next h =>
      refine List.pairwise_cons.2 ⟨fun x hx => ?_, ih hbs fun x hx =>
        new x (List.mem_cons_of_mem _ hx)⟩
      rcases mem_place.1 hx with rfl | hx
      · -- the atom comes after `b`, and not with the same identifier
        have := new b List.mem_cons_self
        omega
      · exact hb x hx

/-- The theory variable that a number names, as a side of the atom `id`. -/
def side (n : Nat) (id : Int) (i : Nat) : Except AtomError (Fin n) :=
  if h : i < n then .ok ⟨i, h⟩ else .error (.unknownVariable id ("#" ++ toString i))

/-- Adds an atom. The identifier is judged first, then the left side, then the right one. -/
def insert (t : AtomTable n) (id : Int) (left right : Nat) : Except AtomError (AtomTable n) :=
  if range : id < 1 ∨ (maxVariable : Int) < id then .error (.invalidId id)
  else if new : ∃ a ∈ t.atoms, (a.id : Int) = id then .error (.duplicate id)
  else
    match side n id left, side n id right with
    | .error e, _ => .error e
    | _, .error e => .error e
    | .ok l, .ok r => .ok {
        atoms := place ⟨id.toNat, l, r⟩ t.atoms
        ascending := ascending_place t.ascending fun x hx e => new ⟨x, hx, by simp at e; omega⟩
        inRange := fun x hx => by
          rcases mem_place.1 hx with rfl | hx
          · simp only
            omega
          · exact t.inRange x hx }

end AtomTable

end EqualityLogic
