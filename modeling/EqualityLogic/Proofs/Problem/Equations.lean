import EqualityLogic.Problem.Draft
import EqualityLogic.Proofs.Problem.Faults
import Mathlib.Data.List.Nodup

/-!
# From equations to a table

`Equation.fault` says what is wrong with an equation among declared names that comes after others:
a side is not declared, its number is out of range, or its number is taken. The loop that makes the
table of a draft stops at the first equation with a fault, and a table that is made has an atom for
each equation and no other (`Draft.judges_enter`).

A table lists its atoms by number. So it is known when its atoms are known in any order
(`AtomTable.eq_of_spelled_perm`), and the order of the equations does not matter to it.
-/

set_option autoImplicit false

namespace EqualityLogic

namespace Equation

/-- What is wrong with an equation that comes after others. The left side is looked up first, then
the right one, and only then the number is judged. -/
def fault (names : List String) (before : List Equation) (e : Equation) : Option AtomError :=
  if e.left ∉ names then some (.unknownVariable e.id e.left)
  else if e.right ∉ names then some (.unknownVariable e.id e.right)
  else if e.id < 1 ∨ (maxVariable : Int) < e.id then some (.invalidId e.id)
  else if e.id ∈ before.map Equation.id then some (.duplicate e.id)
  else none

/-- Nothing is wrong with an equation on its own. -/
structure Fits (names : List String) (e : Equation) : Prop where
  left : e.left ∈ names
  right : e.right ∈ names
  positive : 1 ≤ e.id
  small : e.id ≤ (maxVariable : Int)

variable {names : List String}

/-- An equation without fault fits among the names, and its number is new. Of the two conditions
only the second one has to do with the equations before it. -/
theorem fault_eq_none_iff {before : List Equation} {e : Equation} :
    fault names before e = none ↔ e.Fits names ∧ e.id ∉ before.map Equation.id := by
  unfold fault
  constructor
  · intro fine
    -- each check is passed, one after the other
    by_cases left : e.left ∈ names
    · by_cases right : e.right ∈ names
      · by_cases range : e.id < 1 ∨ (maxVariable : Int) < e.id
        · simp [left, right, range] at fine
        · simp only [left, right, range, not_true, if_false, ite_eq_right_iff] at fine
          exact ⟨⟨left, right, by omega, by omega⟩, fun taken => nomatch fine taken⟩
      · simp [left, right] at fine
    · simp [left] at fine
  · intro ⟨fits, new⟩
    have range : ¬ (e.id < 1 ∨ (maxVariable : Int) < e.id) := by
      have := fits.positive
      have := fits.small
      omega
    rw [if_neg (not_not_intro fits.left), if_neg (not_not_intro fits.right), if_neg range,
      if_neg new]

/-- Only the set of the declared names matters, not their order or how often they are listed. So
faults may be stated of declarations with repetitions. -/
theorem fault_congr {names' : List String} (same : ∀ name, name ∈ names ↔ name ∈ names') :
    fault names = fault names' := by
  funext before e
  simp only [fault, same]

/-- Equations are without fault if each is on its own and no number is taken twice. Nothing is said
of an order here, which gives `faultless_perm`. -/
theorem faultless_iff {es : List Equation} :
    Faultless (fault names) es ↔ (∀ e ∈ es, e.Fits names) ∧ (es.map Equation.id).Nodup := by
  induction es using List.reverseRecOn with
  | nil => simp [faultless_nil]
  | append_singleton es e ih =>
      rw [faultless_append_singleton, ih, fault_eq_none_iff, List.forall_mem_append,
        List.forall_mem_singleton, List.map_append, List.map_singleton, List.nodup_append_comm,
        List.singleton_append, List.nodup_cons]
      constructor
      · intro ⟨⟨others, distinct⟩, fits, new⟩
        exact ⟨⟨others, fits⟩, new, distinct⟩
      · intro ⟨⟨others, fits⟩, new, distinct⟩
        exact ⟨⟨others, distinct⟩, fits, new⟩

/-- Their order does not matter to that, although it decides which fault is the first. -/
theorem faultless_perm {es es' : List Equation} (order : es.Perm es') :
    Faultless (fault names) es ↔ Faultless (fault names) es' := by
  rw [faultless_iff, faultless_iff, (order.map Equation.id).nodup_iff]
  simp only [order.mem_iff]

/-- Equations in the order of their numbers are known when they are known in any order. -/
theorem eq_of_perm {es es' : List Equation} (same : es.Perm es')
    (ascending : es.Pairwise fun e e' => e.id < e'.id)
    (ascending' : es'.Pairwise fun e e' => e.id < e'.id) : es = es' := by
  refine same.eq_of_pairwise ?_ ascending ascending'
  intro e e' _ _ less more
  exact absurd (Int.lt_trans less more) (Int.lt_irrefl _)

end Equation

/-! ### Tables -/

/-- The atoms of a table as equations between names. -/
def AtomTable.spelled (names : List String) (t : AtomTable names.length) : List Equation :=
  t.atoms.map fun a => ⟨a.id, names[a.left], names[a.right]⟩

/-- The equations determine the atoms, since no name is listed twice. Without that, one equation
could be spelled of several atoms. -/
theorem AtomTable.spelled_inj {names : List String} (distinct : names.Nodup)
    {t t' : AtomTable names.length} (h : t.spelled names = t'.spelled names) : t = t' := by
  -- an index can be read off its name
  have same : ∀ {i j : Fin names.length}, names[i] = names[j] → i = j := fun e =>
    Fin.ext (distinct.getElem_inj_iff.1 e)
  obtain ⟨atoms, _, _⟩ := t
  obtain ⟨atoms', _, _⟩ := t'
  obtain rfl : atoms = atoms' := by
    refine (List.map_inj_right fun a b e => ?_).1 h
    obtain ⟨id, left, right⟩ := a
    obtain ⟨id', left', right'⟩ := b
    simp only [Equation.mk.injEq, Int.natCast_inj] at e
    obtain ⟨rfl, hleft, hright⟩ := e
    rw [same hleft, same hright]
  rfl

namespace AtomTable

variable {n : Nat}

/-- Putting an atom in its place adds it to the others, and leaves none out. -/
theorem place_perm (a : Atom n) (as : List (Atom n)) : (place a as).Perm (a :: as) := by
  induction as with
  | nil => exact .refl _
  | cons b bs ih =>
      rw [place]
      split
      · exact .refl _
      · exact (ih.cons b).trans (.swap a b bs)

/-- An atom with a new identifier that is in range is put in its place. The sides are indexes
already, so there is nothing else to judge. -/
theorem insert_of_new {t : AtomTable n} {id : Int} (left right : Fin n) (positive : 1 ≤ id)
    (small : id ≤ maxVariable) (new : ∀ b ∈ t.atoms, (b.id : Int) ≠ id) :
    ∃ t', t.insert id left right = .ok t' ∧ t'.atoms = place ⟨id.toNat, left, right⟩ t.atoms := by
  have side_ok : ∀ i : Fin n, side n id i = .ok i := fun i => dif_pos i.isLt
  have range : ¬ (id < 1 ∨ (maxVariable : Int) < id) := by omega
  have free : ¬ ∃ a ∈ t.atoms, (a.id : Int) = id := fun ⟨a, ha, e⟩ => new a ha e
  rw [insert, dif_neg range, dif_neg free]
  simp only [side_ok]
  exact ⟨_, rfl, rfl⟩

/-- The range of an identifier is judged before all else, the sides included. -/
theorem insert_of_range {t : AtomTable n} {id : Int} (left right : Nat)
    (range : id < 1 ∨ (maxVariable : Int) < id) :
    t.insert id left right = .error (.invalidId id) := by
  rw [insert, dif_pos range]

/-- A number that is taken is refused, whatever the sides are. -/
theorem insert_of_taken {t : AtomTable n} {id : Int} (left right : Nat)
    (range : ¬ (id < 1 ∨ (maxVariable : Int) < id)) (taken : ∃ a ∈ t.atoms, (a.id : Int) = id) :
    t.insert id left right = .error (.duplicate id) := by
  rw [insert, dif_neg range, dif_pos taken]

variable {names : List String}

/-- The numbers of a table are those of its equations. It lets the check for a number that is taken
be stated of either. -/
theorem mem_ids_spelled {t : AtomTable names.length} {id : Int} :
    id ∈ (t.spelled names).map Equation.id ↔ ∃ a ∈ t.atoms, (a.id : Int) = id := by
  simp [spelled]

/-- The equations of a table are in the order of their numbers. -/
theorem ascending_spelled (t : AtomTable names.length) :
    (t.spelled names).Pairwise fun e e' => e.id < e'.id := by
  refine List.pairwise_map.2 (t.ascending.imp ?_)
  intro a b less
  exact Int.ofNat_lt.2 less

/-- A table is known when its atoms are known in any order, since it lists them by number. -/
theorem eq_of_spelled_perm (distinct : names.Nodup) {t t' : AtomTable names.length}
    (h : (t.spelled names).Perm (t'.spelled names)) : t = t' :=
  spelled_inj distinct (Equation.eq_of_perm h t.ascending_spelled t'.ascending_spelled)

end AtomTable

namespace Draft

variable {d : Draft}

/-- A declared name has an index, at which it stands in the list. The number of the equation is
there for the error only. -/
theorem exists_resolve {name : String} (declared : name ∈ d.names) (id : Int) :
    ∃ i : Fin d.names.length, d.resolve id name = .ok i ∧ d.names[i] = name := by
  unfold resolve
  cases h : d.names.finIdxOf? name with
  | none =>
      rw [List.finIdxOf?_eq_none_iff] at h
      exact absurd declared h
  | some i => exact ⟨i, rfl, (List.finIdxOf?_eq_some_iff.1 h).1⟩

/-- A name that is not declared has none, and the error says so of that name. -/
theorem resolve_of_not_mem {name : String} (undeclared : name ∉ d.names) (id : Int) :
    d.resolve id name = .error (.unknownVariable id name) := by
  rw [resolve, List.finIdxOf?_eq_none_iff.2 undeclared]

/-- An equation without fault is entered into the table of those before it. The table holds these in
the order of their numbers, so it is compared with them up to order. -/
theorem enter_of_fault_eq_none {t : AtomTable d.names.length} {before : List Equation}
    {e : Equation} (spelled : (t.spelled d.names).Perm before)
    (fine : e.fault d.names before = none) :
    ∃ t', d.enter t e = .ok t' ∧ (t'.spelled d.names).Perm (before ++ [e]) := by
  obtain ⟨fits, new⟩ := Equation.fault_eq_none_iff.1 fine
  obtain ⟨i, hi, left⟩ := exists_resolve fits.left e.id
  obtain ⟨j, hj, right⟩ := exists_resolve fits.right e.id
  -- the numbers in the table are those of the equations before
  have free : ∀ a ∈ t.atoms, (a.id : Int) ≠ e.id := by
    intro a ha same
    apply new
    rw [← (spelled.map Equation.id).mem_iff]
    exact AtomTable.mem_ids_spelled.2 ⟨a, ha, same⟩
  obtain ⟨t', ok, atoms⟩ := AtomTable.insert_of_new i j fits.positive fits.small free
  refine ⟨t', ?_, ?_⟩
  · rw [enter, hi, hj]
    exact ok
  · have number : (e.id.toNat : Int) = e.id := Int.toNat_of_nonneg (by have := fits.positive; omega)
    have entered : (⟨e.id.toNat, d.names[i], d.names[j]⟩ : Equation) = e := by
      rw [number, left, right]
    have listed : (t'.spelled d.names).Perm (e :: t.spelled d.names) := by
      rw [AtomTable.spelled, atoms, AtomTable.spelled]
      have := (AtomTable.place_perm ⟨e.id.toNat, i, j⟩ t.atoms).map
        fun a => (⟨a.id, d.names[a.left], d.names[a.right]⟩ : Equation)
      rw [List.map_cons, entered] at this
      exact this
    exact (listed.trans (spelled.cons e)).trans (List.perm_append_singleton e before).symm

/-- An equation with a fault is not entered, and the error is that fault. The checks are made in the
order in which `Equation.fault` lists them. -/
theorem enter_of_fault_eq_some {t : AtomTable d.names.length} {before : List Equation}
    {e : Equation} {err : AtomError} (spelled : (t.spelled d.names).Perm before)
    (wrong : e.fault d.names before = some err) : d.enter t e = .error err := by
  unfold Equation.fault at wrong
  unfold enter
  -- both sides are looked up before the table sees the number
  by_cases left : e.left ∈ d.names
  · obtain ⟨i, hi, -⟩ := exists_resolve left e.id
    by_cases right : e.right ∈ d.names
    · obtain ⟨j, hj, -⟩ := exists_resolve right e.id
      rw [if_neg (not_not_intro left), if_neg (not_not_intro right)] at wrong
      rw [hi, hj]
      show t.insert e.id i j = _
      split at wrong
      · next range =>
        rw [AtomTable.insert_of_range _ _ range, Option.some.inj wrong]
      · next range =>
        split at wrong
        · next taken =>
          rw [← (spelled.map Equation.id).mem_iff, AtomTable.mem_ids_spelled] at taken
          rw [AtomTable.insert_of_taken _ _ range taken, Option.some.inj wrong]
        · cases wrong
    · rw [if_neg (not_not_intro left), if_pos right] at wrong
      rw [hi, resolve_of_not_mem right, Option.some.inj wrong]
      rfl
  · rw [if_pos left] at wrong
    rw [resolve_of_not_mem left, Option.some.inj wrong]
    rfl

/-- The last equation is entered into the table of those before it. First faults are found along a
list that grows at its end, and so the loop is read from there. -/
theorem foldlM_append_singleton (t : AtomTable d.names.length) (es : List Equation) (e : Equation) :
    (es ++ [e]).foldlM d.enter t = es.foldlM d.enter t >>= fun t => d.enter t e := by
  simp [List.foldlM_append]

/-- Equations are entered in turn up to the first one with a fault, and the table that is made has
an atom for each of them and no other. -/
theorem judges_enter (d : Draft) :
    Judges (Equation.fault d.names) (fun es => es.foldlM d.enter (.empty _))
      fun es t => (t.spelled d.names).Perm es where
  start := ⟨_, rfl, .refl _⟩
  take ok spelled fine := by
    rw [foldlM_append_singleton, ok]
    exact enter_of_fault_eq_none spelled fine
  refuse ok spelled wrong := by
    rw [foldlM_append_singleton, ok]
    exact enter_of_fault_eq_some spelled wrong
  stop failed := by
    rw [foldlM_append_singleton, failed]
    rfl

end Draft

end EqualityLogic
