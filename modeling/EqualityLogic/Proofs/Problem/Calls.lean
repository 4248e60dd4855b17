import EqualityLogic.Proofs.Problem.Building

/-!
# Drafts made by calls

A draft is made by calls that declare names, add equations and add clauses, in any order. What
building it gives is a matter of three lists that are read off the calls: the names that are
declared (`declared`), the equations (`equated`) and the clauses (`added`). For each call adds to
one of the lists and leaves the others alone (`parts_ofCalls`), and a second declaration of a name
leaves the names as they are (`names_declareAll`). `build_ofCalls` says what is built, or what is
at fault, in terms of these lists.

A draft searches its list for a name. An index that is kept beside the list finds the same places
(`resolve_eq_index`), since the two take up a new name together (`Register.Agrees.declare`).
-/

set_option autoImplicit false

namespace EqualityLogic

namespace Draft

variable {d : Draft}

/-! ### Names -/

/-- A name joins the list at its end, or is there already and changes nothing. So the place of a
name is that of its first declaration. -/
theorem names_declare (d : Draft) (name : String) :
    (d.declare name).names = if name ∈ d.names then d.names else d.names ++ [name] := by
  unfold declare
  split <;> rfl

/-- One more name is listed at the end unless it has been mentioned before. -/
theorem names_declare_eraseDups {d : Draft} {before : List String}
    (listed : d.names = before.eraseDups) (name : String) :
    (d.declare name).names = (before ++ [name]).eraseDups := by
  rw [names_declare, listed, List.eraseDups_append]
  by_cases mentioned : name ∈ before
  · simp [mentioned, List.removeAll]
  · simp [mentioned, List.removeAll, List.eraseDups_cons]

/-- Declaring names in turn lists each where it is mentioned first, whether in this call or before
it. -/
theorem names_declareAll {d : Draft} {before : List String} (listed : d.names = before.eraseDups)
    (ns : List String) : (d.declareAll ns).names = (before ++ ns).eraseDups := by
  induction ns generalizing d before with
  | nil => rw [List.append_nil]; exact listed
  | cons name ns ih =>
      have next := ih (names_declare_eraseDups listed name)
      rw [List.append_assoc] at next
      exact next

/-- A declaration leaves equations and clauses alone, also if the name is new. -/
theorem equations_declare (d : Draft) (name : String) :
    (d.declare name).equations = d.equations ∧ (d.declare name).clauses = d.clauses := by
  unfold declare
  split <;> exact ⟨rfl, rfl⟩

/-- Any number of declarations leaves equations and clauses alone. -/
theorem equations_declareAll (d : Draft) (ns : List String) :
    (d.declareAll ns).equations = d.equations ∧ (d.declareAll ns).clauses = d.clauses := by
  induction ns generalizing d with
  | nil => exact ⟨rfl, rfl⟩
  | cons name ns ih =>
      obtain ⟨equations, clauses⟩ := ih (d.declare name)
      obtain ⟨equations', clauses'⟩ := d.equations_declare name
      exact ⟨equations.trans equations', clauses.trans clauses'⟩

/-! ### Calls -/

/-- A call that adds to a draft. -/
inductive Call where
  /-- Declares a name. -/
  | declare (name : String)
  /-- Declares names in turn. -/
  | declareAll (names : List String)
  /-- Adds an equation. -/
  | equate (id : Int) (left right : String)
  /-- Adds a clause. -/
  | addClause (ns : List Int)
  /-- Adds clauses in turn. -/
  | addClauses (clauses : List (List Int))
deriving DecidableEq

namespace Call

/-- The names that a call declares. -/
def names : Call → List String
  | declare name => [name]
  | declareAll names => names
  | _ => []

/-- The equations that a call adds. -/
def equations : Call → List Equation
  | equate id left right => [⟨id, left, right⟩]
  | _ => []

/-- The clauses that a call adds. -/
def clauses : Call → List (List Int)
  | addClause ns => [ns]
  | addClauses clauses => clauses
  | _ => []

end Call

/-- The draft after a call. -/
def call (d : Draft) : Call → Draft
  | .declare name => d.declare name
  | .declareAll names => d.declareAll names
  | .equate id left right => d.equate id left right
  | .addClause ns => d.addClause ns
  | .addClauses clauses => d.addClauses clauses

/-- The draft that calls make, in turn, from the one without parts. -/
def ofCalls (calls : List Call) : Draft := calls.foldl call empty

/-- The names that are declared, in this order, with repetitions. -/
def declared (calls : List Call) : List String := calls.flatMap Call.names

/-- The equations that are added, in this order. -/
def equated (calls : List Call) : List Equation := calls.flatMap Call.equations

/-- The clauses that are added, in this order. -/
def added (calls : List Call) : List (List Int) := calls.flatMap Call.clauses

/-- A call lists the names that it declares, each where it is mentioned first, and no others. -/
theorem names_call {before : List String} (listed : d.names = before.eraseDups) (c : Call) :
    (d.call c).names = (before ++ c.names).eraseDups := by
  cases c with
  | declare name => exact names_declareAll listed [name]
  | declareAll names => exact names_declareAll listed names
  | equate id left right => simpa [call, equate, Call.names] using listed
  | addClause ns => simpa [call, addClause, Call.names] using listed
  | addClauses clauses => simpa [call, addClauses, Call.names] using listed

/-- A call adds its equations and its clauses at the end of theirs. With `names_call` this says all
of what a call does to a draft. -/
theorem equations_call (c : Call) :
    (d.call c).equations = d.equations ++ c.equations ∧
      (d.call c).clauses = d.clauses ++ c.clauses := by
  cases c with
  | declare name => simpa [call, Call.equations, Call.clauses] using d.equations_declare name
  | declareAll names =>
      simpa [call, Call.equations, Call.clauses] using d.equations_declareAll names
  | equate id left right => simp [call, equate, Call.equations, Call.clauses]
  | addClause ns => simp [call, addClause, Call.equations, Call.clauses]
  | addClauses clauses => simp [call, addClauses, Call.equations, Call.clauses]

/-- The parts of a draft are read off the calls that made it: each kind goes its own way. This is
the induction on calls; all that follows is about the three lists. -/
theorem parts_ofCalls (calls : List Call) :
    (ofCalls calls).names = (declared calls).eraseDups ∧
      (ofCalls calls).equations = equated calls ∧ (ofCalls calls).clauses = added calls := by
  induction calls using List.reverseRecOn with
  | nil => exact ⟨rfl, rfl, rfl⟩
  | append_singleton calls c ih =>
      obtain ⟨names, equations, clauses⟩ := ih
      obtain ⟨equations', clauses'⟩ := (ofCalls calls).equations_call c
      rw [ofCalls, List.foldl_append, declared, equated, added, List.flatMap_append,
        List.flatMap_append, List.flatMap_append]
      simp only [List.flatMap_singleton]
      refine ⟨names_call names c, equations'.trans ?_, clauses'.trans ?_⟩
      · rw [equations, equated]
      · rw [clauses, added]

/-! ### An index of the names -/

/-- Names with an index, in which a name is looked up instead of being searched in the list. -/
structure Register where
  /-- The names in the order of their first declarations. -/
  names : List String
  /-- The place of each name in the list. -/
  index : Std.HashMap String Nat

/-- A new name stands at the end of a list, and all others where they stood before. A hash map says
the same of its own look-ups. -/
theorem idxOf?_append_singleton {xs : List String} {name : String} (new : name ∉ xs)
    (other : String) :
    (xs ++ [name]).idxOf? other = if name = other then some xs.length else xs.idxOf? other := by
  have appended : (xs ++ [name]).idxOf? other =
      (xs.idxOf? other).or (([name].idxOf? other).map (· + xs.length)) := List.findIdx?_append
  rw [appended]
  by_cases same : name = other
  · subst same
    have before : xs.idxOf? name = none := List.idxOf?_eq_none_iff.2 new
    have last : [name].idxOf? name = some 0 := by simp [List.idxOf?]
    rw [before, last, if_pos rfl, Option.none_or, Option.map_some, Nat.zero_add]
  · have last : [name].idxOf? other = none := List.idxOf?_eq_none_iff.2 (by simp [Ne.symm same])
    rw [last, if_neg same, Option.map_none, Option.or_none]

namespace Register

/-- Declares a name that the index does not know. -/
def declare (r : Register) (name : String) : Register :=
  if name ∈ r.index then r else ⟨r.names ++ [name], r.index.insert name r.names.length⟩

/-- The register of names that are declared in turn. -/
def ofNames (names : List String) : Register := names.foldl declare ⟨[], ∅⟩

/-- The list is that of a draft, and the index has each name where it stands in the list. -/
structure Agrees (r : Register) (d : Draft) : Prop where
  names : r.names = d.names
  places : ∀ name : String, r.index[name]? = d.names.idxOf? name

variable {r : Register}

/-- A name is in the index just if it is in the list, so both decide alike whether a name is new. -/
theorem Agrees.mem_index (h : r.Agrees d) (name : String) : name ∈ r.index ↔ name ∈ d.names := by
  rw [Std.HashMap.mem_iff_isSome_getElem?, h.places, List.isSome_idxOf?]

/-- The index and the list take up a new name together, and leave a known one alone together. -/
theorem Agrees.declare (h : r.Agrees d) (name : String) :
    (r.declare name).Agrees (d.declare name) := by
  unfold Register.declare
  by_cases known : name ∈ d.names
  · rw [if_pos ((h.mem_index name).2 known), Draft.declare, dif_pos known]
    exact h
  · have listed : (d.declare name).names = d.names ++ [name] := by
      rw [names_declare, if_neg known]
    rw [if_neg (mt (h.mem_index name).1 known)]
    constructor
    · rw [listed, h.names]
    · -- only the new name gets a new place, behind the others
      intro other
      rw [listed, Std.HashMap.getElem?_insert, h.places, h.names, idxOf?_append_singleton known]
      simp only [beq_iff_eq]

/-- So they do for names in turn, by induction on the names that are declared. -/
theorem Agrees.declareAll (h : r.Agrees d) (ns : List String) :
    (ns.foldl Register.declare r).Agrees (d.declareAll ns) := by
  induction ns generalizing r d with
  | nil => exact h
  | cons name ns ih => exact ih (h.declare name)

/-- A call keeps index and list in step, as it declares its names and does nothing else to either.
-/
theorem Agrees.call (h : r.Agrees d) (c : Call) :
    (c.names.foldl Register.declare r).Agrees (d.call c) := by
  cases c with
  | declare name => exact h.declare name
  | declareAll names => exact h.declareAll names
  | equate id left right => exact ⟨h.names, h.places⟩
  | addClause ns => exact ⟨h.names, h.places⟩
  | addClauses clauses => exact ⟨h.names, h.places⟩

/-- The index of all names that are declared agrees with the draft that the calls make, with
whatever other calls stand between them. -/
theorem agrees_ofNames (calls : List Call) : (ofNames (declared calls)).Agrees (ofCalls calls) := by
  induction calls using List.reverseRecOn with
  | nil => exact ⟨rfl, fun name => by simp [declared, ofNames, ofCalls, Draft.empty]⟩
  | append_singleton calls c ih =>
      rw [ofCalls, List.foldl_append, ofNames, declared, List.flatMap_append, List.foldl_append,
        List.flatMap_singleton]
      exact ih.call c

end Register

/-- The list is searched for a name, but it is found where an index has it that is kept beside the
list as names are declared. -/
theorem resolve_eq_index (calls : List Call) (id : Int) (name : String) :
    ((ofCalls calls).resolve id name).toOption.map Fin.val =
      (Register.ofNames (declared calls)).index[name]? := by
  rw [(Register.agrees_ofNames calls).places, List.idxOf?_eq_map_finIdxOf?_val, resolve]
  cases (ofCalls calls).names.finIdxOf? name <;> rfl

/-! ### What is built -/

/-- A name is declared when it is listed, however often it has been declared. So faults may be
stated of the declarations as they were made. -/
theorem fault_ofCalls (calls : List Call) :
    Equation.fault (ofCalls calls).names = Equation.fault (declared calls) := by
  apply Equation.fault_congr
  intro name
  rw [(parts_ofCalls calls).1, List.mem_eraseDups]

/-- Calls make a problem just if none of the equations and clauses they add is at fault, and it is
the problem of these parts. -/
theorem build_ofCalls_eq_ok_iff {calls : List Call} {p : Problem} :
    (ofCalls calls).build = .ok p ↔
      Faultless (Equation.fault (declared calls)) (equated calls) ∧
        Faultless Clause.fault (added calls) ∧
        p.MadeOf (declared calls).eraseDups (equated calls) (added calls) := by
  obtain ⟨names, equations, clauses⟩ := parts_ofCalls calls
  rw [build_eq_ok_iff, fault_ofCalls, names, equations, clauses]

/-- Calls make no problem because of the first fault of what they add. The equations come first here
too, whichever of the calls was made first. -/
theorem build_ofCalls_eq_error_iff {calls : List Call} {err : DraftError} :
    (ofCalls calls).build = .error err ↔
      (∃ e, FirstFault (Equation.fault (declared calls)) (equated calls) e ∧ err = .atom e) ∨
        Faultless (Equation.fault (declared calls)) (equated calls) ∧
          FirstFault Clause.fault (added calls) err := by
  obtain ⟨-, equations, clauses⟩ := parts_ofCalls calls
  rw [build_eq_error_iff, fault_ofCalls, equations, clauses]

/-- A draft is determined by its names, its equations and its clauses. -/
theorem eq_of_parts {d d' : Draft} (names : d.names = d'.names)
    (equations : d.equations = d'.equations) (clauses : d.clauses = d'.clauses) : d = d' := by
  cases d
  cases d'
  cases names
  cases equations
  cases clauses
  rfl

/-- Calls that declare the same names, and add the same equations and clauses, make one draft. -/
theorem ofCalls_congr {calls calls' : List Call} (names : declared calls' = declared calls)
    (equations : equated calls' = equated calls) (clauses : added calls' = added calls) :
    ofCalls calls' = ofCalls calls := by
  obtain ⟨hnames, hequations, hclauses⟩ := parts_ofCalls calls
  obtain ⟨hnames', hequations', hclauses'⟩ := parts_ofCalls calls'
  apply eq_of_parts
  · rw [hnames', hnames, names]
  · rw [hequations', hequations, equations]
  · rw [hclauses', hclauses, clauses]

/-- What building gives after calls in any order. There is a problem if and only if each equation
fits among all names that are declared, no number of an equation is taken twice, and no clause holds
a zero or a variable that is too large. The problem has each name once, where it is declared first,
an atom for each equation and no other, and the clauses as they are; its variables are counted up
to the largest number. Otherwise the error is that of the first equation with a fault, or of the
first such clause if there is no such equation. How the three kinds of calls are mixed does not
matter, and neither does the order of equations that make a problem. -/
theorem build_ofCalls (calls : List Call) :
    ((∃ p, (ofCalls calls).build = .ok p) ↔
      (∀ e ∈ equated calls, e.Fits (declared calls)) ∧
        ((equated calls).map Equation.id).Nodup ∧
        ∀ ns ∈ added calls, 0 ∉ ns ∧ ∀ n ∈ ns, n.natAbs ≤ maxVariable) ∧
    (∀ p, (ofCalls calls).build = .ok p →
      p.MadeOf (declared calls).eraseDups (equated calls) (added calls) ∧
        p.numVars = ((equated calls).map (·.id.natAbs) ++
          (added calls).flatten.map Int.natAbs).max?.getD 0) ∧
    (∀ err, (ofCalls calls).build = .error err ↔
      (∃ e, FirstFault (Equation.fault (declared calls)) (equated calls) e ∧ err = .atom e) ∨
        Faultless (Equation.fault (declared calls)) (equated calls) ∧
          FirstFault Clause.fault (added calls) err) ∧
    (∀ calls', declared calls' = declared calls → equated calls' = equated calls →
      added calls' = added calls → (ofCalls calls').build = (ofCalls calls).build) ∧
    (∀ calls' p, declared calls' = declared calls → (equated calls').Perm (equated calls) →
      added calls' = added calls → (ofCalls calls).build = .ok p →
        (ofCalls calls').build = .ok p) := by
  refine ⟨?accepted, ?parts, fun err => build_ofCalls_eq_error_iff, ?mixed, ?permuted⟩
  case accepted =>
    rw [← Clause.faultless_iff, ← and_assoc, ← Equation.faultless_iff]
    constructor
    · intro ⟨p, built⟩
      obtain ⟨equations, clauses, -⟩ := build_ofCalls_eq_ok_iff.1 built
      exact ⟨equations, clauses⟩
    · intro ⟨equations, clauses⟩
      obtain ⟨hnames, hequations, hclauses⟩ := parts_ofCalls calls
      -- the draft has each name once, but its faults are those of all declarations
      rw [← fault_ofCalls, ← hequations] at equations
      rw [← hclauses] at clauses
      obtain ⟨p, built, -⟩ := build_of_faultless equations clauses
      exact ⟨p, built⟩
  case parts =>
    intro p built
    obtain ⟨-, -, made⟩ := build_ofCalls_eq_ok_iff.1 built
    exact ⟨made, made.numVars_eq⟩
  case mixed =>
    intro calls' names equations clauses
    rw [ofCalls_congr names equations clauses]
  case permuted =>
    intro calls' p names equations clauses built
    obtain ⟨fine, fineClauses, made⟩ := build_ofCalls_eq_ok_iff.1 built
    rw [build_ofCalls_eq_ok_iff, names, clauses, Equation.faultless_perm equations]
    exact ⟨fine, fineClauses, made.names, made.equations.trans equations.symm, made.clauses⟩

-- A name may be declared after the equation that mentions it.
example : (ofCalls [.equate 2 "b" "a", .addClause [-2, 3], .declareAll ["a", "b", "a"]]).build.map
    (fun p => (p.names, p.atoms.spelled p.names, p.numVars)) =
      .ok (["a", "b"], [⟨2, "b", "a"⟩], 3) := by rfl

-- The zero comes first among the calls, but the equations are judged before it. The name that is
-- not declared comes before the number that is taken.
example : (ofCalls [.addClause [0], .equate 1 "a" "a", .equate 1 "a" "b", .declare "a"]).build =
    .error (.atom (.unknownVariable 1 "b")) := by rfl

end Draft

end EqualityLogic
