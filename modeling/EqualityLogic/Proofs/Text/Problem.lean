import EqualityLogic.Proofs.Problem.Calls
import EqualityLogic.Proofs.Text.Dimacs
import EqualityLogic.Proofs.Text.Draft
import EqualityLogic.Proofs.Text.Header
import Mathlib.Data.List.Forall2

/-!
# The text of a problem, exactly

`Problem.Written` says what the lines of a text come to, without reading them: a problem, with its
names in the order of their first mention and its atoms in the order of the equations, or the first
fault. `Problem.ofString_eq_iff` shows that this is what reading gives.

The lines of the header say something one by one, up to the separator (`SaysAll`). A draft takes up
what they say (`Draft.take`), and what it has become in the end is a matter of the names mentioned
and of the equations (`holds_foldl`). The rest is done by the formula in DIMACS format and by
building the problem, where only the number of equations can be at fault.
-/

set_option autoImplicit false

namespace EqualityLogic

namespace HeaderLine

/-- The names that a line mentions. -/
def mentions : HeaderLine → List String
  | .blank => []
  | .separator => []
  | .names ns => ns
  | .equation left right => [left, right]

/-- The equation of a line. -/
def pair? : HeaderLine → Option (String × String)
  | .equation left right => some (left, right)
  | _ => none

/-- Lines of a header with what they say, none of which is the separator. -/
def SaysAll (header : List String) (xs : List HeaderLine) : Prop :=
  List.Forall₂ (fun text x => Says (Text.trim text.toList) x ∧ x ≠ .separator) header xs

end HeaderLine

open HeaderLine (Says Fault SaysAll mentions pair?)

namespace Draft

/-- Takes up what a line says. -/
def take (d : Draft) : HeaderLine → Draft
  | .blank => d
  | .separator => d
  | .names ns => d.declareAll ns
  | .equation left right =>
    ((d.declare left).declare right).equate (d.equations.length + 1 : Nat) left right

/-- A draft that has taken up some lines. -/
structure Holds (d : Draft) (xs : List HeaderLine) : Prop where
  names : d.names = (xs.flatMap mentions).eraseDups
  equations : d.equations = numbered 0 (xs.filterMap pair?)
  clauses : d.clauses = []

/-- A draft without parts has taken up no lines. -/
theorem holds_empty : empty.Holds [] := ⟨rfl, rfl, rfl⟩

/-- A line that mentions nothing adds nothing. -/
theorem Holds.append_silent {d : Draft} {xs : List HeaderLine} (h : d.Holds xs) {x : HeaderLine}
    (noName : x.mentions = []) (noPair : x.pair? = none) : d.Holds (xs ++ [x]) where
  names := by simpa [noName] using h.names
  equations := by
    rw [List.filterMap_append, List.filterMap_cons_none noPair, List.filterMap_nil, List.append_nil]
    exact h.equations
  clauses := h.clauses

/-- Taking up a line adds what it mentions and its equation, under the number that comes next. The
cases are the kinds of lines. -/
theorem Holds.take {d : Draft} {xs : List HeaderLine} (h : d.Holds xs) (x : HeaderLine) :
    (d.take x).Holds (xs ++ [x]) := by
  have mentioned : (xs ++ [x]).flatMap mentions = xs.flatMap mentions ++ x.mentions := by simp
  have paired : (xs ++ [x]).filterMap pair? = xs.filterMap pair? ++ x.pair?.toList := by
    cases hx : x.pair? <;> simp [hx]
  cases x with
  | blank => exact h.append_silent rfl rfl
  | separator => exact h.append_silent rfl rfl
  | names ns =>
      obtain ⟨equations, clauses⟩ := d.equations_declareAll ns
      refine ⟨?_, ?_, clauses.trans h.clauses⟩
      · rw [mentioned]
        exact names_declareAll h.names ns
      · rw [paired]
        exact (equations.trans h.equations).trans (congrArg _ (List.append_nil _).symm)
  | equation left right =>
      obtain ⟨equations, clauses⟩ := d.equations_declareAll [left, right]
      refine ⟨?_, ?_, clauses.trans h.clauses⟩
      · rw [mentioned]
        exact names_declareAll h.names [left, right]
      · -- the number of an equation is that of those before it, plus one
        have number : d.equations.length = 0 + (xs.filterMap pair?).length := by
          rw [h.equations, length_numbered, Nat.zero_add]
        rw [paired, numbered_append, ← h.equations, ← number]
        exact congrArg (· ++ [_]) equations

/-- A draft that has taken up lines in turn holds what all of them say, by induction on the lines
with the last one taken off. -/
theorem holds_foldl (xs : List HeaderLine) : (xs.foldl take empty).Holds xs := by
  -- stated for any draft to start from, since the lines are taken up one after the other
  have more : ∀ (ys : List HeaderLine) {d xs}, Holds d xs → (ys.foldl take d).Holds (xs ++ ys) := by
    intro ys
    induction ys with
    | nil =>
        intro d xs h
        rw [List.append_nil]
        exact h
    | cons y ys ih =>
        intro d xs h
        have := ih (h.take y)
        rwa [List.append_assoc] at this
  exact more xs holds_empty

/-- The names of the equations are declared, since an equation declares both of its names. -/
theorem Holds.declared {d : Draft} {xs : List HeaderLine} (h : d.Holds xs) :
    ∀ p ∈ xs.filterMap pair?, p.1 ∈ d.names ∧ p.2 ∈ d.names := by
  intro p hp
  obtain ⟨x, hx, e⟩ := List.mem_filterMap.1 hp
  have listed : ∀ name ∈ x.mentions, name ∈ d.names := fun name hn => by
    rw [h.names, List.mem_eraseDups]
    exact List.mem_flatMap.2 ⟨x, hx, hn⟩
  cases x with
  | equation left right =>
      cases e
      exact ⟨listed _ (by simp [mentions]), listed _ (by simp [mentions])⟩
  | blank => cases e
  | separator => cases e
  | names => cases e

/-- Such a draft with a formula makes a problem unless it has too many equations. All other faults
are ruled out: names are declared where they are used, numbers are given in order, and the formula
has been read. -/
theorem Holds.build {d : Draft} {xs : List HeaderLine} (h : d.Holds xs) {f : Formula}
    (inRange : ∀ c ∈ f, ∀ l ∈ c, l.var ≤ maxVariable) :
    if (xs.filterMap pair?).length ≤ maxVariable then
      ∃ p, (d.addClauses f.toNumbers).build = .ok p ∧
        p.names = (xs.flatMap mentions).eraseDups ∧
        p.atoms.spelled p.names = numbered 0 (xs.filterMap pair?) ∧ p.formula = f
    else (d.addClauses f.toNumbers).build =
      .error (.atom (.invalidId (maxVariable + 1 : Nat))) := by
  have clauses : (d.addClauses f.toNumbers).clauses = f.toNumbers := by
    show d.clauses ++ f.toNumbers = _
    rw [h.clauses, List.nil_append]
  have equations : (d.addClauses f.toNumbers).equations = numbered 0 (xs.filterMap pair?) :=
    h.equations
  split
  · next few =>
    have fine := faultless_numbered h.declared few
    rw [← equations] at fine
    have fineClauses : Faultless Clause.fault (d.addClauses f.toNumbers).clauses := by
      rw [clauses]
      exact Clause.faultless_toNumbers inRange
    obtain ⟨p, ok, made⟩ := build_of_faultless (d := d.addClauses f.toNumbers) fine fineClauses
    refine ⟨p, ok, made.names.trans h.names, ?_, ?_⟩
    · -- the table lists the equations by number, and that is their order
      exact Equation.eq_of_perm (equations ▸ made.equations) p.atoms.ascending_spelled
        (ascending_numbered 0 _)
    · exact Formula.toNumbers_inj (made.clauses.trans clauses)
  · next many =>
    have wrong := firstFault_numbered h.declared (Nat.lt_of_not_le many)
    rw [← equations] at wrong
    exact build_of_equation wrong

end Draft

/-! ### The header -/

namespace HeaderLine

/-- The lines up to the first that is the separator or says nothing. Every text is split there, so
the cases of `Written` cover all texts. -/
theorem exists_saysAll (lines : List String) :
    ∃ header xs rest, lines = header ++ rest ∧ SaysAll header xs ∧
      ∀ text more, rest = text :: more → ∀ x, Says (Text.trim text.toList) x → x = .separator := by
  induction lines with
  | nil => exact ⟨[], [], [], rfl, .nil, nofun⟩
  | cons text lines ih =>
      by_cases goesOn : ∃ x, Says (Text.trim text.toList) x ∧ x ≠ .separator
      · obtain ⟨x, h⟩ := goesOn
        obtain ⟨header, xs, rest, rfl, all, last⟩ := ih
        exact ⟨text :: header, x :: xs, rest, rfl, .cons h all, last⟩
      · refine ⟨[], [], text :: lines, rfl, .nil, ?_⟩
        intro text' more e x h
        cases e
        by_contra other
        -- a line that says something else would have been taken up
        exact goesOn ⟨x, h, other⟩

end HeaderLine

namespace Problem

/-- The lines of a header are taken up one by one, and counted on the way. The count is what an
error shows of the line. -/
theorem readHeader_append {header : List String} {xs : List HeaderLine} (all : SaysAll header xs)
    (line : Nat) (d : Draft) (rest : List String) :
    readHeader line d (header ++ rest) =
      readHeader (line + header.length) (xs.foldl Draft.take d) rest := by
  induction all generalizing line d with
  | nil => rfl
  | @cons text x header xs h _ ih =>
      obtain ⟨h, other⟩ := h
      -- one line is taken up and counted; only a separator would end the header
      have one : readHeader line d (text :: (header ++ rest)) =
          readHeader (line + 1) (d.take x) (header ++ rest) := by
        rw [readHeader, HeaderLine.read_eq_ok_iff.2 h]
        cases x with
        | separator => exact absurd rfl other
        | _ => rfl
      rw [List.cons_append, one, ih, List.length_cons, List.foldl_cons, Nat.add_assoc,
        Nat.add_comm 1]

/-! ### The text -/

/-- What the lines of a text come to. -/
inductive Written (lines : List String) : Except ProblemTextError Problem → Prop
  /-- A line of the header is at fault, and none before it. -/
  | fault {header more : List String} {text : String} {xs : List HeaderLine} {e : ProblemTextError}
      (split : lines = header ++ text :: more) (all : SaysAll header xs)
      (fault : Fault (header.length + 1) (Text.trim text.toList) e) : Written lines (.error e)
  /-- No line is at fault, and none is the separator. -/
  | unseparated {xs : List HeaderLine} (all : SaysAll lines xs) :
      Written lines (.error .missingSeparator)
  /-- The formula is at fault. -/
  | dimacs {header body : List String} {text : String} {xs : List HeaderLine} {e : Dimacs.Error}
      (split : lines = header ++ text :: body) (all : SaysAll header xs)
      (ended : Says (Text.trim text.toList) .separator)
      (formula : Dimacs.ofLines body = .error e) : Written lines (.error (.dimacs e))
  /-- There are more equations than variables that input may name. -/
  | tooMany {header body : List String} {text : String} {xs : List HeaderLine} {f : Formula}
      (split : lines = header ++ text :: body) (all : SaysAll header xs)
      (ended : Says (Text.trim text.toList) .separator) (formula : Dimacs.ofLines body = .ok f)
      (many : maxVariable < (xs.filterMap pair?).length) :
      Written lines (.error (.draft (.atom (.invalidId (maxVariable + 1 : Nat)))))
  /-- Nothing is at fault. -/
  | problem {header body : List String} {text : String} {xs : List HeaderLine} {p : Problem}
      (split : lines = header ++ text :: body) (all : SaysAll header xs)
      (ended : Says (Text.trim text.toList) .separator)
      (formula : Dimacs.ofLines body = .ok p.formula)
      (few : (xs.filterMap pair?).length ≤ maxVariable)
      (names : p.names = (xs.flatMap mentions).eraseDups)
      (atoms : p.atoms.spelled p.names = Draft.numbered 0 (xs.filterMap pair?)) :
      Written lines (.ok p)

section

variable {text : String} {header body : List String} {last : String} {xs : List HeaderLine}

/-- After the separator the formula is read, and then the problem is built. So a fault of the
formula is reported before one of the equations. -/
theorem ofString_of_separator (split : Text.lines text = header ++ last :: body)
    (all : SaysAll header xs) (ended : Says (Text.trim last.toList) .separator) :
    ofString text = match Dimacs.ofLines body with
      | .error e => .error (.dimacs e)
      | .ok f => ((xs.foldl Draft.take .empty).addClauses f.toNumbers).build.mapError .draft := by
  have read : readHeader 1 .empty (Text.lines text) = .ok (xs.foldl Draft.take .empty, body) := by
    rw [split, readHeader_append all]
    simp only [readHeader, HeaderLine.read_eq_ok_iff.2 ended]
  unfold ofString
  exact read ▸ rfl

/-- The variables of a formula in DIMACS format are in range, whatever count the text announces. -/
theorem inRange_of_ofLines {f : Formula} (formula : Dimacs.ofLines body = .ok f) :
    ∀ c ∈ f, ∀ l ∈ c, l.var ≤ maxVariable := by
  obtain ⟨_, _, -, -, _, _, -, -, bound⟩ := Dimacs.ofLines_eq_ok_iff.1 formula
  exact fun c hc l hl => Nat.le_trans (bound c hc l hl) (Nat.min_le_right ..)

/-- Reading gives what the lines come to. The lines are split at the first one that ends the header,
and the cases are what that line is and what comes of the rest. -/
theorem written_ofString (text : String) : Written (Text.lines text) (ofString text) := by
  -- reading goes on to the first line that is the separator or says nothing
  obtain ⟨header, xs, rest, split, all, stop⟩ := HeaderLine.exists_saysAll (Text.lines text)
  cases rest with
  | nil =>
      rw [List.append_nil] at split
      have missing : ofString text = .error .missingSeparator := by
        unfold ofString
        rw [split, ← List.append_nil header, readHeader_append all]
        rfl
      rw [missing, split]
      exact .unseparated all
  | cons last body =>
      cases hread : HeaderLine.read (header.length + 1) last with
      | error e =>
          have refused : ofString text = .error e := by
            unfold ofString
            rw [split, readHeader_append all, readHeader, Nat.add_comm, hread]
          rw [refused]
          exact .fault split all (HeaderLine.read_eq_error_iff.1 hread)
      | ok x =>
          have ended := HeaderLine.read_eq_ok_iff.1 hread
          obtain rfl := stop last body rfl x ended
          rw [ofString_of_separator split all ended]
          cases hformula : Dimacs.ofLines body with
          | error e => exact .dimacs split all ended hformula
          | ok f =>
              have built := (Draft.holds_foldl xs).build (inRange_of_ofLines hformula)
              split at built
              · next few =>
                obtain ⟨p, ok, names, atoms, rfl⟩ := built
                simp only [ok]
                exact .problem split all ended hformula few names atoms
              · next many =>
                simp only [built]
                exact .tooMany split all ended hformula (Nat.lt_of_not_le many)

/-- What the lines come to is read. With the above, the lines come to one thing only. -/
theorem Written.ofString_eq {r : Except ProblemTextError Problem}
    (h : Written (Text.lines text) r) : ofString text = r := by
  cases h with
  | fault split all fault =>
      unfold ofString
      rw [split, readHeader_append all, readHeader, Nat.add_comm,
        HeaderLine.read_eq_error_iff.2 fault]
  | unseparated all =>
      unfold ofString
      rw [← List.append_nil (Text.lines text), readHeader_append all]
      rfl
  | dimacs split all ended formula =>
      rw [ofString_of_separator split all ended, formula]
  | @tooMany _ _ _ xs _ split all ended formula many =>
      have built := (Draft.holds_foldl xs).build (inRange_of_ofLines formula)
      rw [if_neg (Nat.not_le.2 many)] at built
      rw [ofString_of_separator split all ended, formula]
      simp only [built]
      rfl
  | @problem _ _ _ xs p split all ended formula few names atoms =>
      have built := (Draft.holds_foldl xs).build (inRange_of_ofLines formula)
      rw [if_pos few] at built
      obtain ⟨q, ok, names', atoms', formula'⟩ := built
      rw [ofString_of_separator split all ended, formula]
      simp only [ok]
      -- names, equations and formula leave no choice of the problem
      have same : q = p :=
        eq_of_spelled (names'.trans names.symm) (.of_eq (atoms'.trans atoms.symm)) formula'
      rw [same]
      rfl

end

/-- A text is a problem, or is refused, for what its lines come to and for nothing else. Both sides
speak of all results at once, the texts and numbers of errors included. -/
theorem ofString_eq_iff (text : String) (r : Except ProblemTextError Problem) :
    ofString text = r ↔ Written (Text.lines text) r := by
  constructor
  · rintro rfl
    exact written_ofString text
  · exact Written.ofString_eq

end Problem

end EqualityLogic
