import EqualityLogic.Problem.Text
import EqualityLogic.Proofs.Cnf.Numbers
import EqualityLogic.Proofs.Text.Dimacs

/-!
# Reading with guards

Some operations of a solver have no result for some arguments: no literal has the number zero, no
table has a slot for every variable. A program that carries out such an operation all the same is
aborted. Here the types keep these arguments out, so nothing can be seen of the reasons why they
never come up.

A guarded function does the work of the function it is named after with plain numbers instead. It
makes literals only when they are needed, and has the result `none` where the program would be
aborted. Reading is never aborted: a guarded reader gives what the plain one gives
(`ofString_eq`). A reader of the DIMACS format ends a clause at a zero and so puts none in
(`readBody_eq`), and a draft looks for zeros before it makes a clause (`draftClause_eq`).
-/

set_option autoImplicit false

namespace EqualityLogic.Guarded

/-! ### Literals -/

/-- The literal with a given number, which must not be zero. -/
def literal (n : Int) : Option Literal := if h : n = 0 then none else some ⟨n, h⟩

/-- The clause with the given numbers. -/
def clause (ns : List Int) : Option Clause := ns.mapM literal

/-- The number of a literal makes that literal again, as it is not zero. -/
theorem literal_number (l : Literal) : literal l.number = some l := dif_neg l.number_ne_zero

/-- The numbers of literals make up their clause again, in the same order. -/
theorem clause_toNumbers (c : Clause) : clause c.toNumbers = some c := by
  induction c with
  | nil => rfl
  | cons l c ih =>
      show (l.number :: Clause.toNumbers c).mapM literal = _
      rw [List.mapM_cons, literal_number]
      show (do return l :: (← clause (Clause.toNumbers c))) = _
      rw [ih]
      rfl

/-! ### The DIMACS format -/

/-- What has been read of a body, with the clause under way as numbers. -/
structure Body where
  /-- The finished clauses. -/
  clauses : Formula := []
  /-- The clause under way. -/
  clause : List Int := []
  /-- The largest variable. -/
  largest : Nat := 0

/-- Reads words up to the end of clause number `wanted`, and makes each clause at its end. -/
def readBody (wanted : Nat) (b : Body) :
    List (String × String) → Option (Except Dimacs.Error Body)
  | [] => some (.ok b)
  | (word, line) :: rest =>
    match Text.integer? word with
    | none => some (.error (.badClauseLine line))
    | some n =>
      if n = 0 then do
        let c ← clause b.clause
        let b := { b with clauses := b.clauses ++ [c], clause := [] }
        if b.clauses.length = wanted then some (.ok b) else readBody wanted b rest
      else if maxVariable < n.natAbs then some (.error (.variableOutOfRange word))
      else
        let b := { b with clause := b.clause ++ [n], largest := max b.largest n.natAbs }
        readBody wanted b rest

/-- What has been read, without the literals of the clause under way. -/
def Body.plain (b : Dimacs.Body) : Body := ⟨b.clauses, b.clause.toNumbers, b.largest⟩

/-- A clause is never made from a zero, since a zero ends it. The guarded reader is started with the
numbers of a clause under way, and the induction is on the words to come. -/
theorem readBody_eq (wanted : Nat) (b : Dimacs.Body) (words : List (String × String)) :
    readBody wanted (.plain b) words =
      some ((Dimacs.readBody wanted b words).map Body.plain) := by
  -- the clause under way is made of literals already, so its numbers make a clause at each zero
  fun_induction Dimacs.readBody wanted b words with
  | case1 b => rfl
  | case2 b word line rest unread =>
      rw [readBody, unread]
      rfl
  | case3 b word line rest b' finished read =>
      simp only [readBody, read, if_true, Body.plain, clause_toNumbers, Option.bind_eq_bind,
        Option.bind_some]
      exact if_pos finished
  | case4 b word line rest b' unfinished read ih =>
      simp only [readBody, read, if_true, Body.plain, clause_toNumbers, Option.bind_eq_bind,
        Option.bind_some]
      exact (if_neg unfinished).trans ih
  | case5 b word line rest n read nonzero tooLarge =>
      simp only [readBody, read, nonzero, tooLarge, if_true, if_false]
      rfl
  | case6 b word line rest n read nonzero small b' ih =>
      have appended : Body.plain b' =
          { Body.plain b with
            clause := b.clause.toNumbers ++ [n], largest := max b.largest n.natAbs } := by
        simp [Body.plain, b', Clause.toNumbers]
      rw [appended] at ih
      simp only [readBody, read, nonzero, small, if_false]
      exact ih

/-- Reads the body that a header announces. -/
def readAll (h : Dimacs.Header) (body : List String) : Option (Except Dimacs.Error Body) :=
  if h.clauseCount = 0 then some (.ok {})
  else readBody h.clauseCount {} (Dimacs.wordsWithLines body)

/-- The formula that lines in DIMACS format write. A clause that is still under way at the end is
never made. -/
def ofLines (lines : List String) : Option (Except Dimacs.Error Formula) :=
  match Dimacs.header lines with
  | .error e => some (.error e)
  | .ok (h, body) => do
    let read ← readAll h body
    return read.bind fun b => Dimacs.Body.judge h { clauses := b.clauses, largest := b.largest }

/-- The lines of a formula are read without being aborted, and with the result of the plain reader.
A clause that is left under way is not made, so its numbers do not matter. -/
theorem ofLines_eq (lines : List String) : ofLines lines = some (Dimacs.ofLines lines) := by
  rw [ofLines, Dimacs.ofLines_eq]
  cases Dimacs.header lines with
  | error e => rfl
  | ok r =>
      obtain ⟨h, rest⟩ := r
      have read : readAll h rest = some ((Dimacs.readAll h rest).map Body.plain) := by
        unfold readAll Dimacs.readAll
        split
        · rfl
        · exact readBody_eq h.clauseCount {} _
      simp only [read, Option.bind_eq_bind, Option.bind_some]
      -- the numbers of a clause that is left under way are dropped, and so are its literals
      show some _ = some ((Dimacs.readAll h rest).bind (Dimacs.Body.judge h))
      cases Dimacs.readAll h rest <;> rfl

/-! ### Problems -/

/-- The clause number `i` of a draft, which is made after it has been judged. -/
def draftClause (i : Nat) (ns : List Int) : Option (Except DraftError Clause) :=
  if 0 ∈ ns then some (.error (.zeroLiteral i))
  else
    match ns.find? fun n => maxVariable < n.natAbs with
    | some n => some (.error (.literalOutOfRange i n))
    | none => (clause ns).map .ok

/-- A clause that has been judged holds no zero: the judgement looks for zeros first, and comes
before the literals are made. -/
theorem draftClause_eq (i : Nat) (ns : List Int) :
    draftClause i ns = some (Draft.clause i ns) := by
  unfold draftClause Draft.clause
  split
  · next zero => rw [Clause.ofNumbers_of_zero_mem zero]
  · next nonzero =>
    obtain ⟨c, rfl⟩ := Clause.exists_toNumbers nonzero
    rw [Clause.ofNumbers_toNumbers, clause_toNumbers]
    dsimp only
    cases (Clause.toNumbers c).find? fun n => maxVariable < n.natAbs <;> rfl

/-- The clauses of a draft from number `i` on. -/
def formulaFrom (i : Nat) : List (List Int) → Option (Except DraftError Formula)
  | [] => some (.ok [])
  | ns :: rest => do
    match ← draftClause i ns with
    | .error e => return .error e
    | .ok c => return (← formulaFrom (i + 1) rest).map (c :: ·)

/-- The clauses of a draft are made without being aborted, each after its own judgement. The clauses
after a fault are not made at all. -/
theorem formulaFrom_eq (i : Nat) (clauses : List (List Int)) :
    formulaFrom i clauses = some (Draft.formulaFrom i clauses) := by
  induction clauses generalizing i with
  | nil => rfl
  | cons ns rest ih =>
      rw [formulaFrom, Draft.formulaFrom, draftClause_eq, ih]
      cases Draft.clause i ns with
      | error e => rfl
      | ok c => cases Draft.formulaFrom (i + 1) rest <;> rfl

/-- The problem that a draft makes. -/
def build (d : Draft) : Option (Except DraftError Problem) :=
  match d.table with
  | .error e => some (.error (.atom e))
  | .ok atoms => do
    match ← formulaFrom 0 d.clauses with
    | .error e => return .error e
    | .ok formula => return .ok { names := d.names, atoms, formula, distinct := d.distinct }

/-- A problem is built from its draft without being aborted, with the result of the plain function.
-/
theorem build_eq (d : Draft) : build d = some d.build := by
  unfold build Draft.build
  rw [formulaFrom_eq]
  cases d.table with
  | error e => rfl
  | ok atoms => cases Draft.formulaFrom 0 d.clauses <;> rfl

/-- The problem that a text writes. -/
def ofString (text : String) : Option (Except ProblemTextError Problem) :=
  match Problem.readHeader 1 .empty (Text.lines text) with
  | .error e => some (.error e)
  | .ok (d, rest) => do
    match ← ofLines rest with
    | .error e => return .error (.dimacs e)
    | .ok f => return (← build (d.addClauses f.toNumbers)).mapError .draft

/-- Reading a problem is never aborted, whatever the text is, and gives the problem or the error of
the plain reader. -/
theorem ofString_eq (text : String) : ofString text = some (Problem.ofString text) := by
  unfold ofString Problem.ofString
  cases Problem.readHeader 1 .empty (Text.lines text) with
  | error e => rfl
  | ok r =>
      obtain ⟨d, rest⟩ := r
      simp only [ofLines_eq, build_eq, Option.bind_eq_bind, Option.bind_some]
      cases Dimacs.ofLines rest <;> rfl

end EqualityLogic.Guarded
