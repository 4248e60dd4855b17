import EqualityLogic.Proofs.Guarded.Search
import EqualityLogic.Proofs.Integration.Correctness
import EqualityLogic.Proofs.Text.Problem

/-!
# Solving a text is safe

`solveText` with guards is never aborted: it gives what `solveText` gives (`solveText_eq`). The
sides of an atom are variables of the forest, since a table of atoms refuses others. What a
supervised search learns stands behind the clauses of the problem, so these can be counted off.

What is left are errors, and they are errors of the text (`solveText_safe`). Every strategy answers,
since the theory explains what it rejects. A draft can only be at fault for the number of its
equations: they are numbered in order and join names that their lines declare, and the DIMACS
reader has seen to the clauses.
-/

set_option autoImplicit false

namespace EqualityLogic

namespace Guarded

/-! ### The theory of equality -/

section

variable {n : Nat}

/-- Merges the two sides of every equation of an assignment, which must be indexes. -/
def mergeEquations (atoms : AtomTable n) (m : Assignment) (f : Forest n) : Option (Forest n) :=
  ((atoms.theoryLiterals m).filter fun p => !p.1.isNegated).foldlM
    (fun f p => f.merge? p.2.left p.2.right) f

/-- The atom of the last disequation that fails. The sides of disequations must be indexes too,
unless they are the same. -/
def conflict? (pairs : List (Literal × Atom n)) (classes : Forest n) (found : Option Nat) :
    Option (Option Nat) :=
  pairs.foldlM (fun found p => do
    if p.1.isNegated then
      return if ← classes.sameClass? p.2.left p.2.right then some p.2.id else found
    else return found) found

/-- Judges an assignment. -/
def check (t : EqualityTheory n) (m : Assignment) : Option (EqualityTheory n) := do
  let forest ← mergeEquations t.atoms m t.forest.reset
  let conflict ← conflict? (t.atoms.theoryLiterals m) forest none
  return { atoms := t.atoms, forest, last := some ⟨m, conflict⟩, checks := t.checks + 1 }

/-- Judges an assignment as an oracle does. -/
def judge (t : EqualityTheory n) (m : Assignment) : Option (Verdict × EqualityTheory n) := do
  let t ← check t m
  return (t.verdict, t)

/-- An index of a forest passes the check for indexes. The guarded functions look at numbers only,
and this is where the type of an index comes in. -/
theorem index?_val (i : Fin n) : Forest.index? n i = some i := dif_pos i.isLt

/-- Two indexes of a forest may be merged, and the checked merge is the plain one. -/
theorem merge?_val (f : Forest n) (a b : Fin n) : f.merge? a b = some (f.merge a b) := by
  unfold Forest.merge?
  rw [index?_val, index?_val]
  rfl

/-- Two indexes of a forest may be tested for one class, with the answer of the plain test. -/
theorem sameClass?_val (f : Forest n) (a b : Fin n) :
    f.sameClass? a b = some (f.sameClass a b) := by
  unfold Forest.sameClass?
  split
  · next same =>
    obtain rfl := Fin.ext same
    exact congrArg some (decide_eq_true rfl).symm
  · rw [index?_val, index?_val]
    rfl

/-- The equations of an assignment are merged without being aborted: the sides of an atom are
indexes of the forest, as the table of atoms and the forest have the same universe. -/
theorem mergeEquations_eq (atoms : AtomTable n) (m : Assignment) (f : Forest n) :
    mergeEquations atoms m f = some (atoms.mergeEquations m f) := by
  unfold mergeEquations
  simp only [merge?_val]
  exact List.foldlM_pure

/-- The last failing disequation is the one that is found last. The loop carries what it has found
so far, and that is left only if no disequation among `pairs` fails. -/
theorem conflict?_eq (pairs : List (Literal × Atom n)) (classes : Forest n) (found : Option Nat) :
    conflict? pairs classes found =
      some (((pairs.filter fun p =>
          p.1.isNegated && classes.sameClass p.2.left p.2.right).getLast?.map
        (·.2.id)).or found) := by
  induction pairs generalizing found with
  | nil => rfl
  | cons p pairs ih =>
      have first : conflict? (p :: pairs) classes found = conflict? pairs classes
          (if p.1.isNegated && classes.sameClass p.2.left p.2.right then some p.2.id
            else found) := by
        unfold conflict?
        rw [List.foldlM_cons, sameClass?_val]
        cases p.1.isNegated <;> rfl
      rw [first, ih, List.filter_cons]
      -- what the rest finds comes later and goes first
      split
      · rw [List.getLast?_cons]
        cases (pairs.filter _).getLast? <;> rfl
      · rfl

/-- A check is not aborted, whatever the assignment and whatever has happened before. -/
theorem check_eq (t : EqualityTheory n) (m : Assignment) : check t m = some (t.check m) := by
  unfold check
  rw [mergeEquations_eq]
  simp only [Option.bind_eq_bind, Option.bind_some, conflict?_eq, Option.or_none]
  rfl

/-- So neither is the check as an oracle makes it, which is what a guarded search asks of its
theory. -/
theorem judge_eq (t : EqualityTheory n) (m : Assignment) : judge t m = some (Theory.check t m) := by
  unfold judge
  rw [check_eq]
  rfl

/-! ### Lazy refinement -/

/-- The check of the theory that constrains nothing. -/
def checkEmpty (t : EmptyTheory) (m : Assignment) : Option (Verdict × EmptyTheory) :=
  some (Theory.check t m)

/-- The theory that constrains nothing checks without being aborted. -/
theorem checkEmpty_eq (t : EmptyTheory) (m : Assignment) :
    checkEmpty t m = some (Theory.check t m) := rfl

/-- The answer of a search of a formula alone. -/
def search (o : Search.Options) (f : Formula) (n : Nat) : Option (Except TheoryError Answer) := do
  return (← solveWith checkEmpty_eq o f n .mk .complete).answer

/-- The search of a formula alone is not aborted, and has the answer of the plain search. -/
theorem search_eq (o : Search.Options) (f : Formula) (n : Nat) :
    search o f n = some (Search.solve o f n) := by
  unfold search
  rw [solveWith_eq]
  rfl

/-- One round of a refinement. -/
def round (o : Search.Options) (limit : Option Nat) (numVars : Nat) (s : Refinement.State n Unit) :
    Option (Step (Refinement.State n Unit) (Except TheoryError Outcome × Unit)) := do
  match ← search o s.clauses numVars with
  | .error e => return .done (.error e, ())
  | .ok (.sat m) =>
    let s := { s with theory := ← check s.theory m }
    match s.theory.verdict with
    | .consistent => return s.finish (.sat m)
    | .inconsistent => return s.refine limit
    | .unknown => return s.finish .unknown
  | .ok a => return s.finish a

/-- A round is not aborted, and is the round of the plain refinement. Only its search and its check
have guards. -/
theorem round_eq (o : Search.Options) (limit : Option Nat) (numVars : Nat)
    (s : Refinement.State n Unit) :
    round o limit numVars s = some (Refinement.step (Refinement.engine o) limit numVars s) := by
  unfold round Refinement.step Refinement.engine
  simp only [search_eq, check_eq, Option.bind_eq_bind, Option.bind_some]
  cases Search.solve o s.clauses numVars with
  | error e => rfl
  | ok a =>
      cases a with
      | sat m =>
          dsimp only
          cases (s.theory.check m).verdict <;> rfl
      | unsat => rfl
      | unknown => rfl

/-- A guarded refinement makes no endless run, since the plain one makes none and no round of it is
aborted. -/
theorem acc_round (o : Search.Options) (limit : Option Nat) (p : Problem) :
    Acc (Process.Follows (Process.guarded (round o limit p.numVars))) (Refinement.start p ()) :=
  Process.acc_guarded (P := fun _ => True) (fun _ _ _ _ => trivial)
    (fun s _ => round_eq o limit p.numVars s) trivial
    (Refinement.acc_start (Refinement.sound_engine o) limit p ())

/-- The outcome of lazy refinement. -/
def refine (p : Problem) (s : Settings) : Option (Except TheoryError Outcome) :=
  Prod.fst <$> Process.run (Process.guarded (round s.toOptions s.refinementLimit p.numVars))
    (Refinement.start p ()) (acc_round s.toOptions s.refinementLimit p)

/-- Lazy refinement is not aborted. Its rounds end, and each of them is the round of the plain
refinement. -/
theorem refine_eq (p : Problem) (s : Settings) : refine p s = some (p.refine s) := by
  have ends := Process.ends_guarded (P := fun _ => True) (fun _ _ _ _ => trivial)
    (fun t _ => round_eq s.toOptions s.refinementLimit p.numVars t) trivial (p.ends_refine s)
  unfold refine
  rw [(Process.ends_run _ (acc_round s.toOptions s.refinementLimit p)).unique ends]
  rfl

/-! ### Supervised search -/

/-- The difference of two numbers, the second of which must not be larger than the first. -/
def difference (a b : Nat) : Option Nat := if b ≤ a then some (a - b) else none

/-- The outcome of a search that the theory supervises. -/
def supervise (p : Problem) (s : Settings) (oversight : Oversight) :
    Option (Except TheoryError Outcome) := do
  let r ← solveWith judge_eq s.toOptions p.formula p.numVars p.theory oversight
  match r.answer with
  | .error e => return .error e
  | .ok a =>
    let lemmas ← difference r.clauses.length p.formula.length
    return .ok ⟨a, r.clauses, lemmas, r.theory.checks⟩

/-- The learned clauses may be counted off, since a search keeps the clauses of the problem in front
of them. So supervised search is not aborted either. -/
theorem supervise_eq (p : Problem) (s : Settings) (oversight : Oversight) :
    supervise p s oversight = some (p.supervise s oversight) := by
  have ends := Search.ends_solveWith s.toOptions p.formula p.numVars p.theory oversight
  have kept := (Search.prefix_of_ends ends).length_le
  unfold supervise
  rw [solveWith_eq, Problem.supervise_eq]
  -- learned clauses are put behind the given ones, so there are not fewer than before
  simp only [difference, kept, if_true, Option.bind_eq_bind, Option.bind_some]
  cases (Search.solveWith s.toOptions p.formula p.numVars p.theory oversight).answer <;> rfl

end

/-! ### Solving -/

/-- The outcome with a given strategy. -/
def solveBy (p : Problem) (s : Settings) : Strategy → Option (Except TheoryError Outcome)
  | .lazy => refine p s
  | .callback => supervise p s .complete
  | .propagation => supervise p s .partialAssignments

/-- No strategy is aborted, and each has the outcome of the plain one, errors included. -/
theorem solveBy_eq (p : Problem) (s : Settings) (strategy : Strategy) :
    solveBy p s strategy = some (p.solveBy s strategy) := by
  cases strategy with
  | lazy => exact refine_eq p s
  | callback => exact supervise_eq p s .complete
  | propagation => exact supervise_eq p s .partialAssignments

/-- Reads a problem and solves it. -/
def solveText (text : String) (s : Settings) : Option (Except SolveError (Problem × Outcome)) := do
  match ← ofString text with
  | .error e => return .error (.text e)
  | .ok p =>
    match ← solveBy p s s.strategy with
    | .error e => return .error (.theory e)
    | .ok out => return .ok (p, out)

/-- Solving a text is not aborted, as an equation of options: it says at once that there is a
result, and which one it is. -/
theorem solveText_eq (text : String) (s : Settings) :
    solveText text s = some (EqualityLogic.solveText text s) := by
  unfold solveText EqualityLogic.solveText Problem.solve
  simp only [ofString_eq, solveBy_eq, Option.bind_eq_bind, Option.bind_some]
  cases Problem.ofString text with
  | error e => rfl
  | ok p =>
      dsimp only
      cases p.solveBy s s.strategy <;> rfl

end Guarded

namespace Problem

open HeaderLine (Says Fault SaysAll pair?)

/-- Nothing is at fault with the lines of a header and those of the formula after it, but there are
more equations than variables that input may name. -/
def TooMany (lines : List String) : Prop :=
  ∃ header last body xs f, lines = header ++ last :: body ∧ SaysAll header xs ∧
    Says (Text.trim last.toList) .separator ∧ Dimacs.ofLines body = .ok f ∧
    maxVariable < (xs.filterMap pair?).length

/-- No line alone is at fault for how the parts fit together, so such an error comes after the last
line has been read. -/
theorem not_fault_draft {line : Nat} {cs : List Char} {e : DraftError} :
    ¬ Fault line cs (.draft e) := nofun

/-- Parts that do not fit together are too many equations. Atoms are numbered in order, so the
number that is out of range is the first one beyond the largest variable; all else that a draft
could be refused for is ruled out by the readers. -/
theorem ofString_eq_draft_iff {text : String} {e : DraftError} :
    ofString text = .error (.draft e) ↔
      e = .atom (.invalidId (maxVariable + 1 : Nat)) ∧ TooMany (Text.lines text) := by
  constructor
  · intro h
    have written := written_ofString text
    rw [h] at written
    cases written with
    | fault _ _ fault => exact absurd fault not_fault_draft
    | tooMany split all ended formula many =>
        exact ⟨rfl, _, _, _, _, _, split, all, ended, formula, many⟩
  · rintro ⟨rfl, header, last, body, xs, f, split, all, ended, formula, many⟩
    exact (Written.tooMany split all ended formula many).ofString_eq

/-- The variables of a problem that is read are in range: the reader of the formula and the table of
atoms each see to their own. -/
theorem numVars_le_of_ofString {text : String} {p : Problem} (h : ofString text = .ok p) :
    p.numVars ≤ maxVariable := by
  have written := written_ofString text
  rw [h] at written
  cases written with
  | problem _ _ _ formula =>
      refine numVars_le_iff.2 ⟨?_, inRange_of_ofLines formula⟩
      intro a ha
      exact (p.atoms.inRange a ha).2

end Problem

/-- Solving a text is not aborted, whatever the text and the settings. It gives an outcome of a
problem whose variables are in range, or an error of the text. The parts of a problem are at fault
just if there are too many equations, and then the first one too many is named.

The error of a theory does not occur among the results, since the theory of equality explains what
it rejects. -/
theorem solveText_safe (text : String) (s : Settings) :
    Guarded.solveText text s = some (solveText text s) ∧
    ((∃ e, solveText text s = .error (.text e)) ∨
      ∃ p out, solveText text s = .ok (p, out) ∧ p.numVars ≤ maxVariable) ∧
    ∀ e, solveText text s = .error (.text (.draft e)) ↔
      e = .atom (.invalidId (maxVariable + 1 : Nat)) ∧ Problem.TooMany (Text.lines text) := by
  refine ⟨Guarded.solveText_eq text s, ?_, fun e => ?_⟩
  · unfold solveText
    cases read : Problem.ofString text with
    | error e => exact .inl ⟨e, rfl⟩
    | ok p =>
        -- a problem that has been read is answered, so no error of a theory is left
        obtain ⟨out, solved, -⟩ := p.exists_outcome s s.strategy
        have solved : p.solve s = .ok out := solved
        simp only [solved]
        exact .inr ⟨p, out, rfl, Problem.numVars_le_of_ofString read⟩
  · rw [← Problem.ofString_eq_draft_iff]
    unfold solveText
    cases Problem.ofString text with
    | error e' => simp
    | ok p =>
        obtain ⟨out, solved, -⟩ := p.exists_outcome s s.strategy
        have solved : p.solve s = .ok out := solved
        simp [solved]

end EqualityLogic
