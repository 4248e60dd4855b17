import EqualityLogic.CommandLine
import EqualityLogic.Proofs.Integration.Propositional
import EqualityLogic.Proofs.Text.Problem

/-!
# Formulas on the command line

A formula without a theory can be given to the program in two ways: as it is, or as a problem whose
header is empty. The two ways have little in common but the reader of the DIMACS format. One goes to
the search at once, the other through a problem and a strategy. Still both print the same and exit
with the same code (`run_plain`), since a problem without atoms has the answer of its formula alone
(`Problem.solveBy_of_no_atoms`) and no names to print classes of.
-/

set_option autoImplicit false

namespace EqualityLogic

/-- A text behind a separator: a problem whose header has no lines. -/
def Text.withSeparator (text : String) : String := "--\n" ++ text

/-- The lines of a text behind a separator are the separator and those of the text. The separator
ends in a line feed, so the first line of the text stays as it is. -/
theorem Text.lines_withSeparator (text : String) :
    Text.lines (Text.withSeparator text) = "--" :: Text.lines text := by
  simp [Text.lines, Text.withSeparator, Text.linesOf]

namespace Problem

/-- With nothing before the separator, a problem is its formula. It has no names and no atoms, and
its text is refused just as that of the formula is, with the same error. -/
theorem ofString_withSeparator (text : String) :
    match Dimacs.ofString text with
    | .error e => ofString (Text.withSeparator text) = .error (.dimacs e)
    | .ok f => ∃ p, ofString (Text.withSeparator text) = .ok p ∧
        p.names = [] ∧ p.atoms.atoms = [] ∧ p.formula = f := by
  have trimmed : Text.trim "--".toList = ['-', '-'] := by decide
  have ended : HeaderLine.Says (Text.trim "--".toList) .separator := trimmed ▸ .separator
  have split : Text.lines (Text.withSeparator text) = [] ++ "--" :: Text.lines text :=
    Text.lines_withSeparator text
  have read := ofString_of_separator split .nil ended
  unfold Dimacs.ofString
  rw [read]
  cases formula : Dimacs.ofLines (Text.lines text) with
  | error e => rfl
  | ok f =>
      have built := (Draft.holds_foldl []).build (inRange_of_ofLines formula)
      have few : (([] : List HeaderLine).filterMap HeaderLine.pair?).length ≤ maxVariable :=
        Nat.zero_le _
      rw [if_pos few] at built
      obtain ⟨p, ok, names, atoms, formula⟩ := built
      refine ⟨p, ?_, names, List.map_eq_nil_iff.1 atoms, formula⟩
      simp only [ok]
      rfl

/-- Without names there are no classes, so a report that is asked for them has nothing to add. -/
theorem describe_of_no_names {p : Problem} (none_ : p.names = []) (m : Assignment) :
    p.describe m = [] := by
  refine List.map_eq_nil_iff.2 (List.eq_nil_iff_forall_not_mem.2 fun root _ => ?_)
  have empty : p.names.length = 0 := by rw [none_, List.length_nil]
  exact absurd root.isLt (by omega)

end Problem

namespace CommandLine

/-- What can be seen of a run from outside: the exit code and the standard output. The standard
error is left out, where a failure names what was attempted, which is not the same for a formula and
for a problem. -/
def Report.seen (r : Report) : Nat × String := (r.exitCode, r.output)

/-- Where the text of a problem comes from. -/
def Environment.source {m : Type → Type} (env : Environment m) (input : Option String) :
    m (Except String String) :=
  match input with
  | some path => env.fileText path
  | none => env.inputText

/-- A formula and the problem without a header are reported alike, also when the text is at fault.
The two sets of options may differ in whether classes are printed, since a problem without names has
none to print. -/
theorem seen_report_withSeparator {o o' : Options} (formula : o.dimacs = true)
    (problem : o'.dimacs = false) (s : Settings) (text : String) :
    (report o' s (Text.withSeparator text)).seen = (report o s text).seen := by
  have read := Problem.ofString_withSeparator text
  unfold report solveText
  rw [if_pos formula, problem, if_neg Bool.false_ne_true]
  cases hf : Dimacs.ofString text with
  | error e =>
      rw [hf] at read
      simp only [read]
      rfl
  | ok f =>
      rw [hf] at read
      obtain ⟨p, hp, names, atoms, rfl⟩ := read
      -- whichever strategy is set, its answer is the one for the formula
      obtain ⟨out, solved, answer, -, -⟩ := Problem.solveBy_of_no_atoms atoms s s.strategy
      have solved : p.solve s = .ok out := solved
      simp only [hp, solved, answer]
      cases out.answer with
      | sat m => simp [Report.answer, classLines, Problem.describe_of_no_names names]
      | unsat => rfl
      | unknown => rfl

section

variable {m : Type → Type} [Monad m] {env env' : Environment m} {o o' : Options}

/-- The settings are a matter of the options for them and of the file that they name. Where the text
comes from, and what kind of text it is, has no part in them. -/
theorem settings_congr (input : Option String) (dimacs : Bool)
    (files : ∀ path, o.config = some path → env'.fileText path = env.fileText path) :
    settings env' { o with input, dimacs } = settings env o := by
  unfold settings
  cases config : o.config with
  | none => rfl
  | some path =>
      simp only [files path config]
      rfl

/-- A run that solves reads the settings and the text, and reports. The settings come first, so a
fault in them is all that is seen, whatever the text is. -/
theorem seen_run [LawfulMonad m] {args : List String}
    (request : Request.ofArguments {} args = .solve o) :
    Report.seen <$> run env args = settings env o >>= fun
      | .error r => pure r.seen
      | .ok s => env.source o.input >>= fun
        | .error e => pure (Report.failure "Failed to read input:" e).seen
        | .ok text => pure (report o s text).seen := by
  unfold run
  simp only [request, map_bind]
  refine bind_congr fun r => ?_
  cases r with
  | error r => simp
  | ok s =>
      simp only [map_bind]
      refine bind_congr fun r => ?_
      cases r <;> simp

/-- The program says of a formula what it says of the problem without a header. The hypotheses are
about what the environment delivers: both runs find the same settings file, if one is named, and the
second one reads the text of the first behind a separator. -/
theorem run_plain [LawfulMonad m] {args args' : List String} {input : Option String}
    (formula : Request.ofArguments {} args = .solve { o with dimacs := true })
    (problem : Request.ofArguments {} args' = .solve { o with dimacs := false, input })
    (files : ∀ path, o.config = some path → env'.fileText path = env.fileText path)
    (source : env'.source input = Except.map Text.withSeparator <$> env.source o.input) :
    Report.seen <$> run env' args' = Report.seen <$> run env args := by
  have settings_formula : settings env { o with dimacs := true } = settings env o :=
    settings_congr o.input true fun _ _ => rfl
  -- both runs read the same settings and then the text, which alone differs
  rw [seen_run formula, seen_run problem, settings_congr input false files, settings_formula]
  refine bind_congr fun r => ?_
  cases r with
  | error r => rfl
  | ok s =>
      simp only [source, bind_map_left]
      refine bind_congr fun r => ?_
      cases r with
      | error e => rfl
      | ok text => exact congrArg pure (seen_report_withSeparator rfl rfl s text)

end

end CommandLine

/-- The ways to search for an assignment of a formula agree: with a theory that rejects nothing,
consulted at any time or not at all; as a problem without atoms, by any strategy; and from the
command line, as a formula or as a problem without a header.

The answers are the same as a whole, with the same assignment in the same order, since the theory
never gets to change the trail. The environment of the program is any lawful monad, so the last part
does not depend on what else happens while files are read. -/
theorem plain_paths_agree :
    (∀ (τ : Type) [Theory τ] (theory : τ), Theory.Tolerant theory →
      ∀ (o : Search.Options) (f : Formula) (n : Nat), ∃ a, Search.solve o f n = .ok a ∧
        ∀ oversight, ∃ th,
          Process.Ends (Search.step o oversight) (.start o f n theory) ⟨.ok a, f, th⟩) ∧
    (∀ p : Problem, p.atoms.atoms = [] → ∀ (s : Settings) (strategy : Strategy),
      ∃ out, p.solveBy s strategy = .ok out ∧ out.clauses = p.formula ∧ out.lemmas = 0 ∧
        ∀ n ≤ p.formula.maxVar, Search.solve s.toOptions p.formula n = .ok out.answer) ∧
    (∀ (m : Type → Type) [Monad m] [LawfulMonad m] (env env' : CommandLine.Environment m)
      (args args' : List String) (o : CommandLine.Options) (input : Option String),
      CommandLine.Request.ofArguments {} args = .solve { o with dimacs := true } →
      CommandLine.Request.ofArguments {} args' = .solve { o with dimacs := false, input } →
      (∀ path, o.config = some path → env'.fileText path = env.fileText path) →
      env'.source input = Except.map Text.withSeparator <$> env.source o.input →
      CommandLine.Report.seen <$> CommandLine.run env' args' =
        CommandLine.Report.seen <$> CommandLine.run env args) := by
  refine ⟨?_, ?_, ?_⟩
  · intro τ _ theory tolerant o f n
    have answered : ∃ a, Search.solve o f n = .ok a := by
      rcases Search.solve_cases o f n with ⟨_, h, -⟩ | ⟨h, -⟩ | ⟨h, -⟩ <;> exact ⟨_, h⟩
    obtain ⟨a, ha⟩ := answered
    refine ⟨a, ha, fun oversight => ?_⟩
    rw [← ha]
    exact Search.ends_of_tolerant o f n tolerant oversight
  · intro p noAtoms s strategy
    obtain ⟨out, solved, answer, clauses, lemmas⟩ := Problem.solveBy_of_no_atoms noAtoms s strategy
    refine ⟨out, solved, clauses, lemmas, fun n le => ?_⟩
    rw [Search.solve_of_le _ le, answer]
  · intro m _ _ env env' args args' o input formula problem files source
    exact CommandLine.run_plain formula problem files source

/-- A clause of one variable, as it is and behind a separator. The environment knows no files, and
the text is the standard input of both runs. -/
theorem plain_paths_agree_unit :
    let f : Formula := [[⟨1, by decide⟩]]
    let p : Problem := ⟨[], .empty 0, f, .nil⟩
    let env (text : String) : CommandLine.Environment Id :=
      { fileText := fun _ => pure (.error "no file"), inputText := pure (.ok text) }
    (∃ a, Search.solve {} f 1 = .ok a ∧ ∀ oversight, ∃ th,
      Process.Ends (Search.step {} oversight) (.start {} f 1 EmptyTheory.mk) ⟨.ok a, f, th⟩) ∧
    (∃ out, p.solveBy {} .lazy = .ok out ∧ out.clauses = f ∧ out.lemmas = 0 ∧
      ∀ n ≤ f.maxVar, Search.solve {} f n = .ok out.answer) ∧
    CommandLine.Report.seen <$> CommandLine.run (env "--\np cnf 1 1\n1 0") ["--classes"] =
      CommandLine.Report.seen <$> CommandLine.run (env "p cnf 1 1\n1 0") ["--dimacs", "--classes"] := by
  intro f p env
  have source : (env "--\np cnf 1 1\n1 0").source none =
      Except.map Text.withSeparator <$> (env "p cnf 1 1\n1 0").source none := by
    show Except.ok _ = Except.ok (Text.withSeparator _)
    decide
  refine ⟨plain_paths_agree.1 EmptyTheory EmptyTheory.mk (Theory.tolerant_empty _) {} f 1,
    plain_paths_agree.2.1 p rfl {} .lazy, ?_⟩
  exact plain_paths_agree.2.2 Id (env "p cnf 1 1\n1 0") (env "--\np cnf 1 1\n1 0")
    ["--dimacs", "--classes"] ["--classes"] { classes := true } none (by decide +kernel)
    (by decide +kernel) nofun source

end EqualityLogic
