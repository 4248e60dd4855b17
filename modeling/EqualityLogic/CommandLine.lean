import EqualityLogic.Settings.Json
import EqualityLogic.Solve

/-!
# The command line

The program as a function: `CommandLine.run` goes from arguments to a report, the text to print and
the exit code. It asks an environment for the contents of files and of the standard input, in any
monad, so that it can be run without any.

Arguments are judged from left to right; the first that is wrong, or that asks for the version or
for help, settles the matter.
-/

set_option autoImplicit false

namespace EqualityLogic.CommandLine

/-- What the arguments of a run ask for. -/
structure Options where
  /-- The file of the problem; the standard input if there is none. -/
  input : Option String := none
  /-- The strategy. -/
  strategy : Option Strategy := none
  /-- The file of the settings. -/
  config : Option String := none
  /-- The limit on decisions. -/
  decisionLimit : Option Nat := none
  /-- The limit on lazy refinement. -/
  refinementLimit : Option Nat := none
  /-- Whether decisions try true first. -/
  positivePhase : Bool := false
  /-- Whether the input is in DIMACS format, without a theory. -/
  dimacs : Bool := false
  /-- Whether to print the classes of the assignment. -/
  classes : Bool := false
deriving DecidableEq

/-- What a command line amounts to. -/
inductive Request where
  /-- To solve a problem. -/
  | solve (o : Options)
  /-- To print the version. -/
  | version
  /-- To print a summary of the options. -/
  | help
  /-- Nothing: it is wrong. -/
  | misuse
deriving DecidableEq

namespace Options

/-- Names the file of the problem, once. -/
def setInput (o : Options) (v : String) : Option Options :=
  if v = "" ∨ o.input.isSome then none else some { o with input := some v }

/-- Turns a switch on, once. -/
def setSwitch (o : Options) (name : String) : Option Options :=
  match name with
  | "positive-phase" => if o.positivePhase then none else some { o with positivePhase := true }
  | "dimacs" => if o.dimacs then none else some { o with dimacs := true }
  | "classes" => if o.classes then none else some { o with classes := true }
  | "verbose" => some o
  | _ => none

/-- Gives an option its value, once. -/
def setValue (o : Options) (name v : String) : Option Options :=
  match name with
  | "strategy" =>
    if o.strategy.isSome then none
    else (Strategy.ofName? v).map fun s => { o with strategy := some s }
  | "config" => if v = "" ∨ o.config.isSome then none else some { o with config := some v }
  | "decision-limit" =>
    if o.decisionLimit.isSome then none
    else (Text.natural? v).map fun n => { o with decisionLimit := some n }
  | "refinement-limit" =>
    if o.refinementLimit.isSome then none
    else (Text.natural? v).map fun n => { o with refinementLimit := some n }
  | _ => none

end Options

/-- The options that have values. -/
def valueNames : List String := ["strategy", "config", "decision-limit", "refinement-limit"]

/-- An argument by its form. -/
inductive Argument where
  /-- Two dashes, a name, and a value if there is an equals sign. -/
  | long (name : String) (value : Option String)
  /-- A dash and letters. -/
  | short (letters : List Char)
  /-- The end of the options. -/
  | endOfOptions
  /-- Anything else. A lone dash is no option. -/
  | plain (text : String)
deriving DecidableEq

/-- The form of an argument. -/
def Argument.ofString (text : String) : Argument :=
  match text.toList with
  | ['-', '-'] => .endOfOptions
  | '-' :: '-' :: cs =>
    let name := String.ofList (cs.takeWhile (· ≠ '='))
    match cs.dropWhile (· ≠ '=') with
    | [] => .long name none
    | _ :: value => .long name (some (String.ofList value))
  | '-' :: c :: cs => .short (c :: cs)
  | _ => .plain text

/-- The arguments after the end of the options, all of which name the input. -/
def Request.ofPlain (o : Options) : List String → Request
  | [] => .solve o
  | a :: as =>
    match o.setInput a with
    | some o => ofPlain o as
    | none => .misuse

/-- Letters behind one dash, up to the first that settles the matter. -/
def shortRequest? : List Char → Option Request
  | [] => none
  | 'v' :: cs => shortRequest? cs
  | 'h' :: _ => some .help
  | 'V' :: _ => some .version
  | _ => some .misuse

/-- Judges arguments, after those that gave the options so far. -/
def Request.ofArguments (o : Options) : List String → Request
  | [] => .solve o
  | a :: as =>
    match Argument.ofString a with
    | .endOfOptions => ofPlain o as
    | .plain text =>
      match o.setInput text with
      | some o => ofArguments o as
      | none => .misuse
    | .short letters =>
      match shortRequest? letters with
      | some r => r
      | none => ofArguments o as
    | .long "version" none => .version
    | .long "help" none => .help
    | .long name (some v) =>
      match o.setValue name v with
      | some o => ofArguments o as
      | none => .misuse
    | .long name none =>
      if name ∈ valueNames then
        match as with
        | [] => .misuse
        | v :: as =>
          match Argument.ofString v with
          | .plain v =>
            match o.setValue name v with
            | some o => ofArguments o as
            | none => .misuse
          | _ => .misuse
      else
        match o.setSwitch name with
        | some o => ofArguments o as
        | none => .misuse

/-! ### Reports -/

/-- What a run prints and how it exits. -/
structure Report where
  /-- The exit code. -/
  exitCode : Nat
  /-- The text for the standard output. -/
  output : String := ""
  /-- The text for the standard error. -/
  errors : String := ""
deriving DecidableEq

namespace Report

/-- The report of a failure, with what was attempted. -/
def failure (attempt reason : String) : Report :=
  { exitCode := 254, errors := attempt ++ "\n    " ++ reason ++ "\n" }

/-- Lines of text, each with its end. -/
def ofLines (lines : List String) : String := String.join (lines.map (· ++ "\n"))

/-- The report of an answer, with lines to print before an assignment. -/
def answer (before : Assignment → List String) : Answer → Report
  | .sat m => { exitCode := 0, output := ofLines (before m ++ m.map Literal.text) }
  | .unsat => { exitCode := 1, output := "Unsatisfiable!\n" }
  | .unknown => { exitCode := 2, output := "Unknown\n" }

end Report

/-- A line for each class of more than one name. -/
def classLines (p : Problem) (m : Assignment) : List String :=
  ((p.describe m).filter fun names => 1 < names.length).map fun names =>
    "c " ++ " = ".intercalate names

/-- The options, with what the arguments say in place of what the file of settings says. -/
def Options.override (o : Options) (s : Settings) : Settings where
  strategy := o.strategy.getD s.strategy
  phase := o.positivePhase || s.phase
  decisionLimit := o.decisionLimit.or s.decisionLimit
  refinementLimit := o.refinementLimit.or s.refinementLimit
  simplify := s.simplify

/-- Solves the text of a problem. -/
def report (o : Options) (s : Settings) (text : String) : Report :=
  if o.dimacs then
    match Dimacs.ofString text with
    | .error e => .failure "Failed to parse DIMACS:" e.message
    | .ok f =>
      match Search.solve s.toOptions f f.maxVar with
      | .error e => .failure "Solver failed:" e.message
      | .ok a => .answer (fun _ => []) a
  else
    match solveText text s with
    | .error e => .failure "Failed to solve problem:" e.message
    | .ok (p, outcome) =>
      .answer (fun m => if o.classes then classLines p m else []) outcome.answer

/-- The wording of a fault in settings. -/
def faultMessage : Json.Fault → String
  | .malformed => "cannot parse configuration: malformed JSON"
  | .unsuitable => "cannot parse configuration: unsuitable value"
  | .incomplete => "cannot parse configuration: unexpected end of input"

/-- The summary of the options. -/
def helpText : String := Report.ofLines [
  "Decide problems in the theory of equality over uninterpreted constants",
  "",
  "Usage: eqsmt [OPTIONS] [INPUT]",
  "",
  "Arguments:",
  "  [INPUT]  Problem file; standard input is read if there is none",
  "",
  "Options:",
  "      --strategy <STRATEGY>                  lazy, callback or propagation",
  "      --config <CONFIG>                      JSON solver configuration; other flags override it",
  "      --decision-limit <DECISION_LIMIT>      Give up after this many decisions in one search",
  "      --refinement-limit <REFINEMENT_LIMIT>  Give up after learning this many clauses lazily",
  "      --positive-phase                       Try 'true' first when deciding",
  "      --dimacs                               The input is plain DIMACS, with no theory",
  "      --classes                              Also print the equivalence classes of the model",
  "  -v, --verbose...                           More logging",
  "  -h, --help                                 Print help",
  "  -V, --version                              Print version"]

/-- Where a run gets its texts from. A text that cannot be had comes with a reason. -/
structure Environment (m : Type → Type) where
  /-- The content of a file. -/
  fileText : String → m (Except String String)
  /-- The content of the standard input. -/
  inputText : m (Except String String)

/-- The settings of a run. -/
def settings {m : Type → Type} [Monad m] (env : Environment m) (o : Options) :
    m (Except Report Settings) := do
  match o.config with
  | none => return .ok (o.override {})
  | some path =>
    match ← env.fileText path with
    | .error e => return .error (.failure "Failed to read configuration:" e)
    | .ok text =>
      match Settings.ofJson text with
      | .error e => return .error (.failure "Failed to load configuration:" (faultMessage e))
      | .ok s => return .ok (o.override s)

/-- The report of a run with the given arguments. -/
def run {m : Type → Type} [Monad m] (env : Environment m) (args : List String) : m Report := do
  match Request.ofArguments {} args with
  | .version => return { exitCode := 0, output := "eqsmt 0.1.0\n" }
  | .help => return { exitCode := 0, output := helpText }
  | .misuse => return { exitCode := 2, errors := "error: wrong usage; try --help\n" }
  | .solve o =>
    match ← settings env o with
    | .error r => return r
    | .ok s =>
      match ← (match o.input with
        | some path => env.fileText path
        | none => env.inputText) with
      | .error e => return .failure "Failed to read input:" e
      | .ok text => return report o s text

end EqualityLogic.CommandLine
