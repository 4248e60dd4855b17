import EqualityLogic.Json.Skip
import EqualityLogic.Settings.Basic

/-!
# Settings in JSON

Settings are read from an object, in which unknown members are passed over and missing ones have
their defaults, or from an array, which gives them in the order of `SettingName.all` as far as it
goes. They are written as an object with all members in that order.
-/

set_option autoImplicit false

namespace EqualityLogic

/-- The settings that a text can give. -/
inductive SettingName where
  | strategy
  | phase
  | decisionLimit
  | refinementLimit
  | simplify
deriving DecidableEq

namespace SettingName

/-- The settings in the order of an array. -/
def all : List SettingName := [.strategy, .phase, .decisionLimit, .refinementLimit, .simplify]

/-- The key of a setting in an object. -/
def key : SettingName → String
  | .strategy => "strategy"
  | .phase => "phase"
  | .decisionLimit => "decision_limit"
  | .refinementLimit => "refinement_limit"
  | .simplify => "simplify"

/-- The setting with a given key. -/
def ofKey? (k : String) : Option SettingName := all.find? fun n => n.key = k

end SettingName

namespace Json.Reader

/-- Fails over a value of another kind than the one asked for, once its text is known to be good.
Nothing inside brackets is looked at. -/
def unsuitable {α : Type} : Reader α := do
  let c ← token
  if c = '[' ∨ c = '{' then fail .unsuitable
  else if c = '-' ∨ c.isDigit then
    let _ ← number
    fail .unsuitable
  else if c = '"' then
    skip
    let _ ← text
    fail .unsuitable
  else
    skipScalar c
    fail .unsuitable

/-- A truth value. -/
def bool : Reader Bool := do
  match ← token with
  | 't' => word ['t', 'r', 'u', 'e']; return true
  | 'f' => word ['f', 'a', 'l', 's', 'e']; return false
  | _ => unsuitable

/-- A limit: a natural number below 2^64, or null for none. -/
def limit : Reader (Option Nat) := do
  let c ← token
  if c = 'n' then
    word ['n', 'u', 'l', 'l']
    return none
  else if c = '-' ∨ c.isDigit then
    match (← number).natural? with
    | some n => return some n
    | none => fail .unsuitable
  else unsuitable

/-- A strategy by its name, read from behind the opening quote. -/
def strategyName : Reader Strategy := do
  match Strategy.ofName? (← text) with
  | some s => return s
  | none => fail .unsuitable

/-- A strategy: its name, or an object with the name as its only key and null as the value. -/
def strategy : Reader Strategy := do
  match ← token with
  | '"' => skip; strategyName
  | '{' =>
    skip
    -- what stands here is a key, so anything but a string is malformed, however well-formed
    expect '"'
    let s ← strategyName
    expect ':'
    if (← token) = 'n' then word ['n', 'u', 'l', 'l'] else unsuitable
    expect '}'
    return s
  | _ => fail .malformed

/-- The value of a setting, entered into settings. -/
def setting (s : Settings) : SettingName → Reader Settings
  | .strategy => return { s with strategy := ← strategy }
  | .phase => return { s with phase := ← bool }
  | .decisionLimit => return { s with decisionLimit := ← limit }
  | .refinementLimit => return { s with refinementLimit := ← limit }
  | .simplify => return { s with simplify := ← bool }

/-- A member of an object, read from behind the opening quote of its key. Settings that were given
before may not be given again. -/
def member (s : Settings) (given : List SettingName) : Reader (Settings × List SettingName) := do
  match SettingName.ofKey? (← text) with
  | none =>
    expect ':'
    skipValue
    return (s, given)
  | some name =>
    if name ∈ given then fail .unsuitable
    else
      expect ':'
      return (← setting s name, name :: given)

/-- The members of an object, read from behind the quote that opens a key, through the bracket. -/
def members (s : Settings) (given : List SettingName) (cs : List Char) : Outcome Settings cs :=
  match member s given cs with
  | .error e => .error e
  | .ok ⟨((s, given), rest), _hm⟩ =>
    match _hc : dropBlanks rest with
    | [] => .error .incomplete
    | '}' :: rest' => .ok ⟨(s, rest'), Nat.le_trans (length_tail_le_of_dropBlanks _hc) _hm⟩
    | ',' :: rest' =>
      match _hq : dropBlanks rest' with
      | [] => .error .incomplete
      | '"' :: rest'' =>
        (members s given rest'').weaken
          (Nat.le_trans (length_tail_le_of_dropBlanks _hq)
            (Nat.le_trans (length_tail_le_of_dropBlanks _hc) _hm))
      | _ => .error .malformed
    | _ => .error .malformed
termination_by cs.length
decreasing_by
  have := length_tail_le_of_dropBlanks _hc
  have := length_dropBlanks_le rest'
  simp only [_hq, List.length_cons] at *
  omega

/-- The settings of an object, read from behind its opening bracket. -/
def object (s : Settings) : Reader Settings := do
  match ← token with
  | '}' => skip; return s
  | '"' => skip; members s []
  | _ => fail .malformed

/-- The elements of an array from a given setting on, with commas before all but the first. -/
def elements (s : Settings) (first : Bool) : List SettingName → Reader Settings
  | [] => do expect ']'; return s
  | name :: names => do
    if (← token) = ']' then
      skip
      return s
    else
      if !first then expect ','
      elements (← setting s name) false names

/-- Settings in either form. What is not given is as in `s`. -/
def settings (s : Settings) : Reader Settings := do
  match ← token with
  | '{' => skip; object s
  | '[' => skip; elements s true SettingName.all
  | _ => unsuitable

end Json.Reader

namespace Settings

/-- The settings that a JSON text gives. Nothing but blanks may follow them. -/
def ofJson (text : String) : Except Json.Fault Settings :=
  match Json.Reader.settings {} text.toList with
  | .error e => .error e
  | .ok ⟨(s, rest), _⟩ =>
    if (Json.Reader.dropBlanks rest).isEmpty then .ok s else .error .malformed

/-- The value of a setting in JSON. -/
def valueJson (s : Settings) : SettingName → String
  | .strategy => "\"" ++ s.strategy.text ++ "\""
  | .phase => if s.phase then "true" else "false"
  | .decisionLimit => limitJson s.decisionLimit
  | .refinementLimit => limitJson s.refinementLimit
  | .simplify => if s.simplify then "true" else "false"
where
  /-- A limit is a number, or null if there is none. -/
  limitJson : Option Nat → String
    | none => "null"
    | some n => toString n

/-- Settings as a JSON object without blanks. -/
def toJson (s : Settings) : String :=
  let members := SettingName.all.map fun n => "\"" ++ n.key ++ "\":" ++ s.valueJson n
  "\x7b" ++ ",".intercalate members ++ "\x7d"

end Settings

end EqualityLogic
