import EqualityLogic.Problem.Text
import EqualityLogic.Proofs.Text.Name

/-!
# The lines of a header

What a line without the blanks around it says is given by `HeaderLine.Says`, and what is wrong with
one that says nothing by `HeaderLine.Fault`. Reading a line gives what it says, or its fault with
the number of the line (`readTrimmed_eq_ok_iff`, `readTrimmed_eq_error_iff`).

The names of a line are its longest runs of characters of names. Nothing but blanks may stand
between them, so the keyword of a declaration needs no blank behind it, and a comma is a fault.
-/

set_option autoImplicit false

namespace EqualityLogic.HeaderLine

open Text

/-- A text of two names with blanks around them. -/
structure TwoNames (cs : List Char) (left right : String) : Prop where
  chars : ∀ c ∈ cs, isListChar c = true
  runs : nameRuns cs = [left, right]

/-- What a line without the blanks around it says. -/
inductive Says : List Char → HeaderLine → Prop
  | separator : Says ['-', '-'] .separator
  | empty : Says [] .blank
  | mark : Says ['c'] .blank
  | comment (cs : List Char) : Says ('c' :: ' ' :: cs) .blank
  | names {cs : List Char} (chars : ∀ c ∈ cs, isListChar c = true) :
      Says ('v' :: 'a' :: 'r' :: 's' :: cs) (.names (nameRuns cs))
  | equation {cs : List Char} {left right : String} (two : TwoNames cs left right) :
      Says ('=' :: '=' :: cs) (.equation left right)

/-- What is wrong with a line without the blanks around it. -/
inductive Fault (line : Nat) : List Char → ProblemTextError → Prop
  /-- It starts with no keyword. -/
  | keyword {cs : List Char} (others : cs ≠ [] ∧ cs ≠ ['-', '-'] ∧ cs ≠ ['c'])
      (starts : ∀ s ∈ [['c', ' '], ['v', 'a', 'r', 's'], ['=', '=']], ¬ s <+: cs) :
      Fault line cs (.badKeyword line (cs.take 2))
  /-- A list of names holds another character. -/
  | names {front more : List Char} {c : Char} (chars : ∀ d ∈ front, isListChar d = true)
      (other : isListChar c = false) :
      Fault line ('v' :: 'a' :: 'r' :: 's' :: (front ++ c :: more)) (.unexpected line c)
  /-- There are less than two names, or another character stands before the second one. -/
  | missing {cs : List Char} (few : (nameRuns (cs.takeWhile isListChar)).length < 2) :
      Fault line ('=' :: '=' :: cs) (.missingName line)
  /-- There are two names, but one character more is one too many. -/
  | extra {front more : List Char} {c : Char} {left right : String}
      (two : TwoNames front left right)
      (tooMany : ∀ left right, ¬ TwoNames (front ++ [c]) left right) :
      Fault line ('=' :: '=' :: (front ++ c :: more)) (.unexpected line c)

variable {line : Nat} {cs : List Char} {e : ProblemTextError}

/-! ### Lists of names -/

/-- A list of names is read as its runs, if it holds nothing else but blanks. -/
theorem readNames_eq_ok_iff {names : List String} :
    readNames line cs = .ok names ↔ (∀ c ∈ cs, isListChar c = true) ∧ names = nameRuns cs := by
  fun_induction readNames line cs generalizing names with
  | case1 cs hskip =>
      obtain ⟨blanks, hb, split⟩ := exists_blanks cs
      rw [hskip, List.append_nil] at split
      rw [← split] at hb
      rw [nameRuns_of_blank hb]
      constructor
      · intro ok
        cases ok
        exact ⟨fun c hc => by simp [isListChar, hb c hc], rfl⟩
      · rintro ⟨-, rfl⟩
        rfl
  | case2 cs c rest hskip hname =>
      rw [← hskip] at hname
      -- no name starts at a character that is no blank, so it belongs to no list
      rcases nothing_or_other_of_name?_eq_none hname with
        blank | ⟨blanks, d, more, rfl, -, -, other⟩
      · rw [skipBlanks_of_blank blank] at hskip
        cases hskip
      · constructor
        · intro ok
          cases ok
        · rintro ⟨chars, -⟩
          exact absurd (chars d (by simp)) (by simp [other])
  | case3 cs c rest hskip name more hname ih =>
      rw [← hskip] at hname
      obtain ⟨front, rfl, first, ends⟩ := exists_front hname
      rw [first.runs more ends, List.forall_mem_append, and_iff_right first.chars]
      constructor
      · intro ok
        cases hmore : readNames line more with
        | error e =>
            rw [hmore] at ok
            cases ok
        | ok ns =>
            rw [hmore] at ok
            cases ok
            obtain ⟨chars, rfl⟩ := ih.1 hmore
            exact ⟨chars, rfl⟩
      · rintro ⟨chars, rfl⟩
        rw [ih.2 ⟨chars, rfl⟩]
        rfl

/-- If a list of names is refused, then for its first other character. The error holds that
character and the number of the line. -/
theorem exists_of_readNames_eq_error (h : readNames line cs = .error e) :
    ∃ front c more, cs = front ++ c :: more ∧ (∀ d ∈ front, isListChar d = true) ∧
      isListChar c = false ∧ e = .unexpected line c := by
  fun_induction readNames line cs with
  | case1 cs hskip => cases h
  | case2 cs c rest hskip hname =>
      cases h
      rw [← hskip] at hname
      rcases nothing_or_other_of_name?_eq_none hname with
        blank | ⟨blanks, d, more, rfl, hskip', hb, other⟩
      · rw [skipBlanks_of_blank blank] at hskip
        cases hskip
      · obtain ⟨rfl, rfl⟩ := List.cons.inj (hskip.symm.trans hskip')
        exact ⟨blanks, c, rest, rfl, fun d hd => by simp [isListChar, hb d hd], other, rfl⟩
  | case3 cs c rest hskip name more hname ih =>
      rw [← hskip] at hname
      obtain ⟨front, rfl, first, -⟩ := exists_front hname
      cases hmore : readNames line more with
      | ok ns =>
          rw [hmore] at h
          cases h
      | error e' =>
          rw [hmore] at h
          cases h
          -- the names before it are part of what stands in front
          obtain ⟨front', d, more', rfl, chars, other, rfl⟩ := ih hmore
          refine ⟨front ++ front', d, more', by simp, ?_, other, rfl⟩
          exact List.forall_mem_append.2 ⟨first.chars, chars⟩

/-- The first other character is the one that is refused, whatever comes after it. -/
theorem readNames_of_other {front more : List Char} {c : Char}
    (chars : ∀ d ∈ front, isListChar d = true) (other : isListChar c = false) :
    readNames line (front ++ c :: more) = .error (.unexpected line c) := by
  cases h : readNames line (front ++ c :: more) with
  | ok names =>
      have all := (readNames_eq_ok_iff.1 h).1 c (by simp)
      rw [other] at all
      cases all
  | error e =>
      obtain ⟨front', c', more', split, chars', other', rfl⟩ := exists_of_readNames_eq_error h
      -- both split the text where the characters of lists end
      have first : ∀ {front more : List Char} {c : Char}, (∀ d ∈ front, isListChar d = true) →
          isListChar c = false → (front ++ c :: more).dropWhile isListChar = c :: more := by
        intro front more c chars other
        rw [List.dropWhile_append_of_pos chars, List.dropWhile_cons_of_neg (by simp [other])]
      have same := congrArg (List.dropWhile isListChar) split
      rw [first chars other, first chars' other'] at same
      rw [(List.cons.inj same).1]

/-! ### Equations -/

/-- An equation is two names, each after blanks, and nothing but blanks behind them. This spells the
function out, so that the proofs below go by its cases. -/
theorem readEquation_eq (line : Nat) (cs : List Char) :
    readEquation line cs =
      match name? (skipBlanks cs) with
      | none => .error (.missingName line)
      | some (left, cs) =>
        match name? (skipBlanks cs) with
        | none => .error (.missingName line)
        | some (right, cs) =>
          match skipBlanks cs with
          | [] => .ok (.equation left right)
          | c :: _ => .error (.unexpected line c) := by
  unfold readEquation readName
  cases name? (skipBlanks cs) with
  | none => rfl
  | some r =>
      simp only [bind, Except.bind]
      cases name? (skipBlanks r.2) with
      | none => rfl
      | some r =>
          simp only
          cases skipBlanks r.2 <;> rfl

/-- Where no name can be taken off, there is none up to the first other character. Blanks are all
that may stand there. -/
theorem nameRuns_takeWhile_of_none (h : name? (skipBlanks cs) = none) :
    nameRuns (cs.takeWhile isListChar) = [] := by
  rcases nothing_or_other_of_name?_eq_none h with blank | ⟨blanks, c, rest, rfl, -, hb, other⟩
  · exact nameRuns_of_blank fun c hc => blank c ((List.takeWhile_prefix _).mem hc)
  · have chars : ∀ c ∈ blanks, isListChar c = true := fun c hc => by simp [isListChar, hb c hc]
    rw [List.takeWhile_append_of_pos chars, List.takeWhile_cons_of_neg (by simp [other]),
      List.append_nil]
    exact nameRuns_of_blank hb

/-- Up to the first other character, names are taken off one by one. -/
theorem nameRuns_takeWhile_of_some {name : String} {rest : List Char}
    (h : name? (skipBlanks cs) = some (name, rest)) :
    nameRuns (cs.takeWhile isListChar) = name :: nameRuns (rest.takeWhile isListChar) := by
  obtain ⟨front, rfl, first, ends⟩ := exists_front h
  rw [List.takeWhile_append_of_pos first.chars]
  rw [← List.takeWhile_append_dropWhile (p := isListChar) (l := rest)] at ends
  exact first.runs _ ends.of_append

section

variable {front₁ front₂ : List Char} {left right : String}

/-- Two names one after the other, with nothing but blanks behind them. -/
theorem TwoNames.of_fronts (first : Front front₁ left) (second : Front front₂ right)
    {blanks : List Char} (hb : ∀ c ∈ blanks, isBlank c = true)
    (ends₁ : EndsName (front₂ ++ blanks)) (ends₂ : EndsName blanks) :
    TwoNames (front₁ ++ (front₂ ++ blanks)) left right where
  chars := List.forall_mem_append.2 ⟨first.chars, List.forall_mem_append.2
    ⟨second.chars, fun c hc => by simp [isListChar, hb c hc]⟩⟩
  runs := by rw [first.runs _ ends₁, second.runs _ ends₂, nameRuns_of_blank hb]

/-- An equation is read off two names, with blanks before, between and behind them, and nothing
else. -/
theorem readEquation_eq_ok_iff {x : HeaderLine} :
    readEquation line cs = .ok x ↔
      ∃ left right, TwoNames cs left right ∧ x = .equation left right := by
  rw [readEquation_eq]
  constructor
  · intro ok
    split at ok
    · cases ok
    · next left cs₁ hleft =>
      split at ok
      · cases ok
      · next right cs₂ hright =>
        split at ok
        · next hend =>
          cases ok
          obtain ⟨front₁, rfl, first, ends₁⟩ := exists_front hleft
          obtain ⟨front₂, rfl, second, ends₂⟩ := exists_front hright
          obtain ⟨blanks, hb, split⟩ := exists_blanks cs₂
          rw [hend, List.append_nil] at split
          rw [← split] at hb
          exact ⟨left, right, .of_fronts first second hb ends₁ ends₂, rfl⟩
        · cases ok
  · rintro ⟨left, right, ⟨chars, runs⟩, rfl⟩
    -- the two runs are taken off one after the other, and blanks are left
    obtain ⟨cs₁, hleft, runs, chars⟩ := exists_of_nameRuns_eq_cons chars runs
    obtain ⟨cs₂, hright, runs, chars⟩ := exists_of_nameRuns_eq_cons chars runs
    have hend := skipBlanks_of_blank (blank_of_nameRuns_eq_nil chars runs)
    simp only [hleft, hright, hend]

/-- What stands behind two names is at fault. If it belongs to a name, there would be a third one,
and otherwise it stands in no list of names. -/
theorem fault_of_rest (first : Front front₁ left) (second : Front front₂ right)
    (ends₁ : EndsName (front₂ ++ cs)) (ends₂ : EndsName cs) {c : Char} {more : List Char}
    (rest : skipBlanks cs = c :: more) :
    Fault line ('=' :: '=' :: (front₁ ++ (front₂ ++ cs))) (.unexpected line c) := by
  obtain ⟨blanks, hb, split⟩ := exists_blanks cs
  rw [rest] at split
  subst split
  have two : TwoNames (front₁ ++ (front₂ ++ blanks)) left right := by
    rw [← List.append_assoc] at ends₁
    exact .of_fronts first second hb ends₁.of_append ends₂.of_append
  rw [show front₁ ++ (front₂ ++ (blanks ++ c :: more)) =
    front₁ ++ (front₂ ++ blanks) ++ c :: more by simp]
  refine .extra two fun left' right' three => ?_
  -- the character is no blank, so it would have to start a third name
  have named : isNameChar c = true := by
    have := three.chars c (by simp)
    rwa [isListChar, isBlank_of_skipBlanks_eq_cons rest, Bool.false_or] at this
  have third : nameRuns (blanks ++ [c]) = [String.ofList [c]] := by
    have single : nameRuns ([c] ++ []) = String.ofList [c] :: nameRuns [] :=
      nameRuns_append (by simp) (by simpa using named) endsName_nil
    rw [nameRuns_append_of_blank hb]
    rwa [nameRuns_nil] at single
  rw [List.append_cons, ← List.append_assoc] at ends₁
  rw [List.append_cons] at ends₂
  have runs := three.runs
  rw [List.append_assoc, List.append_assoc, first.runs _ ends₁.of_append,
    second.runs _ ends₂.of_append, third] at runs
  cases runs

/-- If an equation is refused, it lacks a name or has something behind the second one. The proof
goes by the cases of `readEquation_eq`, and shows the fault of each. -/
theorem fault_of_readEquation (h : readEquation line cs = .error e) :
    Fault line ('=' :: '=' :: cs) e := by
  rw [readEquation_eq] at h
  split at h
  · next hleft =>
    cases h
    exact .missing (by rw [nameRuns_takeWhile_of_none hleft]; exact Nat.zero_lt_two)
  · next left cs₁ hleft =>
    split at h
    · next hright =>
      cases h
      refine .missing ?_
      rw [nameRuns_takeWhile_of_some hleft, nameRuns_takeWhile_of_none hright]
      exact Nat.one_lt_two
    · next right cs₂ hright =>
      split at h
      · cases h
      · next c more rest =>
        cases h
        obtain ⟨front₁, rfl, first, ends₁⟩ := exists_front hleft
        obtain ⟨front₂, rfl, second, ends₂⟩ := exists_front hright
        -- two names have been read, and a character is left
        exact fault_of_rest first second ends₁ ends₂ rest

end

/-- With less than two names before another character, a name is missed. It does not matter what the
other character is. -/
theorem readEquation_of_few (few : (nameRuns (cs.takeWhile isListChar)).length < 2) :
    readEquation line cs = .error (.missingName line) := by
  rw [readEquation_eq]
  split
  · rfl
  · next left cs₁ hleft =>
    split
    · rfl
    · next right cs₂ hright =>
      rw [nameRuns_takeWhile_of_some hleft, nameRuns_takeWhile_of_some hright] at few
      simp only [List.length_cons] at few
      omega

/-- The character that makes two names something else is the one that is refused. A character that
only makes the second name longer is not such a character. -/
theorem readEquation_of_tooMany {front more : List Char} {c : Char} {left right : String}
    (two : TwoNames front left right)
    (tooMany : ∀ left right, ¬ TwoNames (front ++ [c]) left right) :
    readEquation line (front ++ c :: more) = .error (.unexpected line c) := by
  obtain ⟨rest, hleft, runs, chars⟩ := exists_of_nameRuns_eq_cons two.chars two.runs
  obtain ⟨blanks, hright, none_, chars'⟩ := exists_of_nameRuns_eq_cons chars runs
  obtain ⟨front₁, rfl, first, ends₁⟩ := exists_front hleft
  obtain ⟨front₂, rfl, second, ends₂⟩ := exists_front hright
  have hb := blank_of_nameRuns_eq_nil chars' none_
  -- after the left name comes more, so it ends where it did
  have ends : ∀ tail, EndsName (front₂ ++ tail) := by
    obtain ⟨d, ds, hd⟩ := List.exists_cons_of_ne_nil second.ne_nil
    rw [hd] at ends₁ ⊢
    exact fun tail => ends₁
  -- a blank would leave the names as they are
  have notBlank : isBlank c = false := by
    cases hc : isBlank c with
    | false => rfl
    | true =>
        have hb' : ∀ d ∈ blanks ++ [c], isBlank d = true :=
          List.forall_mem_append.2 ⟨hb, by simpa using hc⟩
        have ends₂' : EndsName (blanks ++ [c]) := fun d hd =>
          isNameChar_of_isBlank (hb' d (List.mem_of_head? hd))
        have two' := TwoNames.of_fronts first second hb' (ends _) ends₂'
        exact absurd (by simpa only [List.append_assoc] using two') (tooMany left right)
  -- a character of names would make the right name longer
  have endsRight : EndsName (blanks ++ c :: more) := by
    cases blanks with
    | cons b bs => exact ends₂
    | nil =>
        rintro d ⟨⟩
        cases hc : isNameChar c with
        | false => rfl
        | true =>
            obtain ⟨longer, third⟩ := second.extend hc
            have ends₁' : EndsName (front₂ ++ [c] ++ []) := by
              rw [List.append_assoc]
              exact ends _
            have two' := TwoNames.of_fronts first third (List.forall_mem_nil _) ends₁' endsName_nil
            exact absurd (by simpa only [List.append_assoc, List.append_nil] using two')
              (tooMany left longer)
  rw [readEquation_eq, List.append_assoc, List.append_assoc, first.reads _ (ends _)]
  simp only
  rw [second.reads _ endsRight]
  simp only
  rw [skipBlanks_append hb (startsSolid_cons notBlank more)]

/-! ### Lines -/

/-- A line is read as what it says. The cases of `Says` are the keywords, tried in turn. -/
theorem readTrimmed_eq_ok_iff {x : HeaderLine} : readTrimmed line cs = .ok x ↔ Says cs x := by
  constructor
  · intro ok
    unfold readTrimmed at ok
    split at ok
    · cases ok; exact .separator
    · cases ok; exact .empty
    · cases ok; exact .mark
    · next cs => cases ok; exact .comment cs
    · next cs =>
      cases hnames : readNames line cs with
      | error e =>
          rw [hnames] at ok
          cases ok
      | ok names =>
          rw [hnames] at ok
          cases ok
          obtain ⟨chars, rfl⟩ := readNames_eq_ok_iff.1 hnames
          exact .names chars
    · next cs =>
      obtain ⟨left, right, two, rfl⟩ := readEquation_eq_ok_iff.1 ok
      exact .equation two
    · cases ok
  · intro h
    cases h with
    | separator => rfl
    | empty => rfl
    | mark => rfl
    | comment => rfl
    | names chars =>
        rw [readTrimmed, readNames_eq_ok_iff.2 ⟨chars, rfl⟩]
        rfl
    | equation two => exact readEquation_eq_ok_iff.2 ⟨_, _, two, rfl⟩

/-- A line is refused for its fault, of which there is one at most. With the theorem above each line
has just one of the two. -/
theorem readTrimmed_eq_error_iff : readTrimmed line cs = .error e ↔ Fault line cs e := by
  constructor
  · intro h
    unfold readTrimmed at h
    split at h
    · cases h
    · cases h
    · cases h
    · cases h
    · next cs =>
      cases hnames : readNames line cs with
      | error e' =>
          rw [hnames] at h
          cases h
          obtain ⟨front, c, more, rfl, chars, other, rfl⟩ := exists_of_readNames_eq_error hnames
          exact .names chars other
      | ok names =>
          rw [hnames] at h
          cases h
    · exact fault_of_readEquation h
    · next cs notSeparator notEmpty notMark notComment notNames notEquation =>
      cases h
      -- none of the cases before applied, so the line starts with no keyword
      refine .keyword ⟨notEmpty, notSeparator, notMark⟩ ?_
      intro s hs
      rintro ⟨more, rfl⟩
      simp only [List.mem_cons, List.not_mem_nil, or_false] at hs
      rcases hs with rfl | rfl | rfl
      · exact notComment more rfl
      · exact notNames more rfl
      · exact notEquation more rfl
  · intro fault
    cases fault with
    | keyword others starts =>
        obtain ⟨notEmpty, notSeparator, notMark⟩ := others
        unfold readTrimmed
        split
        · exact absurd rfl notSeparator
        · exact absurd rfl notEmpty
        · exact absurd rfl notMark
        · exact absurd ⟨_, rfl⟩ (starts ['c', ' '] (by simp))
        · exact absurd ⟨_, rfl⟩ (starts ['v', 'a', 'r', 's'] (by simp))
        · exact absurd ⟨_, rfl⟩ (starts ['=', '='] (by simp))
        · rfl
    | names chars other =>
        rw [readTrimmed, readNames_of_other chars other]
        rfl
    | missing few => exact readEquation_of_few few
    | extra two tooMany => exact readEquation_of_tooMany two tooMany

/-- The same of a line with blanks around it. -/
theorem read_eq_ok_iff {text : String} {x : HeaderLine} :
    read line text = .ok x ↔ Says (trim text.toList) x := readTrimmed_eq_ok_iff

/-- The blanks around a line do not show in its fault either. -/
theorem read_eq_error_iff {text : String} :
    read line text = .error e ↔ Fault line (trim text.toList) e := readTrimmed_eq_error_iff

end EqualityLogic.HeaderLine
