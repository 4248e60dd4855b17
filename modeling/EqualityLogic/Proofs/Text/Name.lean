import EqualityLogic.Text.Name

/-!
# Runs of characters of names

Names are read off a text one by one, with blanks skipped before each. What this comes to is said
here without the reading: `nameRuns` are the longest runs of characters of names in a text, and a
text that holds nothing else but blanks is taken apart into them (`exists_of_nameRuns_eq_cons`).

No blank is a character of names (`isNameChar_of_isBlank`). Otherwise a run could start with a
blank, which the reading would have skipped.
-/

set_option autoImplicit false

namespace EqualityLogic.Text

/-! ### Blanks and characters of names -/

/-- The code points of the blanks. -/
def blankPoints : List Nat :=
  [0x9, 0xa, 0xb, 0xc, 0xd, 0x20, 0x85, 0xa0, 0x1680, 0x2000, 0x2001, 0x2002, 0x2003, 0x2004,
    0x2005, 0x2006, 0x2007, 0x2008, 0x2009, 0x200a, 0x2028, 0x2029, 0x202f, 0x205f, 0x3000]

/-- A blank has one of the listed code points, so what holds of all blanks can be checked one by
one. -/
theorem toNat_mem_blankPoints {c : Char} (h : isBlank c = true) : c.toNat ∈ blankPoints := by
  simp only [isBlank, Bool.or_eq_true, Bool.and_eq_true, decide_eq_true_eq] at h
  simp only [blankPoints, List.mem_cons, List.not_mem_nil, or_false]
  omega

/-- No blank is a character of names. The list of blanks is short, so they are checked one by one.
-/
theorem isNameChar_of_isBlank {c : Char} (h : isBlank c = true) : isNameChar c = false := by
  -- there are few blanks, so each can be looked up in the table
  have ranges : ∀ n ∈ blankPoints,
      (alphanumericRanges.any fun r => r.1 ≤ n && n ≤ r.2) = false := by decide +kernel
  have others : ∀ n ∈ blankPoints, n ≠ '_'.toNat ∧ n ≠ '.'.toNat ∧ n ≠ '\x27'.toNat := by decide
  have point := toNat_mem_blankPoints h
  obtain ⟨h₁, h₂, h₃⟩ := others _ point
  have alphanumeric : isAlphanumeric c = false := ranges _ point
  simp only [isNameChar, alphanumeric, Bool.false_or, Bool.or_eq_false_iff, decide_eq_false_iff_not]
  exact ⟨⟨fun e => h₁ (e ▸ rfl), fun e => h₂ (e ▸ rfl)⟩, fun e => h₃ (e ▸ rfl)⟩

/-- No character of names is a blank. -/
theorem isBlank_of_isNameChar {c : Char} (h : isNameChar c = true) : isBlank c = false := by
  cases blank : isBlank c with
  | false => rfl
  | true => exact absurd ((isNameChar_of_isBlank blank).symm.trans h) Bool.false_ne_true

/-- A character that may stand in a list of names. -/
def isListChar (c : Char) : Bool := isBlank c || isNameChar c

/-- The next character, if there is one, is none of a name. -/
def EndsName (rest : List Char) : Prop := ∀ c, rest.head? = some c → isNameChar c = false

/-- The end of a text ends a name. -/
theorem endsName_nil : EndsName [] := fun c h => by cases h

/-- What ends a name does so without what follows it, unless it is empty, and then it does so
anyway. -/
theorem EndsName.of_append {rest more : List Char} (h : EndsName (rest ++ more)) :
    EndsName rest := by
  intro c hc
  cases rest with
  | nil => cases hc
  | cons d rest => exact h c hc

/-! ### Runs -/

/-- The longest runs of characters of names in a text. -/
def nameRuns (cs : List Char) : List String :=
  ((cs.splitOnP fun c => !isNameChar c).filter (· ≠ [])).map String.ofList

variable {cs w rest : List Char} {c : Char} {name : String}

/-- A character that is none of a name adds no run where it stands first. -/
theorem nameRuns_cons_of_not (h : isNameChar c = false) (cs : List Char) :
    nameRuns (c :: cs) = nameRuns cs := by
  have sep : (!isNameChar c) = true := by rw [h]; rfl
  simp [nameRuns, List.splitOnP_cons_eq_if_modifyHead, sep]

/-- Blanks add nothing to the runs, in front of any text. -/
theorem nameRuns_append_of_blank {blanks : List Char} (h : ∀ c ∈ blanks, isBlank c = true)
    (cs : List Char) : nameRuns (blanks ++ cs) = nameRuns cs := by
  induction blanks with
  | nil => rfl
  | cons b blanks ih =>
      obtain ⟨hb, hbs⟩ := List.forall_mem_cons.1 h
      rw [List.cons_append, nameRuns_cons_of_not (isNameChar_of_isBlank hb), ih hbs]

/-- A text of blanks has no runs. -/
theorem nameRuns_of_blank (h : ∀ c ∈ cs, isBlank c = true) : nameRuns cs = [] := by
  have := nameRuns_append_of_blank h []
  rwa [List.append_nil] at this

/-- A text without characters has none. -/
theorem nameRuns_nil : nameRuns [] = [] := nameRuns_of_blank nofun

/-- A name with its end is the first run. Without an end the run would go on into the rest. -/
theorem nameRuns_append (ne : w ≠ []) (name : ∀ c ∈ w, isNameChar c = true) (ends : EndsName rest) :
    nameRuns (w ++ rest) = String.ofList w :: nameRuns rest := by
  have noSep : ∀ c ∈ w, (!isNameChar c) = false := fun c hc => by rw [name c hc]; rfl
  cases rest with
  | nil => simp [nameRuns, List.splitOnP_eq_singleton noSep, ne]
  | cons c rest =>
      have sep : (!isNameChar c) = true := by rw [ends c rfl]; rfl
      rw [nameRuns_cons_of_not (ends c rfl)]
      simp [nameRuns, List.splitOnP_append_cons_of_forall_mem noSep c sep, ne]

/-! ### Reading -/

/-- A name is taken off up to its end, and is not empty. What is left begins with no character of
names. -/
theorem name?_eq_some_iff :
    name? cs = some (name, rest) ↔
      ∃ w, cs = w ++ rest ∧ w ≠ [] ∧ (∀ c ∈ w, isNameChar c = true) ∧ EndsName rest ∧
        name = String.ofList w := by
  constructor
  · intro h
    rw [name?] at h
    split at h
    · cases h
    · next ne =>
      cases h
      refine ⟨_, List.takeWhile_append_dropWhile.symm, ne, List.all_eq_true.1 List.all_takeWhile,
        fun c hc => ?_, rfl⟩
      have := List.head?_dropWhile_not isNameChar cs
      rwa [hc] at this
  · rintro ⟨w, rfl, ne, inside, ends, rfl⟩
    -- what comes after the name starts with another character, so nothing more is taken
    have stop : rest.takeWhile isNameChar = [] ∧ rest.dropWhile isNameChar = rest := by
      cases rest with
      | nil => exact ⟨rfl, rfl⟩
      | cons c rest => simp [ends c rfl]
    rw [name?, List.takeWhile_append_of_pos inside, List.dropWhile_append_of_pos inside, stop.1,
      stop.2, List.append_nil]
    cases w with
    | nil => exact absurd rfl ne
    | cons c w => rfl

/-- The front of a text up to the end of its first name: blanks and the name. -/
structure Front (front : List Char) (name : String) : Prop where
  chars : ∀ c ∈ front, isListChar c = true
  runs : ∀ more, EndsName more → nameRuns (front ++ more) = name :: nameRuns more
  reads : ∀ more, EndsName more → name? (skipBlanks (front ++ more)) = some (name, more)
  ne_nil : front ≠ []

/-- Blanks and the characters of a name make a front. That no blank is a character of names keeps
the two apart. -/
theorem front_of_append {blanks : List Char} (hb : ∀ c ∈ blanks, isBlank c = true) (ne : w ≠ [])
    (inside : ∀ c ∈ w, isNameChar c = true) : Front (blanks ++ w) (String.ofList w) where
  chars := by
    intro c hc
    rcases List.mem_append.1 hc with hc | hc
    · simp [isListChar, hb c hc]
    · simp [isListChar, inside c hc]
  runs := by
    intro more ends
    rw [List.append_assoc, nameRuns_append_of_blank hb, nameRuns_append ne inside ends]
  reads := by
    intro more ends
    obtain ⟨c, v, rfl⟩ := List.exists_cons_of_ne_nil ne
    -- the blanks end where the name begins
    have solid : StartsSolid (c :: v ++ more) :=
      startsSolid_cons (isBlank_of_isNameChar (inside c List.mem_cons_self)) (v ++ more)
    rw [List.append_assoc, skipBlanks_append hb solid]
    exact name?_eq_some_iff.2 ⟨c :: v, rfl, ne, inside, ends, rfl⟩
  ne_nil := by simp [ne]

/-- Reading a name takes off the front that ends with it. With this, names are taken off the text
and off its runs at once. -/
theorem exists_front (h : name? (skipBlanks cs) = some (name, rest)) :
    ∃ front, cs = front ++ rest ∧ Front front name ∧ EndsName rest := by
  obtain ⟨blanks, hb, split⟩ := exists_blanks cs
  obtain ⟨w, hw, ne, inside, ends, rfl⟩ := name?_eq_some_iff.1 h
  refine ⟨blanks ++ w, ?_, front_of_append hb ne inside, ends⟩
  rw [List.append_assoc, ← hw, ← split]

/-- A front with one more character of names is one, with a longer name. -/
theorem Front.extend {front : List Char} (h : Front front name) (hc : isNameChar c = true) :
    ∃ name, Front (front ++ [c]) name := by
  obtain ⟨blanks, hb, split⟩ := exists_blanks front
  -- with nothing behind it, the name is read as far as the front goes
  obtain ⟨w, hw, ne, inside, -, rfl⟩ := name?_eq_some_iff.1 (h.reads [] endsName_nil)
  rw [List.append_nil, List.append_nil] at hw
  rw [split, hw, List.append_assoc]
  refine ⟨_, front_of_append hb (by simp) (w := w ++ [c]) ?_⟩
  exact List.forall_mem_append.2 ⟨inside, by simpa using hc⟩

/-- Before the end of a text or another character than those of lists there is no name. Only these
two cases stop a reader of names. -/
theorem nothing_or_other_of_name?_eq_none (h : name? (skipBlanks cs) = none) :
    (∀ c ∈ cs, isBlank c = true) ∨
      ∃ blanks c rest, cs = blanks ++ c :: rest ∧ skipBlanks cs = c :: rest ∧
        (∀ c ∈ blanks, isBlank c = true) ∧ isListChar c = false := by
  obtain ⟨blanks, hb, split⟩ := exists_blanks cs
  cases hskip : skipBlanks cs with
  | nil =>
      rw [hskip, List.append_nil] at split
      exact .inl (split ▸ hb)
  | cons c rest =>
      rw [hskip] at split h
      refine .inr ⟨blanks, c, rest, split, rfl, hb, ?_⟩
      -- it is no blank, since these have been skipped, and would else start a name
      rw [isListChar, isBlank_of_skipBlanks_eq_cons hskip, Bool.false_or]
      cases named : isNameChar c with
      | false => rfl
      | true =>
          rw [name?, List.takeWhile_cons_of_pos named] at h
          cases h

/-- A list of names is taken apart at the end of its first name. What is left is a list of names
again. -/
theorem exists_of_nameRuns_eq_cons (chars : ∀ c ∈ cs, isListChar c = true) {names : List String}
    (h : nameRuns cs = name :: names) :
    ∃ rest, name? (skipBlanks cs) = some (name, rest) ∧ nameRuns rest = names ∧
      ∀ c ∈ rest, isListChar c = true := by
  cases hname : name? (skipBlanks cs) with
  | none =>
      rcases nothing_or_other_of_name?_eq_none hname with
        blank | ⟨blanks, c, rest, rfl, -, -, other⟩
      · rw [nameRuns_of_blank blank] at h
        cases h
      · -- a list of names holds no other character at which the reading could stop
        rw [chars c (by simp)] at other
        cases other
  | some r =>
      obtain ⟨name', rest⟩ := r
      obtain ⟨front, rfl, first, ends⟩ := exists_front hname
      rw [first.runs rest ends] at h
      obtain ⟨rfl, runs⟩ := List.cons.inj h
      exact ⟨rest, rfl, runs, fun c hc => chars c (List.mem_append_right _ hc)⟩

/-- Without names, a list of names is blank. -/
theorem blank_of_nameRuns_eq_nil (chars : ∀ c ∈ cs, isListChar c = true) (h : nameRuns cs = []) :
    ∀ c ∈ cs, isBlank c = true := by
  cases hname : name? (skipBlanks cs) with
  | none =>
      rcases nothing_or_other_of_name?_eq_none hname with
        blank | ⟨blanks, c, rest, rfl, -, -, other⟩
      · exact blank
      · rw [chars c (by simp)] at other
        cases other
  | some r =>
      obtain ⟨name', rest⟩ := r
      obtain ⟨front, rfl, first, ends⟩ := exists_front hname
      rw [first.runs rest ends] at h
      cases h

end EqualityLogic.Text
