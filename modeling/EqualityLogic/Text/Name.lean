import EqualityLogic.Text.Character

/-!
# Reading names

A name is a longest run of letters, numbers, underscores, dots and apostrophes. Names are read off
the front of a text with blanks skipped between them.

Blanks are also taken off both ends of a line (`trim`). What remains is the part of the line between
them that neither starts nor ends with a blank, and there is only one such part (`trim_eq_iff`).
-/

set_option autoImplicit false

namespace EqualityLogic.Text

/-- Whether a character may stand in a name. -/
def isNameChar (c : Char) : Bool :=
  isAlphanumeric c || c = '_' || c = '.' || c = '\x27'

/-- A text without the blanks at its front. -/
def skipBlanks (cs : List Char) : List Char := cs.dropWhile isBlank

/-- A text without the blanks at either end. -/
def trim (cs : List Char) : List Char := (skipBlanks (skipBlanks cs).reverse).reverse

/-- The name at the front of a text, and what follows it. -/
def name? (cs : List Char) : Option (String × List Char) :=
  match cs.takeWhile isNameChar with
  | [] => none
  | name => some (String.ofList name, cs.dropWhile isNameChar)

/-! ### Blanks around a text -/

/-- Skipping blanks makes no text longer. A reader that skips them before each name gets nearer to
the end with every name that it takes. -/
theorem length_skipBlanks_le (cs : List Char) : (skipBlanks cs).length ≤ cs.length :=
  (List.dropWhile_suffix isBlank).length_le

/-- A text is its blanks, and what is left without them. -/
theorem exists_blanks (cs : List Char) :
    ∃ blanks, (∀ c ∈ blanks, isBlank c = true) ∧ cs = blanks ++ skipBlanks cs :=
  ⟨_, List.all_eq_true.1 List.all_takeWhile, List.takeWhile_append_dropWhile.symm⟩

/-- What is left starts with no blank, or there would have been one more to skip. -/
theorem isBlank_of_skipBlanks_eq_cons {cs rest : List Char} {c : Char}
    (h : skipBlanks cs = c :: rest) : isBlank c = false := by
  have := List.head?_dropWhile_not isBlank cs
  rwa [show cs.dropWhile isBlank = c :: rest from h] at this

/-- Of a text of blanks nothing is left. -/
theorem skipBlanks_of_blank {cs : List Char} (h : ∀ c ∈ cs, isBlank c = true) :
    skipBlanks cs = [] := by
  have dropped : (cs ++ []).dropWhile isBlank = [].dropWhile isBlank :=
    List.dropWhile_append_of_pos h
  rwa [List.append_nil] at dropped

/-- The text does not start with a blank. -/
def StartsSolid (cs : List Char) : Prop := ∀ c, cs.head? = some c → isBlank c = false

/-- A text that goes on does not start otherwise. -/
theorem StartsSolid.of_append {cs more : List Char} (h : StartsSolid (cs ++ more)) :
    StartsSolid cs := by
  intro c hc
  cases cs with
  | nil => cases hc
  | cons d cs => exact h c hc

/-- A text that starts with another character does not start with a blank. -/
theorem startsSolid_cons {c : Char} (solid : isBlank c = false) (cs : List Char) :
    StartsSolid (c :: cs) := by
  rintro d ⟨⟩
  exact solid

/-- What is left when blanks have been skipped does not start with one. -/
theorem startsSolid_skipBlanks (cs : List Char) : StartsSolid (skipBlanks cs) := by
  intro c h
  obtain ⟨rest, e⟩ := List.head?_eq_some_iff.1 h
  exact isBlank_of_skipBlanks_eq_cons e

/-- Blanks are skipped as far as they go, and no further if what follows starts with another
character. -/
theorem skipBlanks_append {front cs : List Char} (hf : ∀ c ∈ front, isBlank c = true)
    (solid : StartsSolid cs) : skipBlanks (front ++ cs) = cs := by
  rw [skipBlanks, List.dropWhile_append_of_pos hf]
  cases cs with
  | nil => rfl
  | cons c cs => exact List.dropWhile_cons_of_neg (by simp [solid c rfl])

/-- The text is `t` with blanks around it, and `t` neither starts nor ends with a blank. Of a text
of blanks alone, `t` is the empty text. -/
structure TrimsTo (cs t : List Char) : Prop where
  /-- There is nothing but blanks around `t`. -/
  around : ∃ front back, cs = front ++ t ++ back ∧ (∀ c ∈ front, isBlank c = true) ∧
    ∀ c ∈ back, isBlank c = true
  /-- It does not start with a blank. -/
  starts : StartsSolid t
  /-- It does not end with a blank. -/
  ends : StartsSolid t.reverse

/-- The blanks around a text can be taken off in one way only. The ends of `t` stop the skipping
from either side, unless `t` is empty, and then the whole text is skipped from the front. -/
theorem TrimsTo.trim_eq {cs t : List Char} (h : TrimsTo cs t) : trim cs = t := by
  obtain ⟨front, back, rfl, hf, hb⟩ := h.around
  cases t with
  | nil =>
    have blank : ∀ c ∈ front ++ [] ++ back, isBlank c = true := by
      rw [List.append_nil]
      exact List.forall_mem_append.2 ⟨hf, hb⟩
    rw [trim, skipBlanks_of_blank blank]
    rfl
  | cons c t =>
    have starts : StartsSolid (c :: t ++ back) := h.starts
    have hb' : ∀ c ∈ back.reverse, isBlank c = true := by simpa using hb
    rw [trim, List.append_assoc, skipBlanks_append hf starts, List.reverse_append,
      skipBlanks_append hb' h.ends, List.reverse_reverse]

/-- Trimming takes blanks off, and leaves none at either end. -/
theorem trimsTo_trim (cs : List Char) : TrimsTo cs (trim cs) := by
  obtain ⟨front, hf, split⟩ := exists_blanks cs
  -- the blanks at the end are those at the front of the reversed text
  obtain ⟨back, hb, split'⟩ := exists_blanks (skipBlanks cs).reverse
  have kept : skipBlanks cs = trim cs ++ back.reverse := by
    rw [trim, ← List.reverse_append, ← split', List.reverse_reverse]
  constructor
  · refine ⟨front, back.reverse, ?_, hf, by simpa using hb⟩
    rw [List.append_assoc, ← kept]
    exact split
  · have starts := startsSolid_skipBlanks cs
    rw [kept] at starts
    exact starts.of_append
  · rw [trim, List.reverse_reverse]
    exact startsSolid_skipBlanks _

/-- A text without the blanks at either end is what stands between them, and nothing else. So
whatever is said of a trimmed text can be said of the text, with blanks around it. -/
theorem trim_eq_iff {cs t : List Char} : trim cs = t ↔ TrimsTo cs t := by
  constructor
  · intro h
    rw [← h]
    exact trimsTo_trim cs
  · exact TrimsTo.trim_eq

/-! ### Names -/

/-- A name takes at least one character off the text. Names are taken off one after the other, and
so this comes to an end. -/
theorem length_lt_of_name? {cs rest : List Char} {name : String}
    (h : name? cs = some (name, rest)) : rest.length < cs.length := by
  rw [name?] at h
  split at h
  · cases h
  · next hne =>
    cases h
    have hsplit : (cs.takeWhile isNameChar ++ cs.dropWhile isNameChar).length = cs.length := by
      rw [List.takeWhile_append_dropWhile]
    have hpos := List.length_pos_iff.2 hne
    rw [List.length_append] at hsplit
    omega

end EqualityLogic.Text
