/-!
# Lines and words

A line ends at a line feed, which is not part of it, nor is a carriage return right before one; the
last line needs no line feed. A word is a longest run of characters other than ASCII blanks.

`InLines` and `InWords` say how a text is put together of its lines or its words and of what stands
between them. This leaves no choice: a text has the lines that `linesOf` finds and no others
(`linesOf_eq_iff`), and the same goes for words (`wordsOf_eq_iff`). Both proofs cut the text at the
first line feed or at the first blank, behind which the rest is split by itself.
-/

set_option autoImplicit false

namespace EqualityLogic.Text

/-- The lines of a text. -/
def linesOf : List Char → List (List Char)
  | [] => []
  | '\n' :: cs => [] :: linesOf cs
  | '\r' :: '\n' :: cs => [] :: linesOf cs
  | c :: cs =>
    match linesOf cs with
    | [] => [[c]]
    | l :: ls => (c :: l) :: ls

/-- The lines of a string. -/
def lines (s : String) : List String := (linesOf s.toList).map String.ofList

/-- The characters that separate words: space, tabulator, line feed, form feed, carriage return. -/
def isAsciiBlank (c : Char) : Bool :=
  c = ' ' || c = '\t' || c = '\n' || c = '\x0c' || c = '\r'

/-- The words of a text. -/
def wordsOf : List Char → List (List Char)
  | [] => []
  | [c] => if isAsciiBlank c then [] else [[c]]
  | c :: d :: cs =>
    if isAsciiBlank c then wordsOf (d :: cs)
    else if isAsciiBlank d then [c] :: wordsOf (d :: cs)
    else
      match wordsOf (d :: cs) with
      | [] => [[c]]
      | w :: ws => (c :: w) :: ws

/-- The words of a string. -/
def words (s : String) : List String := (wordsOf s.toList).map String.ofList

/-! ### What the lines of a text are -/

/-- The text consists of the lines, in their order. Behind each of them stands a line feed, or a
carriage return and a line feed, and the last one may do without. No line holds a line feed, so the
lines cannot be told apart in any other way; a line that a bare line feed ends does not end in a
carriage return, since that would belong to its end. -/
inductive InLines : List Char → List (List Char) → Prop
  /-- An empty text has no line. -/
  | nil : InLines [] []
  /-- What comes behind the last line feed is a line, unless it is nothing. -/
  | last {l : List Char} (noFeed : '\n' ∉ l) (ne : l ≠ []) : InLines l [l]
  /-- A line feed ends a line. -/
  | feed {l cs : List Char} {ls : List (List Char)} (noFeed : '\n' ∉ l)
      (noReturn : l.getLast? ≠ some '\r') (rest : InLines cs ls) :
      InLines (l ++ '\n' :: cs) (l :: ls)
  /-- A carriage return before the line feed belongs to the end of the line. -/
  | returnFeed {l cs : List Char} {ls : List (List Char)} (noFeed : '\n' ∉ l)
      (rest : InLines cs ls) : InLines (l ++ '\r' :: '\n' :: cs) (l :: ls)

/-- A character that ends no line goes in front of the first line of what follows it. This is the
last clause of `linesOf`, whose pattern leaves out the line feed and the carriage return before
one. -/
theorem linesOf_cons {c : Char} {cs : List Char} (notFeed : c ≠ '\n')
    (notReturn : c = '\r' → cs.head? ≠ some '\n') :
    linesOf (c :: cs) =
      match linesOf cs with
      | [] => [[c]]
      | l :: ls => (c :: l) :: ls := by
  rw [linesOf]
  · exact notFeed
  · intro ds hc hcs
    subst hcs
    exact notReturn hc rfl

/-- A text without a line feed is one line, even if it ends in a carriage return. -/
theorem linesOf_of_not_mem {l : List Char} (noFeed : '\n' ∉ l) (ne : l ≠ []) :
    linesOf l = [l] := by
  induction l with
  | nil => exact absurd rfl ne
  | cons c l ih =>
    obtain ⟨hc, hl⟩ := not_or.1 (mt List.mem_cons.2 noFeed)
    have notFeed : l.head? ≠ some '\n' := fun h => hl (List.mem_of_head? h)
    rw [linesOf_cons (Ne.symm hc) fun _ => notFeed]
    cases l with
    | nil => rfl
    | cons d l => rw [ih hl (List.cons_ne_nil d l)]

/-- Up to its first line feed a text is one line, and the rest is split by itself. The carriage
return that may stand before the line feed is the case of `linesOf_append_returnFeed`. -/
theorem linesOf_append_feed {l : List Char} (noFeed : '\n' ∉ l)
    (noReturn : l.getLast? ≠ some '\r') (cs : List Char) :
    linesOf (l ++ '\n' :: cs) = l :: linesOf cs := by
  induction l with
  | nil => rfl
  | cons c l ih =>
    obtain ⟨hc, hl⟩ := not_or.1 (mt List.mem_cons.2 noFeed)
    cases l with
    | nil =>
      have notReturn : c ≠ '\r' := by simpa using noReturn
      show linesOf (c :: '\n' :: cs) = _
      rw [linesOf_cons (Ne.symm hc) fun h => absurd h notReturn]
      rfl
    | cons d l =>
      have notFeed : d ≠ '\n' := fun h => hl (h ▸ List.mem_cons_self)
      show linesOf (c :: (d :: l ++ '\n' :: cs)) = _
      rw [linesOf_cons (Ne.symm hc) fun _ => by simpa using notFeed,
        ih hl (by rwa [List.getLast?_cons_cons] at noReturn)]

/-- The carriage return before a line feed is no part of the line. Only the last one goes: the line
itself may hold others, and even end in one. -/
theorem linesOf_append_returnFeed {l : List Char} (noFeed : '\n' ∉ l) (cs : List Char) :
    linesOf (l ++ '\r' :: '\n' :: cs) = l :: linesOf cs := by
  induction l with
  | nil => rfl
  | cons c l ih =>
    obtain ⟨hc, hl⟩ := not_or.1 (mt List.mem_cons.2 noFeed)
    have notFeed : (l ++ '\r' :: '\n' :: cs).head? ≠ some '\n' := by
      cases l with
      | nil => simp
      | cons d l => simpa using fun h : d = '\n' => hl (h ▸ List.mem_cons_self)
    show linesOf (c :: (l ++ '\r' :: '\n' :: cs)) = _
    rw [linesOf_cons (Ne.symm hc) fun _ => notFeed, ih hl]

/-- Whatever lines a text consists of, they are those that `linesOf` finds. The induction follows
the way in which the text was put together. -/
theorem InLines.linesOf_eq {cs : List Char} {ls : List (List Char)} (h : InLines cs ls) :
    linesOf cs = ls := by
  induction h with
  | nil => rfl
  | last noFeed ne => exact linesOf_of_not_mem noFeed ne
  | feed noFeed noReturn _ ih => rw [linesOf_append_feed noFeed noReturn, ih]
  | returnFeed noFeed _ ih => rw [linesOf_append_returnFeed noFeed, ih]

/-- Every text consists of the lines that are found. The text is cut at its first line feed; what
comes before that is a line, up to a carriage return, and what comes behind it is shorter. -/
theorem inLines_linesOf (cs : List Char) : InLines cs (linesOf cs) := by
  by_cases h : '\n' ∈ cs
  · obtain ⟨l, rest, e, noFeed⟩ := List.eq_append_cons_of_mem h
    have shorter : rest.length < cs.length := by
      rw [e, List.length_append, List.length_cons]
      omega
    have ih := inLines_linesOf rest
    subst e
    by_cases atEnd : l.getLast? = some '\r'
    · -- the line is what is left without the carriage return
      obtain ⟨k, rfl⟩ := List.getLast?_eq_some_iff.1 atEnd
      have noFeed' : '\n' ∉ k := fun mem => noFeed (List.mem_append_left _ mem)
      rw [List.append_assoc]
      show InLines (k ++ '\r' :: '\n' :: rest) (linesOf (k ++ '\r' :: '\n' :: rest))
      rw [linesOf_append_returnFeed noFeed']
      exact .returnFeed noFeed' ih
    · rw [linesOf_append_feed noFeed atEnd]
      exact .feed noFeed atEnd ih
  · by_cases ne : cs = []
    · subst ne
      exact .nil
    · rw [linesOf_of_not_mem h ne]
      exact .last h ne
termination_by cs.length

/-- A text has the lines that it consists of, and no others. -/
theorem linesOf_eq_iff {cs : List Char} {ls : List (List Char)} :
    linesOf cs = ls ↔ InLines cs ls := by
  constructor
  · intro h
    rw [← h]
    exact inLines_linesOf cs
  · exact InLines.linesOf_eq

/-- No line holds a line feed, so a reader of lines meets none. A carriage return may stand inside a
line, where no line feed follows it. -/
theorem not_mem_of_mem_linesOf {cs l : List Char} (mem : l ∈ linesOf cs) : '\n' ∉ l := by
  have inLines := inLines_linesOf cs
  generalize linesOf cs = ls at mem inLines
  induction inLines with
  | nil => cases mem
  | last noFeed _ =>
    rw [List.mem_singleton.1 mem]
    exact noFeed
  | feed noFeed _ _ ih | returnFeed noFeed _ ih =>
    rcases List.mem_cons.1 mem with rfl | mem
    · exact noFeed
    · exact ih mem

/-! ### What the words of a text are -/

/-- The text consists of the words, in their order, and of blanks. A word has a character, holds no
blank, and is not followed by one of its own kind: a blank ends it, or the text does. So two words
never stand side by side, and the words cannot be told apart in any other way. -/
inductive InWords : List Char → List (List Char) → Prop
  /-- An empty text has no word. -/
  | nil : InWords [] []
  /-- A blank is part of no word. -/
  | blank {c : Char} {cs : List Char} {ws : List (List Char)} (blank : isAsciiBlank c = true)
      (rest : InWords cs ws) : InWords (c :: cs) ws
  /-- The last word may go on to the end. -/
  | last {w : List Char} (ne : w ≠ []) (solid : ∀ c ∈ w, isAsciiBlank c = false) : InWords w [w]
  /-- A blank ends a word. -/
  | word {w cs : List Char} {b : Char} {ws : List (List Char)} (ne : w ≠ [])
      (solid : ∀ c ∈ w, isAsciiBlank c = false) (blank : isAsciiBlank b = true)
      (rest : InWords cs ws) : InWords (w ++ b :: cs) (w :: ws)

/-- A blank in front of a text is passed over. -/
theorem wordsOf_cons_blank {c : Char} (blank : isAsciiBlank c = true) (cs : List Char) :
    wordsOf (c :: cs) = wordsOf cs := by
  cases cs with
  | nil => exact if_pos blank
  | cons d cs => exact if_pos blank

/-- A text without blanks is one word. -/
theorem wordsOf_of_solid {w : List Char} (ne : w ≠ []) (solid : ∀ c ∈ w, isAsciiBlank c = false) :
    wordsOf w = [w] := by
  induction w with
  | nil => exact absurd rfl ne
  | cons c w ih =>
    have hc := solid c List.mem_cons_self
    have hw : ∀ d ∈ w, isAsciiBlank d = false := fun d hd => solid d (List.mem_cons_of_mem c hd)
    cases w with
    | nil => simp [wordsOf, hc]
    | cons d w =>
      have hd := hw d List.mem_cons_self
      simp [wordsOf, hc, hd, ih (List.cons_ne_nil d w) hw]

/-- Up to its first blank a text is one word, unless it starts with the blank, and the rest is split
by itself. -/
theorem wordsOf_append_blank {w : List Char} (ne : w ≠ [])
    (solid : ∀ c ∈ w, isAsciiBlank c = false) {b : Char} (blank : isAsciiBlank b = true)
    (cs : List Char) : wordsOf (w ++ b :: cs) = w :: wordsOf cs := by
  induction w with
  | nil => exact absurd rfl ne
  | cons c w ih =>
    have hc := solid c List.mem_cons_self
    have hw : ∀ d ∈ w, isAsciiBlank d = false := fun d hd => solid d (List.mem_cons_of_mem c hd)
    cases w with
    | nil =>
      show wordsOf (c :: b :: cs) = _
      simp [wordsOf, hc, blank, wordsOf_cons_blank blank]
    | cons d w =>
      have hd := hw d List.mem_cons_self
      have rest := ih (List.cons_ne_nil d w) hw
      rw [List.cons_append] at rest
      show wordsOf (c :: d :: (w ++ b :: cs)) = _
      simp [wordsOf, hc, hd, rest]

/-- Whatever words a text consists of, they are those that `wordsOf` finds, however many blanks
stand between them. -/
theorem InWords.wordsOf_eq {cs : List Char} {ws : List (List Char)} (h : InWords cs ws) :
    wordsOf cs = ws := by
  induction h with
  | nil => rfl
  | blank blank _ ih => rw [wordsOf_cons_blank blank, ih]
  | last ne solid => exact wordsOf_of_solid ne solid
  | word ne solid blank _ ih => rw [wordsOf_append_blank ne solid blank, ih]

/-- Every text consists of the words that are found. It starts with a blank, or with a run of other
characters, up to the first blank or to the end. -/
theorem inWords_wordsOf (cs : List Char) : InWords cs (wordsOf cs) := by
  cases h : cs.find? isAsciiBlank with
  | some b =>
    obtain ⟨blank, w, rest, e, solid⟩ := List.find?_eq_some_iff_append.1 h
    replace solid : ∀ c ∈ w, isAsciiBlank c = false := by simpa using solid
    have shorter : rest.length < cs.length := by
      rw [e, List.length_append, List.length_cons]
      omega
    have ih := inWords_wordsOf rest
    subst e
    cases w with
    | nil =>
      show InWords (b :: rest) (wordsOf (b :: rest))
      rw [wordsOf_cons_blank blank]
      exact .blank blank ih
    | cons c w =>
      rw [wordsOf_append_blank (List.cons_ne_nil c w) solid blank]
      exact .word (List.cons_ne_nil c w) solid blank ih
  | none =>
    have solid : ∀ c ∈ cs, isAsciiBlank c = false := by simpa using h
    by_cases ne : cs = []
    · subst ne
      exact .nil
    · rw [wordsOf_of_solid ne solid]
      exact .last ne solid
termination_by cs.length

/-- A text has the words that it consists of, and no others. -/
theorem wordsOf_eq_iff {cs : List Char} {ws : List (List Char)} :
    wordsOf cs = ws ↔ InWords cs ws := by
  constructor
  · intro h
    rw [← h]
    exact inWords_wordsOf cs
  · exact InWords.wordsOf_eq

end EqualityLogic.Text
