import EqualityLogic.Dimacs
import EqualityLogic.Proofs.Cnf.Numbers

/-!
# Bodies in DIMACS format as streams of words

The numbers of a body are read word by word, with the unfinished clause, the finished ones and the
largest variable carried along from line to line. This module says what the loop comes to for the
words alone, whatever lines they are on.

Two facts are behind it. What the loop has read so far determines what it carries (`Body.Reads`),
since the numbers of a formula can be taken apart again at the zeros (`splitOn_written`). And of the
words to come it looks at those up to the last zero that it waits for, and at no others
(`wordsRead`). So it comes to an end just if these words are numerals (`readBody_eq_ok_iff`). What
one word does is said once (`ReadsWord`), and the proofs about the loop go by that.

Of the lines nothing is left but this: a complaint about a word that is no number quotes its line
(`readBody_withoutLine`, `readBody_eq_badClauseLine_iff`).
-/

set_option autoImplicit false

namespace EqualityLogic

/-- The numbers of a formula in the order in which they are written: the literals of each clause,
and a zero behind them. -/
def Formula.written (f : Formula) : List Int := f.flatMap fun c => c.toNumbers ++ [0]

/-- A computation in two parts succeeds just if both parts do. -/
theorem bind_eq_ok {ε α β : Type} {x : Except ε α} {f : α → Except ε β} {b : β} :
    x.bind f = .ok b ↔ ∃ a, x = .ok a ∧ f a = .ok b := by
  cases x <;> simp [Except.bind]

namespace Dimacs

/-! ### The numbers of a formula -/

/-- The numbers of clauses, with those of one more clause without its zero, are taken apart at the
zeros. No literal is a zero, so no clause is cut in two. -/
theorem splitOn_written (f : Formula) (c : Clause) :
    (f.written ++ c.toNumbers).splitOn 0 = f.map Clause.toNumbers ++ [c.toNumbers] := by
  have nonzero : ∀ (d : Clause), ∀ n ∈ d.toNumbers, (n == 0) = false := by
    intro d n hn
    rw [beq_eq_false_iff_ne]
    rintro rfl
    exact d.zero_notMem_toNumbers hn
  induction f with
  | nil => exact List.splitOnP_eq_singleton (nonzero c)
  | cons d f ih =>
      -- the first clause ends at the first zero, as none of its numbers is one
      have split : Formula.written (d :: f) ++ c.toNumbers =
          d.toNumbers ++ 0 :: (Formula.written f ++ c.toNumbers) := by
        simp [Formula.written]
      rw [split, List.splitOn, List.splitOnP_append_cons_of_forall_mem (nonzero d) 0 rfl]
      exact congrArg _ ih

/-- So they determine the clauses, the finished ones and the one under way. -/
theorem written_inj {f g : Formula} {c d : Clause}
    (h : f.written ++ c.toNumbers = g.written ++ d.toNumbers) : f = g ∧ c = d := by
  have split := congrArg (List.splitOn 0) h
  rw [splitOn_written, splitOn_written] at split
  obtain ⟨hf, hc⟩ := List.append_inj' split rfl
  exact ⟨Formula.toNumbers_inj hf, Clause.toNumbers_inj (List.singleton_inj.1 hc)⟩

/-- There is a zero for each clause, and none among the numbers of a clause. So counting zeros is
counting clauses. -/
theorem count_zero_written (f : Formula) (c : Clause) :
    (f.written ++ c.toNumbers).count 0 = f.length := by
  have none_ : ∀ d : Clause, d.toNumbers.count 0 = 0 := fun d =>
    List.count_eq_zero.2 d.zero_notMem_toNumbers
  induction f with
  | nil => exact none_ c
  | cons d f ih =>
      have split : Formula.written (d :: f) = d.toNumbers ++ [0] ++ Formula.written f := rfl
      rw [split, List.append_assoc, List.count_append, List.count_append, none_, ih,
        List.length_cons]
      simp only [List.count_singleton_self]
      omega

/-- The largest absolute value of some numbers. -/
def largestOf (ns : List Int) : Nat := (ns.map Int.natAbs).foldr max 0

/-- The largest of numbers in two parts is the larger of the two largest. -/
theorem largestOf_append (ns ms : List Int) :
    largestOf (ns ++ ms) = max (largestOf ns) (largestOf ms) := by
  induction ns with
  | nil => simp [largestOf]
  | cons n ns ih =>
      simp only [largestOf, List.cons_append, List.map_cons, List.foldr_cons] at ih ⊢
      omega

/-- The largest of some numbers is no more than a bound if all of them are. The sign of a number
does not matter to that. -/
theorem largestOf_le {ns : List Int} {b : Nat} : largestOf ns ≤ b ↔ ∀ n ∈ ns, n.natAbs ≤ b := by
  induction ns with
  | nil => simp [largestOf]
  | cons n ns ih =>
      rw [List.forall_mem_cons, ← ih]
      exact Nat.max_le

/-! ### The body -/

/-- A body at the end of its clause. -/
def Body.endClause (b : Body) : Body := { b with clauses := b.clauses ++ [b.clause], clause := [] }

/-- The clause under way counts as finished once it has ended. -/
theorem Body.length_endClause (b : Body) :
    b.endClause.clauses.length = b.clauses.length + 1 := List.length_append

/-- A body with one more literal in its clause. -/
def Body.addLiteral (b : Body) (n : Int) (nonzero : n ≠ 0) : Body :=
  { b with clause := b.clause ++ [⟨n, nonzero⟩], largest := max b.largest n.natAbs }

/-- What one more word does to a body, whatever its line and the words after it. -/
inductive ReadsWord (wanted : Nat) (b : Body) (w : String) : Prop
  | notNumber (none_ : Text.integer? w = none)
      (read : ∀ line ws, readBody wanted b ((w, line) :: ws) = .error (.badClauseLine line))
  | zero (value : Text.integer? w = some 0)
      (read : ∀ line ws, readBody wanted b ((w, line) :: ws) =
        if b.clauses.length + 1 = wanted then .ok b.endClause else readBody wanted b.endClause ws)
  | tooLarge {n : Int} (value : Text.integer? w = some n) (large : maxVariable < n.natAbs)
      (read : ∀ line ws, readBody wanted b ((w, line) :: ws) = .error (.variableOutOfRange w))
  | literal {n : Int} (value : Text.integer? w = some n) (nonzero : n ≠ 0)
      (inRange : n.natAbs ≤ maxVariable)
      (read : ∀ line ws, readBody wanted b ((w, line) :: ws) =
        readBody wanted (b.addLiteral n nonzero) ws)

/-- Every word does one of the four. This is where the loop is unfolded, and the proofs about it
below go by the cases. -/
theorem readsWord (wanted : Nat) (b : Body) (w : String) : ReadsWord wanted b w := by
  cases value : Text.integer? w with
  | none => exact .notNumber value fun line ws => by simp only [readBody, value]
  | some n =>
      by_cases zero : n = 0
      · subst zero
        refine .zero value fun line ws => ?_
        simp only [readBody, value, dite_true, List.length_append, List.length_singleton]
        rfl
      · by_cases large : maxVariable < n.natAbs
        · refine .tooLarge value large fun line ws => ?_
          simp only [readBody, value, zero, large, dite_false, if_true]
        · refine .literal value zero (Nat.le_of_not_lt large) fun line ws => ?_
          simp only [readBody, value, zero, large, dite_false, if_false]
          rfl

/-- What is carried once some numbers have been read. -/
structure Body.Reads (b : Body) (ns : List Int) : Prop where
  written : b.clauses.written ++ b.clause.toNumbers = ns
  largest : b.largest = largestOf ns

namespace Body.Reads

/-- Nothing is carried before the first number. -/
theorem empty : Body.Reads {} [] := ⟨rfl, rfl⟩

variable {b b' : Body} {ns : List Int}

/-- A zero ends the clause under way. What has been read so far has one more number. -/
theorem zero (h : b.Reads ns) : b.endClause.Reads (ns ++ [0]) where
  written := by
    rw [← h.written]
    simp [endClause, Formula.written, Clause.toNumbers]
  largest := by
    rw [largestOf_append, ← h.largest]
    simp [endClause, largestOf]

/-- Any other number is a literal of it. -/
theorem literal (h : b.Reads ns) (n : Int) (nonzero : n ≠ 0) :
    (b.addLiteral n nonzero).Reads (ns ++ [n]) where
  written := by
    rw [← h.written]
    simp [addLiteral, Clause.toNumbers]
  largest := by
    rw [largestOf_append, ← h.largest]
    simp [addLiteral, largestOf]

/-- The numbers determine what is carried, so the loop has no memory of how they were spread over
lines. -/
theorem unique (h : b.Reads ns) (h' : b'.Reads ns) : b = b' := by
  obtain ⟨clauses, clause, largest⟩ := b
  obtain ⟨clauses', clause', largest'⟩ := b'
  -- the clauses end at the zeros, so both bodies cut the numbers in the same places
  obtain ⟨rfl, rfl⟩ := written_inj (h.written.trans h'.written.symm)
  obtain rfl : largest = largest' := h.largest.trans h'.largest.symm
  rfl

/-- What is carried after some numbers is all that may be. -/
theorem iff_eq (h : b.Reads ns) : b'.Reads ns ↔ b = b' :=
  ⟨h.unique, fun e => e ▸ h⟩

/-- A clause is finished for each zero. The loop waits for clauses, and `wordsRead` for zeros. -/
theorem length_clauses (h : b.Reads ns) : b.clauses.length = ns.count 0 := by
  rw [← h.written, count_zero_written]

end Body.Reads

/-- Some body is carried after any numbers, which the loop would get to if it read them. -/
theorem exists_reads (ns : List Int) : ∃ b : Body, b.Reads ns := by
  -- read on from any body, so that the induction can go through the numbers
  have more : ∀ (ms : List Int) {b : Body} {ns}, b.Reads ns → ∃ b' : Body, b'.Reads (ns ++ ms) := by
    intro ms
    induction ms with
    | nil =>
        intro b ns reads
        exact ⟨b, (List.append_nil ns).symm ▸ reads⟩
    | cons m ms ih =>
        intro b ns reads
        rw [← List.singleton_append, ← List.append_assoc]
        by_cases zero : m = 0
        · exact ih (zero ▸ reads.zero)
        · exact ih (reads.literal m zero)
  exact more ns .empty

/-- Words that are the numerals of numbers, none of which is too large for a variable. -/
structure Numerals (words : List String) (ns : List Int) : Prop where
  values : words.map Text.integer? = ns.map some
  inRange : ∀ n ∈ ns, n.natAbs ≤ maxVariable

namespace Numerals

variable {words : List String} {ns : List Int} {w : String} {n : Int}

/-- No words are the numerals of no numbers. -/
theorem nil : Numerals [] [] := ⟨rfl, nofun⟩

/-- A numeral in front of numerals is one more. -/
theorem cons (value : Text.integer? w = some n) (inRange : n.natAbs ≤ maxVariable)
    (h : Numerals words ns) : Numerals (w :: words) (n :: ns) where
  values := by rw [List.map_cons, List.map_cons, value, h.values]
  inRange := List.forall_mem_cons.2 ⟨inRange, h.inRange⟩

/-- No words are the numerals of nothing else. -/
theorem nil_left (h : Numerals [] ns) : ns = [] := by
  have := congrArg List.length h.values
  simpa using this.symm

/-- The first of some numerals has a number, and so have the others. Numerals are taken apart as
lists are. -/
theorem exists_of_cons (h : Numerals (w :: words) ns) :
    ∃ m ms, ns = m :: ms ∧ Text.integer? w = some m ∧ m.natAbs ≤ maxVariable ∧
      Numerals words ms := by
  cases ns with
  | nil => cases h.values
  | cons m ms =>
      obtain ⟨value, values⟩ := List.cons.inj h.values
      obtain ⟨first, others⟩ := List.forall_mem_cons.1 h.inRange
      exact ⟨m, ms, rfl, value, first, values, others⟩

/-- A word that is no number is no numeral. -/
theorem not_cons (none_ : Text.integer? w = none) : ¬ Numerals (w :: words) ns := by
  intro h
  obtain ⟨m, _, -, value, -⟩ := h.exists_of_cons
  rw [none_] at value
  cases value

/-- To say something of the numbers of no words is to say it of no numbers. -/
theorem exists_nil_iff {P : List Int → Prop} : (∃ ms, Numerals [] ms ∧ P ms) ↔ P [] := by
  constructor
  · rintro ⟨ms, numerals, h⟩
    rwa [numerals.nil_left] at h
  · intro h
    exact ⟨[], .nil, h⟩

/-- The first of some numerals stands for the first number. With the lemma above it takes the words
one by one off a statement about their numbers. -/
theorem exists_cons_iff {P : List Int → Prop} (value : Text.integer? w = some n) :
    (∃ ms, Numerals (w :: words) ms ∧ P ms) ↔
      n.natAbs ≤ maxVariable ∧ ∃ ms, Numerals words ms ∧ P (n :: ms) := by
  constructor
  · rintro ⟨ms, numerals, h⟩
    obtain ⟨m, ms, rfl, value', inRange, others⟩ := numerals.exists_of_cons
    obtain rfl : n = m := Option.some.inj (value.symm.trans value')
    exact ⟨inRange, ms, others, h⟩
  · rintro ⟨inRange, ms, numerals, h⟩
    exact ⟨n :: ms, numerals.cons value inRange, h⟩

end Numerals

/-- Whether a word is a numeral of zero. -/
def isZero (w : String) : Bool := Text.integer? w == some 0

/-- A numeral is one of zero just if its number is. -/
theorem isZero_iff {w : String} {n : Int} (value : Text.integer? w = some n) :
    isZero w = true ↔ n = 0 := by
  rw [isZero, value]
  simp

/-- The words up to zero number `k`, or all words if there are fewer zeros. -/
def wordsRead : Nat → List String → List String
  | 0, _ => []
  | _ + 1, [] => []
  | k + 1, w :: ws => w :: wordsRead (if isZero w then k else k + 1) ws

/-- Of no words, none is read. -/
theorem wordsRead_nil (k : Nat) : wordsRead k [] = [] := by cases k <;> rfl

/-- With no zero to wait for, none is read either. -/
theorem wordsRead_zero (ws : List String) : wordsRead 0 ws = [] := by cases ws <;> rfl

/-- What is read are words from the front, without a gap. The rest is never looked at. -/
theorem wordsRead_prefix (k : Nat) (ws : List String) : wordsRead k ws <+: ws := by
  induction ws generalizing k with
  | nil => cases k <;> exact List.prefix_rfl
  | cons w ws ih =>
      cases k with
      | zero => exact List.nil_prefix
      | succ k => exact List.cons_prefix_cons.2 ⟨rfl, ih _⟩

/-- Words with enough zeros among them are all that is read, whatever follows. So words behind the
last zero have no effect. -/
theorem wordsRead_append {k : Nat} {ws : List String} (enough : k ≤ ws.countP isZero)
    (more : List String) : wordsRead k (ws ++ more) = wordsRead k ws := by
  induction ws generalizing k with
  | nil =>
      obtain rfl : k = 0 := Nat.le_zero.1 enough
      rw [wordsRead_zero, wordsRead_zero]
  | cons w ws ih =>
      cases k with
      | zero => rfl
      | succ k =>
          rw [List.countP_cons] at enough
          simp only [List.cons_append, wordsRead]
          rw [ih]
          split <;> simp_all

/-- Up to a zero that is the last one waited for, everything is read. The numbers of a formula end
in such a zero. -/
theorem wordsRead_eq_self {ws : List String} {w : String} (zero : isZero w = true) :
    wordsRead (ws.countP isZero + 1) (ws ++ [w]) = ws ++ [w] := by
  induction ws with
  | nil => simp [wordsRead, zero]
  | cons v ws ih =>
      rw [List.countP_cons]
      simp only [List.cons_append, wordsRead]
      split <;> simp_all

variable {wanted : Nat} {b : Body} {ns : List Int} {line : String}

/-- Reading comes to an end just if all words that it looks at are numerals, and this says what is
carried then. The induction is on the words to come, and `ns` are the numbers of those before. -/
theorem readBody_eq_ok_iff (reads : b.Reads ns) (more : ns.count 0 < wanted)
    (ws : List (String × String)) {b' : Body} :
    readBody wanted b ws = .ok b' ↔
      ∃ ms, Numerals (wordsRead (wanted - ns.count 0) (ws.map Prod.fst)) ms ∧
        b'.Reads (ns ++ ms) := by
  induction ws generalizing b ns with
  | nil =>
      rw [readBody, List.map_nil, wordsRead_nil, Numerals.exists_nil_iff, List.append_nil,
        reads.iff_eq]
      exact ⟨Except.ok.inj, congrArg _⟩
  | cons p ws ih =>
      obtain ⟨w, line⟩ := p
      obtain ⟨k, hk⟩ : ∃ k, wanted - ns.count 0 = k + 1 := ⟨wanted - ns.count 0 - 1, by omega⟩
      rw [List.map_cons, hk, wordsRead]
      -- what the word is decides, for the loop as for the words that it looks at
      cases readsWord wanted b w with
      | notNumber none_ read =>
          rw [read]
          constructor
          · intro h
            cases h
          · rintro ⟨ms, numerals, -⟩
            exact absurd numerals (Numerals.not_cons none_)
      | zero value read =>
          have inRange : (0 : Int).natAbs ≤ maxVariable := Nat.zero_le _
          have counted : (ns ++ [0]).count 0 = ns.count 0 + 1 := by simp
          rw [read, reads.length_clauses, Numerals.exists_cons_iff value,
            if_pos ((isZero_iff value).2 rfl), and_iff_right inRange]
          split
          · next last =>
            -- the last clause is finished, so nothing else is looked at
            obtain rfl : k = 0 := by omega
            rw [wordsRead_zero, Numerals.exists_nil_iff, reads.zero.iff_eq]
            exact ⟨Except.ok.inj, congrArg _⟩
          · next notLast =>
            have rest := ih reads.zero (by omega)
            rw [counted, show wanted - (ns.count 0 + 1) = k by omega] at rest
            simpa only [List.append_assoc, List.singleton_append] using rest
      | tooLarge value large read =>
          rw [read, Numerals.exists_cons_iff value]
          constructor
          · intro h
            cases h
          · rintro ⟨inRange, -⟩
            omega
      | @literal n value nonzero inRange read =>
          have counted : (ns ++ [n]).count 0 = ns.count 0 := by
            rw [List.count_append, List.count_singleton]
            simp [nonzero]
          have rest := ih (reads.literal n nonzero) (by omega)
          rw [counted, hk] at rest
          rw [read, Numerals.exists_cons_iff value, if_neg (mt (isZero_iff value).1 nonzero),
            and_iff_right inRange]
          simpa only [List.append_assoc, List.singleton_append] using rest

/-- If the last clause that is waited for is finished, then none is under way, as reading stops at
its zero. -/
theorem clause_of_readBody {b' : Body} {ws : List (String × String)}
    (more : b.clauses.length < wanted) (ok : readBody wanted b ws = .ok b')
    (all : b'.clauses.length = wanted) : b'.clause = [] := by
  induction ws generalizing b with
  | nil =>
      -- the words are used up with too few clauses
      cases ok
      omega
  | cons p ws ih =>
      obtain ⟨w, line⟩ := p
      cases readsWord wanted b w with
      | notNumber _ read =>
          rw [read] at ok
          cases ok
      | zero _ read =>
          rw [read] at ok
          split at ok
          · cases ok
            rfl
          · next notLast =>
            have := b.length_endClause
            exact ih (by omega) ok
      | tooLarge _ _ read =>
          rw [read] at ok
          cases ok
      | @literal n _ nonzero _ read =>
          rw [read] at ok
          exact ih (show (b.addLiteral n nonzero).clauses.length < wanted from more) ok

/-! ### What has no effect -/

/-- An error, but for the line that it quotes if a word is no number. -/
def Error.withoutLine : Error → Error
  | .badClauseLine _ => .badClauseLine ""
  | e => e

/-- Of its words a body is determined by those that are read, but for the line of a word that is no
number. So neither the words after them nor the breaks between lines make a difference. -/
theorem readBody_withoutLine {k : Nat} (length : b.clauses.length + (k + 1) = wanted)
    (ws : List (String × String)) :
    (readBody wanted b ws).mapError Error.withoutLine =
      (readBody wanted b ((wordsRead (k + 1) (ws.map Prod.fst)).map (·, ""))).mapError
        Error.withoutLine := by
  induction ws generalizing b k with
  | nil => rfl
  | cons p ws ih =>
      obtain ⟨w, line⟩ := p
      rw [List.map_cons, wordsRead, List.map_cons]
      cases readsWord wanted b w with
      | notNumber _ read =>
          rw [read, read]
          rfl
      | zero value read =>
          rw [read, read, if_pos ((isZero_iff value).2 rfl)]
          split
          · rfl
          · next notLast =>
            -- a zero is still waited for, so the words read go on
            obtain ⟨k, rfl⟩ : ∃ j, k = j + 1 := ⟨k - 1, by omega⟩
            have := b.length_endClause
            exact ih (by omega)
      | tooLarge _ _ read => rw [read, read]
      | literal value nonzero _ read =>
          rw [read, read, if_neg (mt (isZero_iff value).1 nonzero)]
          exact ih length

/-! ### Words that are no numbers -/

/-- A word that is no number is met on a line, with fewer than `k` zeros before it. -/
def MeetsNoNumber (k : Nat) (ws : List (String × String)) (line : String) : Prop :=
  ∃ before w after ns, ws = before ++ (w, line) :: after ∧ Text.integer? w = none ∧
    Numerals (before.map Prod.fst) ns ∧ ns.count 0 < k

/-- A word that is no number is met where it stands first. The bound is positive because the loop
still waits for a zero. -/
theorem meetsNoNumber_cons_of_none {k : Nat} (positive : 0 < k) {w l : String}
    (none_ : Text.integer? w = none) (ws : List (String × String)) :
    MeetsNoNumber k ((w, l) :: ws) line ↔ l = line := by
  constructor
  · rintro ⟨before, v, after, ns, e, -, numerals, -⟩
    cases before with
    | nil =>
        cases e
        rfl
    | cons p before =>
        cases e
        exact absurd numerals (Numerals.not_cons none_)
  · rintro rfl
    exact ⟨[], w, ws, [], rfl, none_, .nil, positive⟩

/-- Behind a number it is met if that number is in range, with one zero less to go if it is a zero.
-/
theorem meetsNoNumber_cons_of_some {k : Nat} {w l : String} {n : Int}
    (value : Text.integer? w = some n) (ws : List (String × String)) :
    MeetsNoNumber k ((w, l) :: ws) line ↔
      n.natAbs ≤ maxVariable ∧ MeetsNoNumber (k - [n].count 0) ws line := by
  constructor
  · rintro ⟨before, v, after, ns, e, none_, numerals, few⟩
    cases before with
    | nil =>
        -- the first word is a number, so it is not the one that is met
        cases e
        rw [none_] at value
        cases value
    | cons p before =>
        cases e
        obtain ⟨m, ns, rfl, value', inRange, others⟩ := numerals.exists_of_cons
        obtain rfl : n = m := Option.some.inj (value.symm.trans value')
        refine ⟨inRange, before, v, after, ns, rfl, none_, others, ?_⟩
        rw [← List.singleton_append, List.count_append] at few
        omega
  · rintro ⟨inRange, before, v, after, ns, rfl, none_, numerals, few⟩
    refine ⟨(w, l) :: before, v, after, n :: ns, rfl, none_, .cons value inRange numerals, ?_⟩
    rw [← List.singleton_append, List.count_append]
    omega

/-- A complaint about a word that is no number quotes the line of the first such word. It is made
only if nothing before that word is at fault, and the word is one of those that are read. -/
theorem readBody_eq_badClauseLine_iff (more : b.clauses.length < wanted)
    (ws : List (String × String)) :
    readBody wanted b ws = .error (.badClauseLine line) ↔
      MeetsNoNumber (wanted - b.clauses.length) ws line := by
  induction ws generalizing b with
  | nil =>
      rw [readBody]
      constructor
      · intro e
        cases e
      · rintro ⟨before, _, _, _, e, -⟩
        exact absurd e.symm (List.append_ne_nil_of_right_ne_nil before (List.cons_ne_nil _ _))
  | cons p ws ih =>
      obtain ⟨w, l⟩ := p
      cases readsWord wanted b w with
      | notNumber none_ read =>
          rw [read, meetsNoNumber_cons_of_none (Nat.sub_pos_of_lt more) none_]
          simp
      | zero value read =>
          have inRange : (0 : Int).natAbs ≤ maxVariable := Nat.zero_le _
          -- the zero that is read is one less to wait for, as is the clause that it ends
          have left : wanted - b.clauses.length - [0].count (0 : Int) =
              wanted - b.endClause.clauses.length := by
            rw [b.length_endClause]
            rfl
          rw [read, meetsNoNumber_cons_of_some value, and_iff_right inRange, left]
          have := b.length_endClause
          split
          · next last =>
            constructor
            · intro e
              cases e
            · rintro ⟨_, _, _, _, -, -, -, few⟩
              omega
          · next notLast => exact ih (by omega)
      | tooLarge value large read =>
          rw [read, meetsNoNumber_cons_of_some value]
          constructor
          · intro e
            cases e
          · rintro ⟨inRange, -⟩
            omega
      | @literal n value nonzero inRange read =>
          have counted : [n].count 0 = 0 := by simp [nonzero]
          rw [read, meetsNoNumber_cons_of_some value, and_iff_right inRange, counted]
          exact ih (show (b.addLiteral n nonzero).clauses.length < wanted from more)

end Dimacs

end EqualityLogic
