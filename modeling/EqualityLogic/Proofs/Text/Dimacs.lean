import EqualityLogic.Proofs.Text.Body

/-!
# The DIMACS format without its lines

A text in DIMACS format is made of comments, a line of counts and a body (`Announces`). What the
body comes to is a matter of its stream of words, not of its lines: a formula is read just if the
stream starts with the numerals of the numbers that the formula writes, as many as announced and
none too large (`ofLines_eq_ok_iff`). The words after its last zero are not looked at, and the same
words on other lines make the same formula or the same error. One error shows the lines, since it
quotes one (`ofLines_withoutLine`).

If all words that are read are numerals, then the result is up to the counts. That of the variables
is judged first (`ofLines_of_numerals`).
-/

set_option autoImplicit false

namespace EqualityLogic.Dimacs

/-! ### The header -/

/-- A line that is skipped: it has no word, or the first one is `c`. -/
def IsComment (line : String) : Prop :=
  Text.words line = [] ∨ ∃ ws, Text.words line = "c" :: ws

/-- A line whose words begin `p cnf V C`. Others may follow. -/
def Counts (line : String) (h : Header) : Prop :=
  ∃ v c more, Text.words line = "p" :: "cnf" :: v :: c :: more ∧
    Text.natural? v = some h.varCount ∧ Text.natural? c = some h.clauseCount

/-- Lines that are comments, a line of counts and a body. -/
def Announces (lines : List String) (h : Header) (body : List String) : Prop :=
  ∃ comments line, lines = comments ++ line :: body ∧ (∀ l ∈ comments, IsComment l) ∧
    Counts line h

variable {lines lines' body body' : List String} {line : String} {h : Header}

/-- Without lines nothing is announced. -/
theorem not_announces_nil : ¬ Announces [] h body := by
  rintro ⟨comments, line, e, -⟩
  cases comments <;> cases e

/-- A comment in front does not matter, as long as the line of counts is still to come. -/
theorem announces_cons_of_isComment (comment : IsComment line) :
    Announces (line :: lines) h body ↔ Announces lines h body := by
  constructor
  · rintro ⟨comments, l, e, skipped, counts⟩
    cases comments with
    | nil =>
        obtain ⟨rfl, rfl⟩ := List.cons.inj e
        -- a line of counts starts with another word
        obtain ⟨v, c, more, hw, -⟩ := counts
        rcases comment with h | ⟨ws, h⟩ <;> simp [h] at hw
    | cons d ds =>
        obtain ⟨rfl, rfl⟩ := List.cons.inj e
        exact ⟨ds, l, rfl, (List.forall_mem_cons.1 skipped).2, counts⟩
  · rintro ⟨comments, l, rfl, skipped, counts⟩
    exact ⟨line :: comments, l, rfl, List.forall_mem_cons.2 ⟨comment, skipped⟩, counts⟩

/-- A line that is no comment has to be the line of counts, and the lines after it are the body. -/
theorem announces_cons_of_not_isComment (other : ¬ IsComment line) :
    Announces (line :: lines) h body ↔ body = lines ∧ Counts line h := by
  constructor
  · rintro ⟨comments, l, e, skipped, counts⟩
    cases comments with
    | nil =>
        obtain ⟨rfl, rfl⟩ := List.cons.inj e
        exact ⟨rfl, counts⟩
    | cons d ds =>
        obtain ⟨rfl, rfl⟩ := List.cons.inj e
        exact absurd (List.forall_mem_cons.1 skipped).1 other
  · rintro ⟨rfl, counts⟩
    exact ⟨[], line, rfl, nofun, counts⟩

/-- The header is read as announced. Both directions go by the lines up to the first that is no
comment. -/
theorem header_eq_ok_iff : header lines = .ok (h, body) ↔ Announces lines h body := by
  -- apart from the line of counts, what is no comment is refused
  have refused : ∀ {line rest} {e : Error}, ¬ IsComment line → ¬ Counts line h →
      (Except.error e = .ok (h, body) ↔ Announces (line :: rest) h body) := by
    intro line rest e other noCounts
    rw [announces_cons_of_not_isComment other]
    simp [noCounts]
  fun_induction header lines with
  | case1 => simp [not_announces_nil]
  | case2 line rest hw ih => exact ih.trans (announces_cons_of_isComment (.inl hw)).symm
  | case3 line rest ws hw ih => exact ih.trans (announces_cons_of_isComment (.inr ⟨ws, hw⟩)).symm
  | case4 line rest v c more hw V C hc hv =>
      rw [announces_cons_of_not_isComment (by simp [IsComment, hw])]
      constructor
      · intro e
        cases e
        exact ⟨rfl, v, c, more, hw, hv, hc⟩
      · rintro ⟨rfl, v', c', more', hw', hv', hc'⟩
        obtain ⟨rfl, rfl, rfl⟩ : v = v' ∧ c = c' ∧ more = more' := by simpa using hw.symm.trans hw'
        rw [Option.some.inj (hv.symm.trans hv'), Option.some.inj (hc.symm.trans hc')]
  | case5 line rest v c more hw noCounts =>
      refine refused (by simp [IsComment, hw]) ?_
      rintro ⟨v', c', more', hw', hv', hc'⟩
      obtain ⟨rfl, rfl, -⟩ : v = v' ∧ c = c' ∧ more = more' := by simpa using hw.symm.trans hw'
      exact noCounts _ _ hv' hc'
  | case6 line rest hw => exact refused (by simp [IsComment, hw]) (by simp [Counts, hw])
  | case7 line rest v hw => exact refused (by simp [IsComment, hw]) (by simp [Counts, hw])
  | case8 line rest format more noCounts _ _ hw =>
      refine refused (by simp [IsComment, hw]) ?_
      rintro ⟨v, c, more', hw', -⟩
      obtain ⟨rfl, rfl⟩ : format = "cnf" ∧ more = v :: c :: more' := by
        simpa using hw.symm.trans hw'
      exact noCounts v c more' rfl rfl
  | case9 line rest noWord noComment noCounts =>
      refine refused ?_ ?_
      · rintro (hw | ⟨ws, hw⟩)
        · exact noWord hw
        · exact noComment ws hw
      · rintro ⟨v, c, more, hw, -⟩
        exact noCounts v c more hw

/-! ### Whole texts -/

/-- What the body of a text holds. -/
def readAll (h : Header) (body : List String) : Except Error Body :=
  if h.clauseCount = 0 then .ok {} else readBody h.clauseCount {} (wordsWithLines body)

/-- The formula of a body, if it is as large as announced. -/
def Body.judge (h : Header) (b : Body) : Except Error Formula :=
  if h.varCount < b.largest then .error (.wrongVariableCount h.varCount b.largest)
  else if b.clauses.length ≠ h.clauseCount then
    .error (.wrongClauseCount h.clauseCount b.clauses.length)
  else .ok b.clauses

/-- A body is accepted with its clauses if both counts are right. That of the variables may be too
large, and that of the clauses has to be exact. -/
theorem judge_eq_ok_iff {b : Body} {f : Formula} :
    b.judge h = .ok f ↔
      b.largest ≤ h.varCount ∧ b.clauses.length = h.clauseCount ∧ b.clauses = f := by
  unfold Body.judge
  split
  · next tooLarge =>
    constructor
    · intro e
      cases e
    · intro e
      omega
  · next small => split <;> simp_all

/-- A text is read in three parts: its header, its body, and the judgement on the counts. -/
theorem ofLines_eq (lines : List String) :
    ofLines lines = (header lines).bind fun r => (readAll r.1 r.2).bind (Body.judge r.1) := by
  unfold ofLines readAll
  cases header lines with
  | error => rfl
  | ok r =>
      obtain ⟨h, body⟩ := r
      show (if _ then _ else _) = Except.bind (if _ then _ else _) _
      split <;> rfl

/-- With a header that is as it should be, reading is up to the body. The comments are forgotten
here. -/
theorem ofLines_of_announces (announced : Announces lines h body) :
    ofLines lines = (readAll h body).bind (Body.judge h) := by
  rw [ofLines_eq, header_eq_ok_iff.2 announced]
  rfl

/-- The words of the lines, without their lines, are one stream. So statements about words can leave
lines out. -/
theorem wordsWithLines_fst (body : List String) :
    (wordsWithLines body).map Prod.fst = body.flatMap Text.words := by
  simp [wordsWithLines, List.map_flatMap, Function.comp_def]

/-- A body is read just if the words up to the last zero that is waited for are numerals. Where no
clause is announced there is no such word, and everything is accepted. -/
theorem readAll_eq_ok_iff {b : Body} :
    readAll h body = .ok b ↔
      ∃ ns, Numerals (wordsRead h.clauseCount (body.flatMap Text.words)) ns ∧ b.Reads ns := by
  unfold readAll
  split
  · -- no clause is announced, so no word is looked at
    next zero =>
    rw [zero, wordsRead_zero]
    constructor
    · intro ok
      cases ok
      exact ⟨[], .nil, .empty⟩
    · rintro ⟨ns, numerals, reads⟩
      rw [numerals.nil_left] at reads
      rw [reads.unique .empty]
  · next positive =>
    rw [← wordsWithLines_fst]
    exact readBody_eq_ok_iff .empty (Nat.pos_of_ne_zero positive) (wordsWithLines body)

/-- If there are as many clauses as announced, none is left under way. So the judgement on a body is
one on finished clauses. -/
theorem clause_of_readAll {b : Body} (ok : readAll h body = .ok b)
    (all : b.clauses.length = h.clauseCount) : b.clause = [] := by
  unfold readAll at ok
  split at ok
  · cases ok
    rfl
  · next positive => exact clause_of_readBody (Nat.pos_of_ne_zero positive) ok all

/-- Words that are numerals hold as many zeros as the numbers. -/
theorem countP_isZero {words : List String} {ns : List Int}
    (values : words.map Text.integer? = ns.map some) : words.countP isZero = ns.count 0 := by
  have := congrArg (List.countP (· == some 0)) values
  rw [List.countP_map, List.countP_map] at this
  exact this

/-- A bound for the numbers of a formula is one for its variables. -/
theorem forall_mem_written {f : Formula} {b : Nat} :
    (∀ n ∈ f.written, n.natAbs ≤ b) ↔ ∀ c ∈ f, ∀ l ∈ c, l.var ≤ b := by
  simp only [Formula.written, Clause.toNumbers, List.mem_flatMap, List.mem_append, List.mem_map,
    List.mem_singleton]
  constructor
  · intro h c hc l hl
    exact h _ ⟨c, hc, .inl ⟨l, hl, rfl⟩⟩
  · rintro h _ ⟨c, hc, ⟨l, hl, rfl⟩ | rfl⟩
    · exact h c hc l hl
    · exact Nat.zero_le _

/-- Of words that start with the numerals of a formula, these are read, and nothing after them. -/
theorem wordsRead_of_written {f : Formula} {read : List String} (rest : List String)
    (values : read.map Text.integer? = f.written.map some) :
    wordsRead f.length (read ++ rest) = read := by
  have enough : read.countP isZero = f.length := by
    rw [countP_isZero values, ← count_zero_written f [], Clause.toNumbers, List.map_nil,
      List.append_nil]
  rw [wordsRead_append (Nat.le_of_eq enough.symm)]
  -- the numbers of a formula end with a zero, behind which nothing is left
  rcases f.eq_nil_or_concat with rfl | ⟨g, c, concat⟩
  · obtain rfl : read = [] := by simpa [Formula.written] using values
    rfl
  · obtain rfl : f = g ++ [c] := concat.trans List.concat_eq_append
    have last : Formula.written (g ++ [c]) = (Formula.written g ++ c.toNumbers) ++ [0] := by
      simp [Formula.written]
    rw [last, List.map_append] at values
    obtain ⟨ws, zero, rfl, hws, hzero⟩ := List.map_eq_append_iff.1 values
    obtain ⟨w, rfl, hw⟩ : ∃ w, zero = [w] ∧ Text.integer? w = some 0 := by
      simpa [List.map_eq_singleton_iff] using hzero
    have counted := countP_isZero hws
    rw [count_zero_written] at counted
    rw [List.length_append, ← counted]
    exact wordsRead_eq_self ((isZero_iff hw).2 rfl)

/-- A formula is read just if the body starts with its numerals, as many clauses as announced, with
no variable beyond the count or beyond those that input may name. -/
theorem ofLines_eq_ok_iff {f : Formula} :
    ofLines lines = .ok f ↔
      ∃ h body, Announces lines h body ∧ f.length = h.clauseCount ∧
        ∃ read rest, body.flatMap Text.words = read ++ rest ∧
          read.map Text.integer? = f.written.map some ∧
          ∀ c ∈ f, ∀ l ∈ c, l.var ≤ min h.varCount maxVariable := by
  constructor
  · intro ok
    rw [ofLines_eq, bind_eq_ok] at ok
    obtain ⟨⟨h, body⟩, announced, ok⟩ := ok
    obtain ⟨b, all, judged⟩ := bind_eq_ok.1 ok
    obtain ⟨vars, clauses, rfl⟩ := judge_eq_ok_iff.1 judged
    obtain ⟨ns, numerals, reads⟩ := readAll_eq_ok_iff.1 all
    obtain ⟨rest, words⟩ := wordsRead_prefix h.clauseCount (body.flatMap Text.words)
    -- no clause is under way, so the numbers read are those of the finished ones
    have finished := reads.written
    rw [clause_of_readAll all clauses, Clause.toNumbers, List.map_nil, List.append_nil] at finished
    rw [← finished] at numerals reads
    refine ⟨h, body, header_eq_ok_iff.1 announced, clauses, _, rest, words.symm,
      numerals.values, ?_⟩
    rw [← forall_mem_written]
    intro n hn
    rw [reads.largest, largestOf_le] at vars
    exact Nat.le_min.2 ⟨vars n hn, numerals.inRange n hn⟩
  · rintro ⟨h, body, announced, length, read, rest, words, values, bound⟩
    rw [← forall_mem_written] at bound
    have numerals : Numerals (wordsRead h.clauseCount (body.flatMap Text.words)) f.written := by
      rw [words, ← length, wordsRead_of_written rest values]
      exact ⟨values, fun n hn => Nat.le_trans (bound n hn) (Nat.min_le_right ..)⟩
    have reads : Body.Reads ⟨f, [], largestOf f.written⟩ f.written := ⟨List.append_nil _, rfl⟩
    rw [ofLines_of_announces announced, bind_eq_ok]
    refine ⟨_, readAll_eq_ok_iff.2 ⟨_, numerals, reads⟩, judge_eq_ok_iff.2 ⟨?_, length, rfl⟩⟩
    exact largestOf_le.2 fun n hn => Nat.le_trans (bound n hn) (Nat.min_le_left ..)

/-- The body of a text determines what is read, up to its last word that is read. The error is the
same but for the line that it quotes. -/
theorem ofLines_withoutLine (announced : Announces lines h body)
    (announced' : Announces lines' h body')
    (same : wordsRead h.clauseCount (body.flatMap Text.words) =
      wordsRead h.clauseCount (body'.flatMap Text.words)) :
    (ofLines lines).mapError Error.withoutLine = (ofLines lines').mapError Error.withoutLine := by
  have read : (readAll h body).mapError Error.withoutLine =
      (readAll h body').mapError Error.withoutLine := by
    unfold readAll
    split
    · rfl
    · next positive =>
      obtain ⟨k, hk⟩ := Nat.exists_eq_succ_of_ne_zero positive
      have length : ({} : Body).clauses.length + (k + 1) = h.clauseCount := by
        rw [hk]
        exact Nat.zero_add _
      rw [hk] at same
      rw [readBody_withoutLine length, wordsWithLines_fst, same, ← wordsWithLines_fst,
        ← readBody_withoutLine length]
  rw [ofLines_of_announces announced, ofLines_of_announces announced']
  -- the judgement on the counts sees the same bodies, or is not reached
  generalize readAll h body = r at read
  generalize readAll h body' = r' at read
  cases r with
  | error e =>
      cases r' with
      | error e' => exact congrArg Except.error (Except.error.inj read)
      | ok b' => cases read
  | ok b =>
      cases r' with
      | error e' => cases read
      | ok b' =>
          obtain rfl : b = b' := Except.ok.inj read
          rfl

/-- A complaint about a word that is no number quotes the line of the first such word. This is the
one result in which lines show. -/
theorem ofLines_eq_badClauseLine_iff (announced : Announces lines h body) :
    ofLines lines = .error (.badClauseLine line) ↔
      MeetsNoNumber h.clauseCount (wordsWithLines body) line := by
  -- the judgement on the counts makes other complaints
  have unread : (readAll h body).bind (Body.judge h) = .error (.badClauseLine line) ↔
      readAll h body = .error (.badClauseLine line) := by
    cases readAll h body with
    | error e => simp [Except.bind]
    | ok b =>
        show b.judge h = _ ↔ _
        unfold Body.judge
        split
        · simp
        · split <;> simp
  rw [ofLines_of_announces announced, unread]
  unfold readAll
  split
  · next zero =>
    rw [zero]
    constructor
    · intro e
      cases e
    · rintro ⟨_, _, _, _, -, -, -, few⟩
      cases few
  · next positive => exact readBody_eq_badClauseLine_iff (Nat.pos_of_ne_zero positive) _

/-- If all words that are read are numerals, then the counts decide, that of the variables first. A
body that is too short for its clauses is refused by the second count. -/
theorem ofLines_of_numerals {ns : List Int} (announced : Announces lines h body)
    (numerals : Numerals (wordsRead h.clauseCount (body.flatMap Text.words)) ns) :
    (h.varCount < largestOf ns →
      ofLines lines = .error (.wrongVariableCount h.varCount (largestOf ns))) ∧
    (largestOf ns ≤ h.varCount → ns.count 0 ≠ h.clauseCount →
      ofLines lines = .error (.wrongClauseCount h.clauseCount (ns.count 0))) := by
  obtain ⟨b, reads⟩ := exists_reads ns
  have judged : ofLines lines = b.judge h := by
    rw [ofLines_of_announces announced, readAll_eq_ok_iff.2 ⟨ns, numerals, reads⟩]
    rfl
  rw [judged, Body.judge, reads.largest, reads.length_clauses]
  constructor
  · intro tooLarge
    rw [if_pos tooLarge]
  · intro small wrong
    rw [if_neg (Nat.not_lt.2 small), if_pos wrong]

/-- The reading of a text does without its lines. The first part says when a formula is read, and
which. The others compare texts with the same counts: comments have no effect, nor has where a line
breaks, nor what comes after the last zero, except on the line that is quoted. The last ones say
which line that is, and which count is complained about. -/
theorem ofLines_reads_stream :
    (∀ lines f, ofLines lines = .ok f ↔
      ∃ h body, Announces lines h body ∧ f.length = h.clauseCount ∧
        ∃ read rest, body.flatMap Text.words = read ++ rest ∧
          read.map Text.integer? = f.written.map some ∧
          ∀ c ∈ f, ∀ l ∈ c, l.var ≤ min h.varCount maxVariable) ∧
    ∀ lines h body, Announces lines h body →
      (∀ lines', Announces lines' h body → ofLines lines' = ofLines lines) ∧
      (∀ lines' body', Announces lines' h body' →
        body'.flatMap Text.words = body.flatMap Text.words →
        (ofLines lines').mapError Error.withoutLine =
          (ofLines lines).mapError Error.withoutLine) ∧
      (∀ lines' body' read rest rest', Announces lines' h body' →
        h.clauseCount ≤ read.countP isZero → body.flatMap Text.words = read ++ rest →
        body'.flatMap Text.words = read ++ rest' →
        (ofLines lines').mapError Error.withoutLine =
          (ofLines lines).mapError Error.withoutLine) ∧
      (∀ line, ofLines lines = .error (.badClauseLine line) ↔
        MeetsNoNumber h.clauseCount (wordsWithLines body) line) ∧
      ∀ ns, Numerals (wordsRead h.clauseCount (body.flatMap Text.words)) ns →
        (h.varCount < largestOf ns →
          ofLines lines = .error (.wrongVariableCount h.varCount (largestOf ns))) ∧
        (largestOf ns ≤ h.varCount → ns.count 0 ≠ h.clauseCount →
          ofLines lines = .error (.wrongClauseCount h.clauseCount (ns.count 0))) := by
  refine ⟨fun _ _ => ofLines_eq_ok_iff, fun lines h body announced => ⟨?_, ?_, ?_, ?_, ?_⟩⟩
  · intro lines' announced'
    rw [ofLines_of_announces announced, ofLines_of_announces announced']
  · intro lines' body' announced' same
    exact ofLines_withoutLine announced' announced (by rw [same])
  · intro lines' body' read rest rest' announced' enough words words'
    refine ofLines_withoutLine announced' announced ?_
    rw [words, words', wordsRead_append enough, wordsRead_append enough]
  · exact fun line => ofLines_eq_badClauseLine_iff announced
  · exact fun ns numerals => ofLines_of_numerals announced numerals

/-- Another line of comment, another line break and words after the last zero have no effect. The
two texts announce the same counts. -/
theorem ofLines_reads_stream_short :
    Announces ["c", "p cnf 2 1 x", "1 -2 0 y"] ⟨2, 1⟩ ["1 -2 0 y"] ∧
    Announces ["p cnf 2 1", "1", "-2 0"] ⟨2, 1⟩ ["1", "-2 0"] ∧
    (ofLines ["c", "p cnf 2 1 x", "1 -2 0 y"]).mapError Error.withoutLine =
      (ofLines ["p cnf 2 1", "1", "-2 0"]).mapError Error.withoutLine := by
  have commented : Announces ["c", "p cnf 2 1 x", "1 -2 0 y"] ⟨2, 1⟩ ["1 -2 0 y"] := by
    refine ⟨["c"], "p cnf 2 1 x", rfl, ?_, "2", "1", ["x"], by decide, by decide, by decide⟩
    intro l hl
    rw [List.mem_singleton.1 hl]
    exact .inr ⟨[], by decide⟩
  have plain : Announces ["p cnf 2 1", "1", "-2 0"] ⟨2, 1⟩ ["1", "-2 0"] :=
    ⟨[], "p cnf 2 1", rfl, nofun, "2", "1", [], by decide, by decide, by decide⟩
  obtain ⟨-, -, more, -⟩ := ofLines_reads_stream.2 _ _ _ plain
  exact ⟨commented, plain,
    more _ _ ["1", "-2", "0"] [] ["y"] commented (by decide) (by decide) (by decide)⟩

/-- A word after the last zero shows where its line is quoted, since a line is quoted as a whole. So
the two texts have different errors, although the words that are read are the same. -/
theorem quoted_line_is_whole :
    ["x 0 y"].flatMap Text.words = ["x", "0"] ++ ["y"] ∧ ["x 0"].flatMap Text.words = ["x", "0"] ∧
    ["x", "0"].countP isZero = 1 ∧
    ofLines ["p cnf 1 1", "x 0 y"] = .error (.badClauseLine "x 0 y") ∧
    ofLines ["p cnf 1 1", "x 0"] = .error (.badClauseLine "x 0") :=
  ⟨by decide, by decide, by decide, rfl, rfl⟩

end EqualityLogic.Dimacs
