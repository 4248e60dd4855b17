import EqualityLogic.Integration.Refinement
import EqualityLogic.Proofs.Equality.Explanation

/-!
# Refinement with any engine

What lazy refinement does of its own accord, whatever its engines answer. A new engine is called in
each round, on the formula of the problem and one clause for each round before. If it finds an
assignment that the theory rejects, and the limit allows it, a clause excludes the assignment and
the next round follows. In all other cases the round is the last one.

So the assignments found so far determine the state between two rounds (`between`), with the
theory's memory used up and its count in step with the number of clauses. One round from such a
state leads to the next one or to the result (`step_between_cases`). `refinement_in_turn` puts this
together for whole runs, which need not end: an engine may find the same assignment again and
again.
-/

set_option autoImplicit false

namespace EqualityLogic

namespace Problem

variable (p : Problem)

/-- The theory rejects an assignment, asked for the first time. What it has been asked before does
not matter to its verdict. -/
def Rejects (m : Assignment) : Prop := (Theory.check p.theory m).1 = .inconsistent

/-- The clause that negates those literals of an assignment that are about atoms, in their order. A
literal is about an atom if the lookup `atomOf?` finds one, that is, if the table holds an atom with
the number of its variable (`AtomTable.atomOf?_eq_some`). -/
def exclusion (m : Assignment) : Clause :=
  (m.filter fun l => (p.atoms.atomOf? l).isSome).map Literal.negate

/-- The formula, followed by clauses that exclude assignments, in the order in which they were
found. -/
def excluding (ms : List Assignment) : Formula := p.formula ++ ms.map p.exclusion

end Problem

namespace Refinement

section AnyEngine

variable {ε : Type} (p : Problem) (limit : Option Nat)
  (solve : ε → Formula → Nat → Except TheoryError Answer × ε)

/-- What rounds that others followed have found, and what the engine has become. -/
inductive Rounds (engine : ε) : List Assignment → ε → Prop
  | none : Rounds engine [] engine
  | snoc {ms : List Assignment} {m : Assignment} {e e' : ε} (before : Rounds engine ms e)
      (found : solve e (p.excluding ms) p.numVars = (.ok (.sat m), e'))
      (rejected : p.Rejects m) (allowed : ∀ k ∈ limit, ms.length < k) :
      Rounds engine (ms ++ [m]) e'

/-- The answer of an engine that ends the refinement, once assignments have been excluded, and the
outcome with which it does. -/
inductive Last (ms : List Assignment) :
    Except TheoryError Answer → Except TheoryError Outcome → Prop
  | error {e : TheoryError} : Last ms (.error e) (.error e)
  | unsat : Last ms (.ok .unsat) (.ok ⟨.unsat, p.excluding ms, ms.length, ms.length⟩)
  | unknown : Last ms (.ok .unknown) (.ok ⟨.unknown, p.excluding ms, ms.length, ms.length⟩)
  | accepted {m : Assignment} (fine : (Theory.check p.theory m).1 = .consistent) :
      Last ms (.ok (.sat m)) (.ok ⟨.sat m, p.excluding ms, ms.length, ms.length + 1⟩)
  | limited {m : Assignment} (rejected : p.Rejects m) (spent : ∃ k ∈ limit, k ≤ ms.length) :
      Last ms (.ok (.sat m)) (.ok ⟨.unknown, p.excluding ms, ms.length, ms.length + 1⟩)

/-- The state between two rounds, once assignments have been excluded. -/
def between (ms : List Assignment) (e : ε) : State p.names.length ε where
  clauses := p.excluding ms
  lemmas := ms.length
  theory := Theory.after p.theory (ms.flatMap fun m => [.check m, .learn])
  engine := e

variable {p limit solve} {ms : List Assignment} {m : Assignment} {e e' engine : ε}

/-- To exclude one more assignment, it is checked and a clause is asked for. The equation lists all
that changes between two rounds. -/
theorem between_snoc (p : Problem) (ms : List Assignment) (m : Assignment) (e e' : ε) :
    between p (ms ++ [m]) e' = {
      clauses := p.excluding ms ++ [p.exclusion m]
      lemmas := ms.length + 1
      theory := ((between p ms e).theory.check m).learn.2
      engine := e' } := by
  have hclauses : p.excluding (ms ++ [m]) = p.excluding ms ++ [p.exclusion m] := by
    unfold Problem.excluding
    rw [List.map_append, List.append_assoc]
    rfl
  have htheory : Theory.after p.theory ((ms ++ [m]).flatMap fun m => [.check m, .learn]) =
      ((between p ms e).theory.check m).learn.2 := by
    rw [List.flatMap_append, Theory.after_append]
    rfl
  unfold between
  rw [hclauses, htheory, List.length_append]
  rfl

/-- The theory has checked each assignment once, so its count is the number of learned clauses. -/
theorem checks_between (p : Problem) (ms : List Assignment) (e : ε) :
    (between p ms e).theory.checks = ms.length := by
  induction ms using List.reverseRecOn with
  | nil => rfl
  | append_singleton ms m ih =>
      rw [between_snoc p ms m e e, EqualityTheory.checks_learn, List.length_append, ← ih]
      rfl

/-- The outcome if nothing more is checked. It holds all clauses, and as many checks as lemmas. -/
theorem finish_between (p : Problem) (ms : List Assignment) (e : ε) (a : Answer) :
    (between p ms e).finish a = .done (.ok ⟨a, p.excluding ms, ms.length, ms.length⟩, e) := by
  unfold State.finish
  rw [checks_between]
  rfl

/-- The outcome after one more check, which has not led to a clause. It differs from the one above
in the number of checks only. -/
theorem finish_checked (p : Problem) (ms : List Assignment) (m : Assignment) (e : ε) (a : Answer) :
    State.finish { between p ms e with theory := (between p ms e).theory.check m } a =
      .done (.ok ⟨a, p.excluding ms, ms.length, ms.length + 1⟩, e) := by
  have checks : ((between p ms e).theory.check m).checks = ms.length + 1 :=
    congrArg (· + 1) (checks_between p ms e)
  unfold State.finish
  rw [checks]
  rfl

/-- Between two rounds the theory has the atoms of the problem. -/
theorem atoms_between (p : Problem) (ms : List Assignment) (e : ε) :
    (between p ms e).theory.atoms = p.atoms :=
  EqualityTheory.atoms_after p.theory _

/-- No check before matters for what a check says, so `Rejects` may be used in every round. -/
theorem verdict_check_between (p : Problem) (ms : List Assignment) (e : ε) (m : Assignment) :
    ((between p ms e).theory.check m).verdict = (Theory.check p.theory m).1 := by
  show _ = (p.theory.check m).verdict
  unfold EqualityTheory.verdict
  rw [EqualityTheory.last_check_congr (u := p.theory) (atoms_between p ms e)]

/-- A rejected assignment within the limit is excluded, and the next round follows. The explanation
that the theory gives is the clause of `exclusion`. -/
theorem step_between_eq_next (found : solve e (p.excluding ms) p.numVars = (.ok (.sat m), e'))
    (rejected : p.Rejects m) (allowed : ∀ k ∈ limit, ms.length < k) :
    step solve limit p.numVars (between p ms e) = .next (between p (ms ++ [m]) e') := by
  have verdict := (verdict_check_between p ms e m).trans rejected
  have explained := EqualityTheory.learn_check verdict
  have within : limit.any (· ≤ ms.length) = false := by
    cases limit with
    | none => rfl
    | some k => simpa using allowed k rfl
  unfold step
  rw [show solve (between p ms e).engine (between p ms e).clauses p.numVars = (.ok (.sat m), e')
    from found]
  simp only [verdict]
  unfold State.refine
  rw [if_neg (by rw [show (between p ms e).lemmas = ms.length from rfl, within]; nofun)]
  simp only [explained]
  -- the clause that the theory gives is the one that excludes the assignment
  rw [between_snoc p ms m e e', explained, Problem.exclusion, ← AtomTable.explanation_eq,
    ← atoms_between p ms e]
  rfl

/-- Any other answer ends the refinement: an error, an answer without an assignment, an assignment
that the theory accepts, or one for which the limit leaves no room. -/
theorem step_between_eq_done {r : Except TheoryError Outcome}
    (last : Last p limit ms (solve e (p.excluding ms) p.numVars).1 r) :
    step solve limit p.numVars (between p ms e) =
      .done (r, (solve e (p.excluding ms) p.numVars).2) := by
  unfold step
  rw [show solve (between p ms e).engine (between p ms e).clauses p.numVars =
    solve e (p.excluding ms) p.numVars from rfl]
  generalize solve e (p.excluding ms) p.numVars = answer at last ⊢
  obtain ⟨a, e'⟩ := answer
  cases last with
  | error => rfl
  | unsat => exact finish_between p ms e' .unsat
  | unknown => exact finish_between p ms e' .unknown
  | @accepted m fine =>
      have verdict := (verdict_check_between p ms e m).trans fine
      simp only [verdict]
      exact finish_checked p ms m e' (.sat m)
  -- the limit is reached, so the theory is not asked to explain
  | @limited m rejected spent =>
      have verdict := (verdict_check_between p ms e m).trans rejected
      obtain ⟨k, rfl, hk⟩ := spent
      simp only [verdict]
      unfold State.refine
      rw [if_pos (by simp [between, hk])]
      exact finish_checked p ms m e' .unknown

/-- The next round follows, or this is the last one. The two do not overlap, but that is not needed.
-/
theorem next_or_last (p : Problem) (limit : Option Nat) (ms : List Assignment)
    (a : Except TheoryError Answer) :
    (∃ m, a = .ok (.sat m) ∧ p.Rejects m ∧ ∀ k ∈ limit, ms.length < k) ∨
    ∃ r, Last p limit ms a r := by
  cases a with
  | error e => exact .inr ⟨_, .error⟩
  | ok a =>
      cases a with
      | unsat => exact .inr ⟨_, .unsat⟩
      | unknown => exact .inr ⟨_, .unknown⟩
      | sat m =>
          -- the theory of equality has no third verdict
          rcases p.theory.check_cases m with ⟨-, fine, -⟩ | ⟨-, rejected, -⟩
          · exact .inr ⟨_, .accepted fine⟩
          · by_cases allowed : ∀ k ∈ limit, ms.length < k
            · exact .inl ⟨m, rfl, rejected, allowed⟩
            · exact .inr ⟨_, .limited rejected (by simpa using allowed)⟩

/-- What one round does between two rounds: the next one follows, or this is the last one. It is the
one place where a round is looked into, and the theorems on runs go by its cases. -/
theorem step_between_cases (p : Problem) (limit : Option Nat)
    (solve : ε → Formula → Nat → Except TheoryError Answer × ε) (ms : List Assignment) (e : ε) :
    (∃ m e', solve e (p.excluding ms) p.numVars = (.ok (.sat m), e') ∧ p.Rejects m ∧
      (∀ k ∈ limit, ms.length < k) ∧
      step solve limit p.numVars (between p ms e) = .next (between p (ms ++ [m]) e')) ∨
    ∃ r, Last p limit ms (solve e (p.excluding ms) p.numVars).1 r ∧
      step solve limit p.numVars (between p ms e) =
        .done (r, (solve e (p.excluding ms) p.numVars).2) := by
  rcases next_or_last p limit ms (solve e (p.excluding ms) p.numVars).1 with
    ⟨m, answer, rejected, allowed⟩ | ⟨r, last⟩
  · have found : solve e (p.excluding ms) p.numVars =
        (.ok (.sat m), (solve e (p.excluding ms) p.numVars).2) := by rw [← answer]
    exact .inl ⟨m, _, found, rejected, allowed, step_between_eq_next found rejected allowed⟩
  · exact .inr ⟨r, last, step_between_eq_done last⟩

/-- A refinement starts as if between two rounds, with nothing excluded yet. It is the first case of
every induction on rounds. -/
theorem start_eq_between (p : Problem) (engine : ε) : start p engine = between p [] engine := by
  unfold start between Problem.excluding
  rw [List.map_nil, List.append_nil]
  rfl

/-- Between two rounds, some assignments have been excluded, one in each round before. By induction
on the run in the one direction, and on the rounds in the other. -/
theorem reaches_iff {s : State p.names.length ε} :
    Process.Reaches (step solve limit p.numVars) (start p engine) s ↔
      ∃ ms e, Rounds p limit solve engine ms e ∧ s = between p ms e := by
  constructor
  · intro reached
    refine reached.keeps
      (P := fun s => ∃ ms e, Rounds p limit solve engine ms e ∧ s = between p ms e)
      (fun s s' hs next => ?_) ⟨[], engine, .none, start_eq_between p engine⟩
    -- one round from a state of this form leads to another one, or to a result
    obtain ⟨ms, e, rounds, rfl⟩ := hs
    rcases step_between_cases p limit solve ms e with
      ⟨m, e', found, rejected, allowed, h⟩ | ⟨r, -, h⟩
    · rw [h] at next
      cases next
      exact ⟨_, _, rounds.snoc found rejected allowed, rfl⟩
    · rw [h] at next
      cases next
  · rintro ⟨ms, e, rounds, rfl⟩
    induction rounds with
    | none =>
        rw [start_eq_between]
        exact .refl _
    | snoc _ found rejected allowed ih =>
        exact ih.snoc (step_between_eq_next found rejected allowed)

/-- A refinement ends with its last round, after others that led up to it. Both sides are about a
result, so it says nothing of runs without an end. -/
theorem ends_iff {r : Except TheoryError Outcome × ε} :
    Process.Ends (step solve limit p.numVars) (start p engine) r ↔
      ∃ ms e, Rounds p limit solve engine ms e ∧
        Last p limit ms (solve e (p.excluding ms) p.numVars).1 r.1 ∧
        r.2 = (solve e (p.excluding ms) p.numVars).2 := by
  constructor
  · intro ends
    obtain ⟨s, reached, done⟩ := ends.last
    obtain ⟨ms, e, rounds, rfl⟩ := reaches_iff.1 reached
    refine ⟨ms, e, rounds, ?_⟩
    rcases step_between_cases p limit solve ms e with ⟨m, e', -, -, -, h⟩ | ⟨out, last, h⟩
    · rw [h] at done
      cases done
    · rw [h] at done
      cases done
      exact ⟨last, rfl⟩
  · rintro ⟨ms, e, rounds, last, h⟩
    have done := step_between_eq_done last
    rw [← h] at done
    exact (reaches_iff.2 ⟨ms, e, rounds, rfl⟩).ends done

end AnyEngine

section InTurn

variable (p : Problem) (limit : Option Nat)
  (engines : Nat → Formula → Nat → Search.Result EmptyTheory)

/-- Engines that are made one after the other, each for one call. What they have been called with
is noted. Of what an engine leaves behind, only the answer is of interest: the clauses are its own
copy. -/
def inTurn (calls : List (Formula × Nat)) (f : Formula) (n : Nat) :
    Except TheoryError Answer × List (Formula × Nat) :=
  ((engines calls.length f n).answer, calls ++ [(f, n)])

/-- The calls in the first `k` rounds. -/
def calls (ms : List Assignment) (k : Nat) : List (Formula × Nat) :=
  (List.range k).map fun i => (p.excluding (ms.take i), p.numVars)

/-- Each assignment is what the engine of its round finds, the theory rejects it, and the limit
allows one more clause. -/
def Continues (ms : List Assignment) : Prop :=
  ∀ k, (h : k < ms.length) →
    (engines k (p.excluding (ms.take k)) p.numVars).answer = .ok (.sat ms[k]) ∧
    p.Rejects ms[k] ∧ ∀ j ∈ limit, k < j

variable {p limit engines} {ms : List Assignment} {m : Assignment}

/-- Rounds go on just if those before do, and the one that is added finds a rejected assignment
within the limit. -/
theorem continues_snoc : Continues p limit engines (ms ++ [m]) ↔ Continues p limit engines ms ∧
    (engines ms.length (p.excluding ms) p.numVars).answer = .ok (.sat m) ∧ p.Rejects m ∧
    ∀ j ∈ limit, ms.length < j := by
  constructor
  · intro h
    refine ⟨fun k hk => ?_, ?_⟩
    · -- for an earlier round, nothing has changed with the assignment at the end
      have hround := h k (by simp; omega)
      rwa [List.getElem_append_left hk, List.take_append_of_le_length (Nat.le_of_lt hk)] at hround
    · simpa using h ms.length (by simp)
  · rintro ⟨before, last⟩ k hk
    rcases Nat.lt_or_ge k ms.length with hlt | hge
    · rw [List.getElem_append_left hlt, List.take_append_of_le_length (Nat.le_of_lt hlt)]
      exact before k hlt
    · have hk : k = ms.length := by
        rw [List.length_append, List.length_singleton] at hk
        omega
      subst hk
      simpa using last

/-- A round says nothing of the calls up to it: the call of a round is made before its assignment is
found. -/
theorem calls_snoc (p : Problem) (ms : List Assignment) (m : Assignment) :
    calls p (ms ++ [m]) (ms.length + 1) = calls p ms (ms.length + 1) := by
  refine List.map_congr_left fun k hk => ?_
  rw [List.take_append_of_le_length (Nat.le_of_lt_succ (List.mem_range.1 hk))]

/-- The engine whose turn it is answers, and its call is noted at the end of those before. -/
theorem inTurn_calls : inTurn engines (calls p ms ms.length) (p.excluding ms) p.numVars =
    ((engines ms.length (p.excluding ms) p.numVars).answer, calls p ms (ms.length + 1)) := by
  unfold inTurn calls
  rw [List.length_map, List.length_range, List.range_succ, List.map_append, List.map_singleton,
    List.take_length]

/-- One engine after the other is called, with all that the rounds before have excluded. What the
list of calls holds is thereby known at every place of a run. -/
theorem rounds_inTurn_iff {e : List (Formula × Nat)} :
    Rounds p limit (inTurn engines) [] ms e ↔
      Continues p limit engines ms ∧ e = calls p ms ms.length := by
  constructor
  · intro rounds
    induction rounds with
    | none => exact ⟨fun k hk => (Nat.not_lt_zero k hk).elim, rfl⟩
    -- so far as many engines have been called as assignments were found, and it is the turn of the
    -- next
    | snoc _ found rejected allowed ih =>
        obtain ⟨continues, rfl⟩ := ih
        rw [inTurn_calls] at found
        obtain ⟨answer, rfl⟩ := Prod.mk.inj found
        refine ⟨continues_snoc.2 ⟨continues, answer, rejected, allowed⟩, ?_⟩
        rw [List.length_append, List.length_singleton, calls_snoc]
  · rintro ⟨continues, rfl⟩
    induction ms using List.reverseRecOn with
    | nil => exact .none
    | append_singleton ms m ih =>
        obtain ⟨before, found, rejected, allowed⟩ := continues_snoc.1 continues
        refine (ih before).snoc ?_ rejected allowed
        rw [inTurn_calls, found, List.length_append, List.length_singleton, calls_snoc]

end InTurn

/-- Refinement with engines in turn. The states between rounds are those with some assignments
excluded, each found by the engine of its round; another round follows such a state just if it is
not the last; and a run ends with the result of its last round. The engines are arbitrary, so they
may find the same assignment again, and a run need not end. -/
theorem refinement_in_turn (p : Problem) (limit : Option Nat)
    (engines : Nat → Formula → Nat → Search.Result EmptyTheory) :
    let go := step (inTurn engines) limit p.numVars
    let answer (ms : List Assignment) := (engines ms.length (p.excluding ms) p.numVars).answer
    (∀ s, Process.Reaches go (start p []) s ↔
      ∃ ms, Continues p limit engines ms ∧ s = between p ms (calls p ms ms.length)) ∧
    (∀ ms, Continues p limit engines ms →
      ((∃ m, Continues p limit engines (ms ++ [m])) ↔ ¬ ∃ r, Last p limit ms (answer ms) r)) ∧
    (∀ r, Process.Ends go (start p []) r ↔
      ∃ ms, Continues p limit engines ms ∧ Last p limit ms (answer ms) r.1 ∧
        r.2 = calls p ms (ms.length + 1)) := by
  intro go answer
  refine ⟨fun s => ?_, fun ms continues => ?_, fun r => ?_⟩
  · refine reaches_iff.trans ⟨?_, ?_⟩
    · rintro ⟨ms, e, rounds, rfl⟩
      obtain ⟨continues, rfl⟩ := rounds_inTurn_iff.1 rounds
      exact ⟨ms, continues, rfl⟩
    · rintro ⟨ms, continues, rfl⟩
      exact ⟨ms, _, rounds_inTurn_iff.2 ⟨continues, rfl⟩, rfl⟩
  · constructor
    · rintro ⟨m, next⟩ ⟨r, last⟩
      -- a last round has no other one after it, since the verdict or the limit would differ
      obtain ⟨-, found, rejected, allowed⟩ := continues_snoc.1 next
      have last : Last p limit ms (.ok (.sat m)) r := found ▸ last
      cases last with
      | accepted fine => exact nomatch fine.symm.trans rejected
      | limited _ spent =>
          obtain ⟨k, hk, le⟩ := spent
          exact absurd (allowed k hk) (Nat.not_lt.2 le)
    · intro notLast
      obtain ⟨m, found, rejected, allowed⟩ :=
        (next_or_last p limit ms (answer ms)).resolve_right notLast
      exact ⟨m, continues_snoc.2 ⟨continues, found, rejected, allowed⟩⟩
  · refine ends_iff.trans ⟨?_, ?_⟩
    · rintro ⟨ms, e, rounds, last, h⟩
      obtain ⟨continues, rfl⟩ := rounds_inTurn_iff.1 rounds
      rw [inTurn_calls] at last h
      exact ⟨ms, continues, last, h⟩
    · rintro ⟨ms, continues, last, h⟩
      refine ⟨ms, _, rounds_inTurn_iff.2 ⟨continues, rfl⟩, ?_⟩
      rw [inTurn_calls]
      exact ⟨last, h⟩

end Refinement

end EqualityLogic
