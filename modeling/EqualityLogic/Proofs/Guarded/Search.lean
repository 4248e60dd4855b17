import EqualityLogic.Proofs.Guarded.Text
import EqualityLogic.Proofs.Search.Soundness
import EqualityLogic.Search.Solve

/-!
# Searching with guards

A search clears the slots of the literals that it takes off its trail, and makes literals of the
numbers of the variables that it decides. Its table of values has a slot for each variable in sight
from the start and never loses one (`Roomy`), so a guarded search is not aborted, with any theory
whose checks are not (`solveWith_eq`).

A table would be made longer for a literal without a slot. The guard of `push` is stricter than
that, since no such literal comes up.
-/

set_option autoImplicit false

namespace EqualityLogic

/-! ### Processes -/

namespace Process

variable {σ ρ : Type}

/-- A step that may be aborted, which ends the process then. -/
def guarded (step : σ → Option (Step σ ρ)) (s : σ) : Step σ (Option ρ) :=
  match step s with
  | none => .done none
  | some (.next s') => .next s'
  | some (.done r) => .done (some r)

variable {step : σ → Step σ ρ} {step' : σ → Option (Step σ ρ)} {P : σ → Prop}

/-- A guarded process whose steps are those of another one ends like that one. The guards have to be
met only where an invariant `P` of the process holds. -/
theorem ends_guarded (kept : ∀ s s', P s → step s = .next s' → P s')
    (granted : ∀ s, P s → step' s = some (step s)) {s : σ} {r : ρ} (hs : P s)
    (h : Ends step s r) : Ends (guarded step') s (some r) := by
  induction h with
  | @done s r e => exact .done (by rw [guarded, granted s hs, e])
  | @next s s' r e _ ih => exact .next (by rw [guarded, granted s hs, e]) (ih (kept s s' hs e))

/-- It makes no endless run if that one makes none, under the same conditions. A process that is
aborted would end too, so this alone does not say that it has a result. -/
theorem acc_guarded (kept : ∀ s s', P s → step s = .next s' → P s')
    (granted : ∀ s, P s → step' s = some (step s)) {s : σ} (hs : P s)
    (h : Acc (Follows step) s) : Acc (Follows (guarded step')) s := by
  induction h with
  | intro s _ ih =>
      refine ⟨_, fun s' follows => ?_⟩
      unfold Follows guarded at follows
      rw [granted s hs] at follows
      cases e : step s with
      | next s'' =>
          rw [e] at follows
          cases follows
          -- only a step that the plain process takes leads on
          exact ih s' e (kept s s' hs e)
      | done r =>
          rw [e] at follows
          cases follows

end Process

namespace Guarded

open Search (State Result Options Move)

/-! ### Trails -/

/-- The table without a value for a variable, which must have a slot. -/
def clear (values : Values) (v : Nat) : Option Values :=
  if v < values.size then some (values.clear v) else none

/-- The trail with one more literal, whose variable must have a slot. -/
def push (t : Trail) (l : Literal) (r : Reason) : Option Trail :=
  if l.var < t.values.size then some (t.push l r) else none

/-- Takes entries off up to the latest decision and reverses it. -/
def backtrackFrom (values : Values) : List (Literal × Reason) → Option (Option Trail)
  | [] => some none
  | (l, r) :: es => do
    let values ← clear values l.var
    if r = .decision then some <$> push ⟨es, values⟩ l.negate .backjump
    else backtrackFrom values es

/-- Entries with slots may be taken off. Each literal that goes has its slot cleared, and the
decision that is reversed is pushed into the slot it had. -/
theorem backtrackFrom_eq {values : Values} {es : List (Literal × Reason)}
    (slots : ∀ e ∈ es, e.1.var < values.size) :
    backtrackFrom values es = some (Trail.backtrackFrom values es) := by
  induction es generalizing values with
  | nil => rfl
  | cons e es ih =>
      obtain ⟨l, r⟩ := e
      obtain ⟨hl, hes⟩ := List.forall_mem_cons.1 slots
      have cleared : clear values l.var = some (values.clear l.var) := if_pos hl
      -- the negation goes into the slot that has just been cleared
      have pushed : push ⟨es, values.clear l.var⟩ l.negate .backjump =
          some (Trail.push ⟨es, values.clear l.var⟩ l.negate .backjump) := by
        refine if_pos ?_
        show l.negate.var < (values.clear l.var).size
        rwa [Literal.var_negate, Values.size_clear]
      have rest := ih fun e he => by
        rw [← Values.size_clear values l.var] at hes
        exact hes e he
      simp only [backtrackFrom, Trail.backtrackFrom, cleared, pushed, rest, Option.bind_eq_bind,
        Option.bind_some]
      split <;> rfl

/-! ### Steps -/

section

variable {τ : Type}

/-- Makes a literal true. -/
def assume (s : State τ) (l : Literal) (r : Reason) : Option (State τ) := do
  return { s with trail := ← push s.trail l r, changed := true }

/-- The literal of a variable with a given sign, made of its number. -/
def withPolarity (v : Nat) (positive : Bool) : Option Literal :=
  literal (if positive then v else -v)

/-- The number of a variable makes a literal, of either sign, as it is not zero. A guarded search
decides numbers of variables, where the plain one has a literal in hand. -/
theorem withPolarity_var (l : Literal) (positive : Bool) :
    withPolarity l.var positive = some (l.atom.withPolarity positive) := by
  cases positive with
  | true => exact literal_number l.atom
  | false => exact literal_number l.atom.negate

/-- Reverses the latest decision. -/
def backtrack (s : State τ) : Option (Step (State τ) (Result τ)) := do
  match ← backtrackFrom s.trail.values s.trail.entries with
  | some t => return .next { s with trail := t, changed := true }
  | none => return s.finish .unsat

/-- Decides a variable of an open clause. -/
def decide (s : State τ) (v : Nat) (o : Options) : Option (Step (State τ) (Result τ)) := do
  let l ← withPolarity v o.phase
  if o.decisionLimit.any (· ≤ s.decisions) then return s.finish .unknown
  else return .next { ← assume s l .decision with decisions := s.decisions + 1 }

/-- Decides a variable that no open clause needs. -/
def complete (s : State τ) (v : Nat) (o : Options) : Option (Step (State τ) (Result τ)) := do
  return .next (← assume s (← withPolarity v o.phase) .decision)

variable [Theory τ] (check : τ → Assignment → Option (Verdict × τ))

/-- Lets the theory judge the assignment. -/
def consult (s : State τ) (accepted : State τ → Step (State τ) (Result τ)) :
    Option (Step (State τ) (Result τ)) := do
  match ← check s.theory s.trail.assignment with
  | (.inconsistent, t) => return State.learn { s with theory := t, changed := false }
  | (_, t) => return accepted { s with theory := t, changed := false }

/-- Ends the search with a complete assignment, unless the theory rejects it. -/
def accept (s : State τ) : Oversight → Option (Step (State τ) (Result τ))
  | .complete => consult check s fun s => s.finish (.sat s.trail.assignment)
  | .partialAssignments => some (s.finish (.sat s.trail.assignment))

/-- Extends a trail under which no clause is false. -/
def extend (s : State τ) (o : Options) (oversight : Oversight) :
    Option (Step (State τ) (Result τ)) :=
  match s.working.unit? s.trail with
  | some l => .next <$> assume s l .propagation
  | none =>
    match s.working.free? s.trail with
    | some l => decide s l.var o
    | none =>
      match s.trail.firstFree? with
      | some l => complete s l.var o
      | none => accept check s oversight

/-- One step of a search. -/
def step (o : Options) (oversight : Oversight) (s : State τ) :
    Option (Step (State τ) (Result τ)) :=
  if s.working.value s.trail = some false then backtrack s
  else if oversight = .partialAssignments ∧ s.changed then consult check s .next
  else extend check s o oversight

end

/-! ### Room -/

section

variable {τ : Type}

/-- All variables in sight are at most `b`, and the table has slots for them. The plain search needs
the first part for its measure; the second one is what the guards ask for. -/
structure Roomy (b : Nat) (s : State τ) : Prop where
  bounded : s.Bounded b
  slots : b < s.trail.values.size

/-- A search starts with room: its table is made for all variables up to `b`, those that are asked
for and those of the formula. -/
theorem roomy_start (o : Options) (f : Formula) (n : Nat) (theory : τ) :
    Roomy (max n f.maxVar) (.start o f n theory) where
  bounded := Search.bounded_start o f n theory
  slots := (Search.sound_start o f n theory).slots

variable [Theory τ] {o : Options} {oversight : Oversight} {s s' : State τ} {b : Nat}

/-- A search keeps its room. No move makes the table shorter, and the clauses that are learned name
no new variables. -/
theorem Roomy.move [LawfulTheory τ] (h : Roomy b s) (m : Move o oversight s s') : Roomy b s' where
  bounded := (m.bounded_and_measure_lt (Theory.lawful _) h.bounded).1
  slots := Nat.lt_of_lt_of_le h.slots m.size_le

omit [Theory τ] in
/-- With room, a literal of a variable in sight may be pushed. The guard asks for a slot, and there
is one for each variable up to `b`. -/
theorem Roomy.assume_eq (h : Roomy b s) {l : Literal} (le : l.var ≤ b) (r : Reason) :
    assume s l r = some (s.assume l r) := by
  have pushed : push s.trail l r = some (s.trail.push l r) :=
    if_pos (Nat.lt_of_le_of_lt le h.slots)
  unfold assume
  rw [pushed]
  rfl

omit [Theory τ] in
/-- With room, the latest decision may be reversed, since all that is on the trail has a slot. -/
theorem Roomy.backtrack_eq (h : Roomy b s) : backtrack s = some s.backtrack := by
  have back : backtrackFrom s.trail.values s.trail.entries = some s.trail.backtrack? :=
    backtrackFrom_eq fun e he => Nat.lt_of_le_of_lt (h.bounded.entries_le e he) h.slots
  unfold backtrack State.backtrack
  rw [back]
  cases s.trail.backtrack? <;> rfl

omit [Theory τ] in
/-- With room, a variable that an open clause offers may be decided. A variable of a clause is in
sight, learned clauses included. -/
theorem Roomy.decide_eq (h : Roomy b s) {l : Literal} (free : s.working.free? s.trail = some l)
    (o : Options) :
    decide s l.var o = some (s.decide (l.atom.withPolarity o.phase) o.decisionLimit) := by
  obtain ⟨c, hc, hfree⟩ := Formula.free?_eq_some free
  have le : (l.atom.withPolarity o.phase).var ≤ b := by
    rw [Literal.var_withPolarity, Literal.var_atom]
    exact h.bounded.working_le c hc l (Clause.free?_eq_some hfree).1
  unfold decide State.decide
  rw [withPolarity_var]
  simp only [h.assume_eq le, Option.bind_eq_bind, Option.bind_some]
  split <;> rfl

omit [Theory τ] in
/-- A variable without a value is offered by its positive literal, so its number gives that one
back. -/
theorem atom_of_firstFree? {t : Trail} {l : Literal} (left : t.firstFree? = some l) :
    l.atom = l := by
  obtain ⟨i, -, found⟩ := List.exists_of_findSome?_eq_some left
  split at found
  · cases found
    exact Literal.ext (congrArg Int.ofNat (Literal.var_ofVar (i + 1) (Nat.succ_ne_zero i)))
  · cases found

omit [Theory τ] in
/-- With room, a variable that no clause offers may be decided. It was found among the slots of the
table, so it has one. -/
theorem Roomy.complete_eq (h : Roomy b s) {l : Literal} (left : s.trail.firstFree? = some l)
    (o : Options) :
    complete s l.var o = some (.next (s.assume (l.withPolarity o.phase) .decision)) := by
  -- the table has slots up to `b` and no more, and the literal is that of a slot
  have le : (l.withPolarity o.phase).var ≤ b := by
    have := (Trail.firstFree?_eq_some left).1
    have := h.bounded.size_le
    rw [Literal.var_withPolarity]
    omega
  unfold complete
  rw [withPolarity_var, atom_of_firstFree? left]
  simp only [h.assume_eq le, Option.bind_eq_bind, Option.bind_some]
  rfl

variable {check : τ → Assignment → Option (Verdict × τ)}
  (granted : ∀ t m, check t m = some (Theory.check t m))

include granted

/-- A theory whose checks are not aborted may be consulted, whatever follows. -/
theorem consult_eq (s : State τ) (accepted : State τ → Step (State τ) (Result τ)) :
    consult check s accepted = some (s.consult accepted) := by
  unfold consult State.consult
  rw [granted]
  generalize Theory.check s.theory s.trail.assignment = judged
  obtain ⟨v, t⟩ := judged
  cases v <;> rfl

/-- Nor is a search aborted at its end, where the theory may have the last word. It is asked there
or not, as the oversight says. -/
theorem accept_eq (s : State τ) (oversight : Oversight) :
    accept check s oversight = some (s.accept oversight) := by
  cases oversight with
  | complete => exact consult_eq granted s fun s => s.finish (.sat s.trail.assignment)
  | partialAssignments => rfl

/-- With room, a trail without a conflict may be extended, in each of the ways to do so. -/
theorem Roomy.extend_eq (h : Roomy b s) (o : Options) (oversight : Oversight) :
    extend check s o oversight = some (s.extend o oversight) := by
  unfold extend State.extend
  cases forced : s.working.unit? s.trail with
  | some l =>
      obtain ⟨c, hc, hunit⟩ := Formula.unit?_eq_some forced
      -- a forced literal belongs to a clause, and the variables of clauses are in sight
      have le : l.var ≤ b := h.bounded.working_le c hc l (Clause.unit?_eq_some hunit).1
      show Step.next <$> assume s l .propagation = _
      rw [h.assume_eq le]
      rfl
  | none =>
      cases free : s.working.free? s.trail with
      | some l => exact h.decide_eq free o
      | none =>
          cases left : s.trail.firstFree? with
          | some l => exact h.complete_eq left o
          | none => exact accept_eq granted s oversight

/-- A step with room is not aborted, and is the step of the plain search. -/
theorem Roomy.step_eq (h : Roomy b s) (o : Options) (oversight : Oversight) :
    step check o oversight s = some (Search.step o oversight s) := by
  unfold step Search.step
  split
  · exact h.backtrack_eq
  · split
    · exact consult_eq granted s .next
    · exact h.extend_eq granted o oversight

/-! ### Results -/

variable [LawfulTheory τ]

/-- A guarded search makes no endless run, since the plain one makes none and each of its steps is
the same. -/
theorem acc_start (o : Options) (oversight : Oversight) (f : Formula) (n : Nat) (theory : τ) :
    Acc (Process.Follows (Process.guarded (step check o oversight))) (.start o f n theory) :=
  Process.acc_guarded (P := Roomy (max n f.maxVar))
    (fun _ _ h e => h.move (Search.move_of_step e)) (fun _ h => h.step_eq granted o oversight)
    (roomy_start o f n theory) (Search.acc_start o oversight f n (Theory.lawful theory))

/-- The result of a guarded search. -/
def solveWith (o : Options) (f : Formula) (n : Nat) (theory : τ) (oversight : Oversight) :
    Option (Result τ) :=
  Process.run (Process.guarded (step check o oversight)) (.start o f n theory)
    (acc_start granted o oversight f n theory)

/-- A search is not aborted, and has the result of the plain one. Of the theory it is asked that its
checks are not aborted and that it is lawful. -/
theorem solveWith_eq (o : Options) (f : Formula) (n : Nat) (theory : τ) (oversight : Oversight) :
    solveWith granted o f n theory oversight =
      some (Search.solveWith o f n theory oversight) := by
  have ends := Process.ends_guarded (P := Roomy (max n f.maxVar))
    (fun _ _ h e => h.move (Search.move_of_step e)) (fun _ h => h.step_eq granted o oversight)
    (roomy_start o f n theory) (Search.ends_solveWith o f n theory oversight)
  exact (Process.ends_run _ _).unique ends

end

end Guarded

end EqualityLogic
