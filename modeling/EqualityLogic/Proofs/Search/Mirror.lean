import EqualityLogic.Proofs.Cnf.Mirror
import EqualityLogic.Proofs.Search.Totality

/-!
# Searches of mirrored formulas

A search of a formula alone has no preference for a sign but the phase. With the other phase it
answers for the mirror image of a formula what it answers for the formula, and if it finds an
assignment, it finds the mirror image of that assignment (`solve_mirror`).

The mirror image of a state has all literals negated and all values turned over, so that a literal
is as true there as its negation is here. Whatever a step looks at is then the same, or the mirror
image of what it was. So the step from the mirror image leads to the mirror image (`step_mirror`),
and the two searches go side by side to their ends.
-/

set_option autoImplicit false

namespace EqualityLogic

namespace Values

/-- The table with each value turned over. -/
def mirror (values : Values) : Values := values.map (Option.map (!·))

/-- The mirror image of a table has as many slots. -/
@[simp] theorem size_mirror (values : Values) : values.mirror.size = values.size :=
  Array.size_map

/-- A variable has the other value in the mirror image, or none if it had none. So the same
variables are free on both sides. -/
theorem lookup_mirror (values : Values) (v : Nat) :
    values.mirror.lookup v = (values.lookup v).map (!·) := by
  unfold lookup mirror
  rw [Array.getElem?_map]
  cases values[v]? with
  | none => rfl
  | some value => rfl

/-- A table without values is its own mirror image. -/
theorem mirror_blank (n : Nat) : (blank n).mirror = blank n :=
  Array.map_replicate

/-- Assigning a value in a table assigns the other one in the mirror image, with the same growth. -/
theorem mirror_assign (values : Values) (v : Nat) (b : Bool) :
    (values.assign v b).mirror = values.mirror.assign v (!b) := by
  unfold assign
  rw [size_mirror]
  split
  · exact Array.map_setIfInBounds
  · show ((values ++ Array.replicate (v - values.size) none).push (some b)).map _ = _
    rw [Array.map_push, Array.map_append, Array.map_replicate]
    rfl

/-- Clearing a value clears it in the mirror image. -/
theorem mirror_clear (values : Values) (v : Nat) :
    (values.clear v).mirror = values.mirror.clear v :=
  Array.map_setIfInBounds

end Values

/-- The assignment with each literal negated. -/
def Assignment.mirror (m : Assignment) : Assignment := m.map Literal.negate

namespace Trail

/-- An entry with its literal negated, for the same reason. -/
def mirrorEntry (e : Literal × Reason) : Literal × Reason := (e.1.negate, e.2)

/-- The trail with each literal negated and each value turned over. -/
def mirror (t : Trail) : Trail := ⟨t.entries.map mirrorEntry, t.values.mirror⟩

/-- The empty trail is its own mirror image. -/
theorem mirror_empty (n : Nat) : (empty n).mirror = empty n :=
  congrArg (Trail.mk []) (Values.mirror_blank n)

/-- A literal is as true on a trail as its negation is on the mirror image. All that a step reads of
a trail comes down to this. -/
@[simp] theorem value_mirror (t : Trail) (l : Literal) : t.mirror.value l.negate = t.value l := by
  show (t.values.mirror.lookup l.negate.var).map (· != l.negate.isNegated) =
    (t.values.lookup l.var).map (· != l.isNegated)
  rw [Values.lookup_mirror, Literal.var_negate, Literal.isNegated_negate]
  cases t.values.lookup l.var with
  | none => rfl
  | some b => cases b <;> cases l.isNegated <;> rfl

/-- Pushing a literal pushes its negation in the mirror image, for the same reason. -/
theorem mirror_push (t : Trail) (l : Literal) (r : Reason) :
    (t.push l r).mirror = t.mirror.push l.negate r := by
  have values : (t.values.assign l.var !l.isNegated).mirror =
      t.values.mirror.assign l.negate.var !l.negate.isNegated := by
    rw [Values.mirror_assign, Literal.var_negate, Literal.isNegated_negate]
  exact congrArg (Trail.mk ((l.negate, r) :: t.entries.map mirrorEntry)) values

/-- Entries are taken off in the same way, up to the same decision. -/
theorem mirror_backtrackFrom (values : Values) (es : List (Literal × Reason)) :
    backtrackFrom values.mirror (es.map mirrorEntry) = (backtrackFrom values es).map mirror := by
  induction es generalizing values with
  | nil => rfl
  | cons e es ih =>
      obtain ⟨l, r⟩ := e
      have cleared : values.mirror.clear l.negate.var = (values.clear l.var).mirror := by
        rw [Values.mirror_clear, Literal.var_negate]
      show backtrackFrom values.mirror ((l.negate, r) :: es.map mirrorEntry) = _
      rw [backtrackFrom, backtrackFrom, cleared]
      split
      · exact congrArg some (mirror_push ⟨es, values.clear l.var⟩ l.negate .backjump).symm
      · exact ih (values.clear l.var)

/-- The latest decision is reversed in the same way. -/
theorem backtrack?_mirror (t : Trail) : t.mirror.backtrack? = t.backtrack?.map mirror :=
  mirror_backtrackFrom t.values t.entries

/-- The same variables have a value, so the same one is first without. It is offered as a positive
literal on both sides; the sign is up to the phase. -/
theorem firstFree?_mirror (t : Trail) : t.mirror.firstFree? = t.firstFree? := by
  have free : ∀ v, t.mirror.values.lookup v = none ↔ t.values.lookup v = none := by
    intro v
    show t.values.mirror.lookup v = none ↔ _
    rw [Values.lookup_mirror, Option.map_eq_none_iff]
  unfold firstFree?
  simp only [free]
  rw [show t.mirror.values.size = t.values.size from t.values.size_mirror]

/-- The literals are listed in the same order, which is that of their variables. What is handed out
is thus the mirror image as a list. -/
theorem assignment_mirror (t : Trail) : t.mirror.assignment = t.assignment.mirror := by
  have literals : t.mirror.entries.map Prod.fst = (t.entries.map Prod.fst).map Literal.negate := by
    show (t.entries.map mirrorEntry).map Prod.fst = _
    rw [List.map_map, List.map_map]
    rfl
  unfold assignment Assignment.mirror
  rw [literals, ← List.map_reverse]
  refine (List.map_mergeSort fun a _ b _ => ?_).symm
  rw [Literal.var_negate, Literal.var_negate]

end Trail

namespace Clause

variable (t : Trail) (c : Clause)

/-- A clause is as true as its mirror image is, since each of its literals is. -/
@[simp] theorem value_mirror : c.mirror.value t.mirror = c.value t := by
  unfold value
  simp only [exists_mem_mirror, forall_mem_mirror, Trail.value_mirror]

/-- The free literals are those of the clause, negated, in the same order. What a clause forces and
what it offers are both read off this list. -/
theorem filter_mirror : (c.mirror.filter fun l => t.mirror.value l = none) =
    mirror (c.filter fun l => t.value l = none) := by
  unfold mirror
  rw [List.filter_map]
  refine congrArg (fun p => (List.filter p c).map Literal.negate) (funext fun l => ?_)
  exact congrArg (fun v : Option Bool => decide (v = none)) (t.value_mirror l)

/-- The mirror image of a clause forces the negation of what the clause forces. -/
theorem unit?_mirror : c.mirror.unit? t.mirror = (c.unit? t).map Literal.negate := by
  unfold unit?
  rw [filter_mirror, value_mirror]
  cases c.filter fun l => t.value l = none with
  | nil => rfl
  | cons l ls =>
      show (if c.value t = none ∧ ∀ k ∈ mirror ls, k = l.negate then some l.negate else none) =
        (if c.value t = none ∧ ∀ k ∈ ls, k = l then some l else none).map Literal.negate
      simp only [forall_mem_mirror, Literal.negate_inj]
      split <;> rfl

/-- It offers the negation of what the clause offers. -/
theorem free?_mirror : c.mirror.free? t.mirror = (c.free? t).map Literal.negate := by
  unfold free?
  rw [value_mirror, ← List.head?_filter, ← List.head?_filter, filter_mirror]
  split
  · exact List.head?_map
  · rfl

end Clause

namespace Formula

variable (t : Trail) (f : Formula)

/-- A formula is as true as its mirror image is, so conflicts come at the same time. -/
@[simp] theorem value_mirror : f.mirror.value t.mirror = f.value t := by
  unfold value
  simp only [exists_mem_mirror, forall_mem_mirror, Clause.value_mirror]

/-- The first clause of a formula that forces a literal is the first one in the mirror image too. -/
theorem unit?_mirror : f.mirror.unit? t.mirror = (f.unit? t).map Literal.negate :=
  findSome?_mirror (Clause.unit?_mirror t) f

/-- So is the first one that offers a literal. -/
theorem free?_mirror : f.mirror.free? t.mirror = (f.free? t).map Literal.negate :=
  findSome?_mirror (Clause.free?_mirror t) f

end Formula

/-- The answer with each literal of an assignment negated. -/
def Answer.mirror : Answer → Answer
  | .sat m => .sat m.mirror
  | .unsat => .unsat
  | .unknown => .unknown

namespace Search

/-- The options with the other phase. -/
def Options.mirror (o : Options) : Options := { o with phase := !o.phase }

/-- The state with all literals negated. -/
def State.mirror (s : State EmptyTheory) : State EmptyTheory :=
  { s with trail := s.trail.mirror, working := s.working.mirror, clauses := s.clauses.mirror }

/-- The result with all literals negated. -/
def Result.mirror (r : Result EmptyTheory) : Result EmptyTheory :=
  { r with answer := r.answer.map Answer.mirror, clauses := r.clauses.mirror }

variable {s : State EmptyTheory} {o : Options}

/-- Making a literal true makes its negation true in the mirror image. -/
theorem State.mirror_assume (s : State EmptyTheory) (l : Literal) (r : Reason) :
    (s.assume l r).mirror = s.mirror.assume l.negate r :=
  congrArg (fun trail => { s.mirror with trail, changed := true }) (s.trail.mirror_push l r)

/-- A conflict is answered in the same way: the same decision is reversed, or there is none. -/
theorem backtrack_mirror : s.mirror.backtrack = s.backtrack.map State.mirror Result.mirror := by
  unfold State.backtrack
  rw [show s.mirror.trail = s.trail.mirror from rfl, Trail.backtrack?_mirror]
  cases s.trail.backtrack? with
  | none => rfl
  | some t => rfl

/-- A decision is charged to the same budget, and made with the sign turned over. A budget that is
used up ends both searches. -/
theorem decide_mirror (l : Literal) (limit : Option Nat) :
    s.mirror.decide l.negate limit = (s.decide l limit).map State.mirror Result.mirror := by
  unfold State.decide
  rw [show s.mirror.decisions = s.decisions from rfl, ← State.mirror_assume]
  split <;> rfl

/-- An assignment that is reported is reported as its mirror image. The theory, which has nothing to
say, is asked on both sides. -/
theorem accept_mirror :
    s.mirror.accept .complete = (s.accept .complete).map State.mirror Result.mirror := by
  -- the theory accepts every assignment
  show s.mirror.finish (.sat s.trail.mirror.assignment) =
    s.mirror.finish (.sat s.trail.assignment.mirror)
  rw [Trail.assignment_mirror]

/-- A trail is extended in the same way. The other phase turns over the sign of what is decided, so
that a decision on the one side is the mirror image of that on the other. -/
theorem extend_mirror :
    s.mirror.extend o.mirror .complete = (s.extend o .complete).map State.mirror Result.mirror := by
  unfold State.extend
  rw [show s.mirror.trail = s.trail.mirror from rfl,
    show s.mirror.working = s.working.mirror from rfl, Formula.unit?_mirror, Formula.free?_mirror,
    Trail.firstFree?_mirror]
  cases s.working.unit? s.trail with
  | some l => exact congrArg Step.next (s.mirror_assume l .propagation).symm
  | none =>
      cases s.working.free? s.trail with
      | some l =>
          -- the literal of the variable with the sign of the phase
          show s.mirror.decide (l.negate.atom.withPolarity (!o.phase)) o.decisionLimit = _
          rw [Literal.atom_negate, Literal.withPolarity_not]
          exact decide_mirror _ _
      | none =>
          cases s.trail.firstFree? with
          | some l =>
              show Step.next (s.mirror.assume (l.withPolarity (!o.phase)) .decision) = _
              rw [Literal.withPolarity_not, ← State.mirror_assume]
              rfl
          | none => exact accept_mirror

/-- The step from the mirror image of a state leads to the mirror image. This is one equation for
all steps, and the run follows from it alone. -/
theorem step_mirror (o : Options) (s : State EmptyTheory) :
    step o.mirror .complete s.mirror = (step o .complete s).map State.mirror Result.mirror := by
  unfold step
  rw [show s.mirror.working.value s.mirror.trail = s.working.value s.trail from
    Formula.value_mirror _ _]
  split
  · exact backtrack_mirror
  · rw [if_neg (fun h => Oversight.noConfusion h.1), if_neg (fun h => Oversight.noConfusion h.1)]
    exact extend_mirror

/-- A search of the mirror image starts with the mirror image, as pruning keeps the clauses at the
same places. -/
theorem start_mirror (o : Options) (f : Formula) (n : Nat) (theory : EmptyTheory) :
    State.start o.mirror f.mirror n theory = (State.start o f n theory).mirror := by
  have working : (if o.mirror.simplify then f.mirror.prune else f.mirror) =
      Formula.mirror (if o.simplify then f.prune else f) := by
    rw [show o.mirror.simplify = o.simplify from rfl, f.prune_mirror]
    split <;> rfl
  unfold State.start State.mirror
  rw [working, f.maxVar_mirror, Trail.mirror_empty]

/-- Search has no preference for a sign but the phase. With the other phase, the answer for the
mirror image of a formula is the mirror image of the answer, for all formulas and options, with
budgets and pruning. -/
theorem solve_mirror (o : Options) (f : Formula) (n : Nat) :
    ∃ a, solve o f n = .ok a ∧ solve { o with phase := !o.phase } f.mirror n = .ok a.mirror := by
  have ends := (ends_solveWith o f n EmptyTheory.mk .complete).map (step_mirror o)
  rw [← start_mirror] at ends
  -- the mirrored run ends with the mirror image of the result, and the other search has one end
  -- only
  have same := ends.unique (ends_solveWith o.mirror f.mirror n EmptyTheory.mk .complete)
  have mirrored : (solve o f n).map Answer.mirror = solve o.mirror f.mirror n :=
    congrArg Result.answer same
  have answers : ∃ a, solve o f n = .ok a := by
    rcases solve_cases o f n with ⟨m, h, -⟩ | ⟨h, -⟩ | ⟨h, -⟩
    · exact ⟨.sat m, h⟩
    · exact ⟨.unsat, h⟩
    · exact ⟨.unknown, h⟩
  obtain ⟨a, h⟩ := answers
  rw [h] at mirrored
  exact ⟨a, h, mirrored.symm⟩

end Search

end EqualityLogic
