import EqualityLogic.Cnf.Valuation
import EqualityLogic.Counting

/-!
# Asymmetric tautologies

A clause is redundant if the other clauses imply it. A cheap test for that assumes all its
literals false and propagates: when another clause has all its literals but one among the literals
known to be false, that one must hold, so its negation joins them. The clause is an *asymmetric
tautology* when the known literals come to hold a clause in full.

`Formula.prune` drops such clauses one after another, judging each by those kept so far and those
still to come. The closure ends because each round adds the negation of a literal that the other
clauses mention. Pruning drops clauses without changing the meaning (`Formula.prune_sublist`,
`Formula.holds_prune`).
-/

set_option autoImplicit false

namespace EqualityLogic

namespace Clause

/-- The first literal of a clause that must hold once all of `known` is false: the clause's other
literals are known, and its negation is not known yet. -/
def asymmetric? (known : List Literal) (c : Clause) : Option Literal :=
  c.find? fun l => l.negate ∉ known ∧ ∀ k ∈ c, k = l ∨ k ∈ known

/-- The literal that must hold is one of the clause. Its negation is thus one of finitely many,
which bounds the closure. -/
theorem mem_of_asymmetric? {known : List Literal} {c : Clause} {l : Literal}
    (h : c.asymmetric? known = some l) : l ∈ c :=
  List.mem_of_find?_eq_some h

/-- It is the only one of the clause that is not known, and its negation is new. The first half
makes the rule sound, the second makes it add something. -/
theorem asymmetric?_spec {known : List Literal} {c : Clause} {l : Literal}
    (h : c.asymmetric? known = some l) : l.negate ∉ known ∧ ∀ k ∈ c, k = l ∨ k ∈ known := by
  simpa using List.find?_some h

/-- The literals of some clauses whose negations are not known, counted with repetition. -/
def unknownCount (clauses : Formula) (known : List Literal) : Nat :=
  clauses.flatten.countP fun l => l.negate ∉ known

/-- A negation that is new lowers the number of those that are not known. The literals counted are
those of the clauses, which do not change, so this is the measure of the closure. -/
theorem unknownCount_lt {clauses : Formula} {known : List Literal} {l : Literal}
    (found : clauses.findSome? (asymmetric? known) = some l) :
    unknownCount clauses (l.negate :: known) < unknownCount clauses known := by
  obtain ⟨c, hc, hl⟩ := List.exists_of_findSome?_eq_some found
  refine countP_lt_countP (fun k _ hk => ?_)
    (List.mem_flatten.2 ⟨c, hc, mem_of_asymmetric? hl⟩)
    (decide_eq_true (asymmetric?_spec hl).1) ?_
  · simp only [List.mem_cons, not_or, decide_eq_true_eq] at hk ⊢
    exact hk.2
  · simp

/-- Whether falsity of `known` contradicts one of the clauses by propagation alone. -/
def refutes (clauses : Formula) (known : List Literal) : Bool :=
  match _h : clauses.findSome? (asymmetric? known) with
  | none => false
  | some l => if l ∈ known then true else refutes clauses (l.negate :: known)
termination_by unknownCount clauses known
decreasing_by exact unknownCount_lt _h

/-- One round of the closure, as an equation without the proof that `refutes` carries through its
match. A proof that rewrites what a round finds can use this form and not the definition. -/
theorem refutes_eq (clauses : Formula) (known : List Literal) :
    refutes clauses known =
      match clauses.findSome? (asymmetric? known) with
      | none => false
      | some l => if l ∈ known then true else refutes clauses (l.negate :: known) := by
  rw [refutes]
  split
  · next e => rw [e]
  · next e => rw [e]

/-- Whether the other clauses refute a clause's negation by propagation alone. -/
def isAsymmetricTautology (others : Formula) (c : Clause) : Bool :=
  refutes others c

/-- If clauses refute a set of literals, one of the literals holds whenever the clauses do. Read the
other way round, the clauses cannot hold while all of `known` is false, which is what the closure
assumes. -/
theorem exists_holds_of_refutes {ρ : Valuation} {clauses : Formula} {known : List Literal}
    (h : refutes clauses known = true) (hold : clauses.holds ρ = true) :
    ∃ l ∈ known, l.holds ρ = true := by
  fun_induction refutes clauses known with
  | case1 => cases h
  | case2 known l found known_l =>
    obtain ⟨c, hc, hl⟩ := List.exists_of_findSome?_eq_some found
    obtain ⟨k, hk, hk'⟩ := holds_iff.1 (Formula.holds_iff.1 hold c hc)
    rcases (asymmetric?_spec hl).2 k hk with rfl | hk
    · exact ⟨k, known_l, hk'⟩
    · exact ⟨k, hk, hk'⟩
  | case3 known l found _ ih =>
    obtain ⟨c, hc, hl⟩ := List.exists_of_findSome?_eq_some found
    obtain ⟨k, hk, hk'⟩ := ih h
    rcases List.mem_cons.1 hk with rfl | hk
    -- if it is the new literal that holds, the clause it came from needs another one to hold
    · obtain ⟨k, hk, hk''⟩ := holds_iff.1 (Formula.holds_iff.1 hold c hc)
      rcases (asymmetric?_spec hl).2 k hk with rfl | hk
      · rw [Literal.holds_negate, hk''] at hk'
        cases hk'
      · exact ⟨k, hk, hk''⟩
    · exact ⟨k, hk, hk'⟩

/-- An asymmetric tautology follows from the other clauses. The converse fails: the test is cheap,
and misses clauses that follow by other means. -/
theorem holds_of_isAsymmetricTautology {ρ : Valuation} {others : Formula} {c : Clause}
    (h : isAsymmetricTautology others c = true) (hold : others.holds ρ = true) :
    c.holds ρ = true :=
  holds_iff.2 (exists_holds_of_refutes h hold)

end Clause

namespace Formula

/-- Goes through the clauses still to be judged, with those kept so far. -/
def pruneFrom (kept : Formula) : Formula → Formula
  | [] => kept
  | c :: rest =>
    if Clause.isAsymmetricTautology (kept ++ rest) c then pruneFrom kept rest
    else pruneFrom (kept ++ [c]) rest

/-- A formula without its asymmetric tautologies. -/
def prune (f : Formula) : Formula :=
  pruneFrom [] f

/-- Clauses are kept in their order. What is kept already stands in front, so the induction is on
the clauses still to be judged. -/
theorem pruneFrom_sublist (kept f : Formula) : (pruneFrom kept f).Sublist (kept ++ f) := by
  induction f generalizing kept with
  | nil => simp [pruneFrom]
  | cons c rest ih =>
    rw [pruneFrom]
    split
    · exact (ih kept).trans ((List.Sublist.refl kept).append (List.sublist_cons_self c rest))
    · have := ih (kept ++ [c])
      rwa [List.append_assoc] at this

/-- Pruning only drops clauses. It neither adds nor moves any, and it does not look inside them. -/
theorem prune_sublist (f : Formula) : f.prune.Sublist f := pruneFrom_sublist [] f

/-- A clause that the kept ones and those to come imply may be dropped, whatever the valuation. That
each clause is judged by the others as they stand at that moment matters: two clauses that imply
each other are not both dropped. -/
theorem holds_pruneFrom (ρ : Valuation) (kept f : Formula) :
    (pruneFrom kept f).holds ρ = (kept ++ f).holds ρ := by
  induction f generalizing kept with
  | nil => rw [pruneFrom, List.append_nil]
  | cons c rest ih =>
    rw [pruneFrom]
    split
    · next redundant =>
      rw [ih, Bool.eq_iff_iff, holds_iff, holds_iff]
      constructor
      · intro h d hd
        rcases List.mem_append.1 hd with hd | hd
        · exact h d (List.mem_append_left _ hd)
        · rcases List.mem_cons.1 hd with rfl | hd
          · -- the clause that is dropped holds because the others do, and those are all still there
            exact Clause.holds_of_isAsymmetricTautology redundant (holds_iff.2 h)
          · exact h d (List.mem_append_right _ hd)
      · intro h d hd
        refine h d ?_
        rcases List.mem_append.1 hd with hd | hd
        · exact List.mem_append_left _ hd
        · exact List.mem_append_right _ (List.mem_cons_of_mem _ hd)
    · rw [ih, List.append_assoc]
      rfl

/-- Pruning keeps the meaning of a formula, under each valuation by itself. So a search that works
on the pruned formula finds the right answer for the given one. -/
theorem holds_prune (ρ : Valuation) (f : Formula) : f.prune.holds ρ = f.holds ρ :=
  holds_pruneFrom ρ [] f

end Formula

end EqualityLogic
