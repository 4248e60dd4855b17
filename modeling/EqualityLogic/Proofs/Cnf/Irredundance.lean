import EqualityLogic.Cnf.AsymmetricTautology

/-!
# One pass is enough

`Formula.prune` judges each clause once, by the clauses that are there at that time, and never
comes back to a clause that it keeps. `prune_irredundant` says that nothing is missed: a second pass
drops no clause, and what is left holds no asymmetric tautology, in whatever order literals are made
known (`Clause.Extends`).

The reason is a certificate for each clause that is kept (`Clause.refutes_eq_false_iff`): a set of
literals that holds the clause, to which no other clause can add a literal, and which clashes
nowhere but where the clause does. All that can be made known in any order stays inside of that set
(`Clause.Extends.subset`). The certificate does not mind if other clauses are dropped later, so a
clause that is kept once would be kept again (`Clause.isAsymmetricTautology_of_fewer`).

A clause that holds a literal together with its negation clashes from the start, so it is no use to
ask whether a clash can be made known. The certificate covers it all the same: a step that would
make the negation of a known literal known ends the judgement, so no clash is ever added to those
of the clause.
-/

set_option autoImplicit false

namespace EqualityLogic

namespace Clause

/-- A literal stands together with its negation. -/
def Clashing (known : List Literal) : Prop := ∃ l ∈ known, l.negate ∈ known

/-- What can be made known from `start`, in any order: if a clause has all its literals but one
among the known ones, the negation of that one may join them. -/
inductive Extends (clauses : Formula) (start : List Literal) : List Literal → Prop
  | start : Extends clauses start start
  | add {known : List Literal} {c : Clause} {l : Literal} : Extends clauses start known →
      c ∈ clauses → l ∈ c → (∀ k ∈ c, k = l ∨ k ∈ known) →
      Extends clauses start (l.negate :: known)

/-- Nothing new can be made known. -/
def Closed (clauses : Formula) (known : List Literal) : Prop :=
  ∀ c ∈ clauses, ∀ l ∈ c, (∀ k ∈ c, k = l ∨ k ∈ known) → l.negate ∈ known

/-- Whatever is made known in turn, it stays inside a closed set. This is what makes the order
irrelevant: no derivation can leave what one exhaustive pass has found. -/
theorem Extends.subset {clauses : Formula} {start known s : List Literal}
    (h : Extends clauses start known) (closed : Closed clauses s) (inside : ∀ k ∈ start, k ∈ s) :
    ∀ k ∈ known, k ∈ s := by
  induction h with
  | start => exact inside
  | @add known c l _ hc hl rest ih =>
      intro k hk
      rcases List.mem_cons.1 hk with rfl | hk
      · refine closed c hc l hl ?_
        intro k' hk'
        exact (rest k' hk').imp_right (ih k')
      · exact ih k hk

/-- What can be made known in two goes can be made known in one, as the steps of the second go need
no more than what the first one has made known. -/
theorem Extends.trans {clauses : Formula} {start known known' : List Literal}
    (h : Extends clauses start known) (h' : Extends clauses known known') :
    Extends clauses start known' := by
  induction h' with
  | start => exact h
  | add _ hc hl rest ih => exact ih.add hc hl rest

/-- A set to which no clause adds anything is closed. The search for a literal to add looks for a
clause whose literals are known but for one; a closed set has that one's negation already. -/
theorem closed_of_findSome?_eq_none {clauses : Formula} {known : List Literal}
    (none_ : clauses.findSome? (asymmetric? known) = none) : Closed clauses known := by
  intro c hc l hl rest
  have none_here : c.asymmetric? known = none := List.findSome?_eq_none_iff.1 none_ c hc
  have tried := List.find?_eq_none.1 none_here l hl
  exact Decidable.byContradiction fun unknown => tried (decide_eq_true ⟨unknown, rest⟩)

/-- A certificate against a refutation: literals that are closed and hold the known ones, and clash
only where the known ones do. -/
def Unrefuted (clauses : Formula) (known s : List Literal) : Prop :=
  (∀ k ∈ known, k ∈ s) ∧ Closed clauses s ∧ ∀ l ∈ s, l.negate ∈ s → l ∈ known

/-- Without a refutation, the literals that are known in the end are a certificate. They clash no
more than at the start, since a pass stops as soon as it would add the negation of a known literal.
-/
theorem exists_unrefuted {clauses : Formula} {known : List Literal}
    (h : refutes clauses known = false) : ∃ s, Unrefuted clauses known s := by
  fun_induction refutes clauses known with
  | case1 known none_ =>
      refine ⟨known, fun _ hk => hk, closed_of_findSome?_eq_none none_, ?_⟩
      intro l hl _
      exact hl
  | case2 => cases h
  | case3 known l found unknown ih =>
      obtain ⟨s, inside, closed, clash⟩ := ih h
      refine ⟨s, fun k hk => inside k (List.mem_cons_of_mem _ hk), closed, ?_⟩
      -- the literal that was added does not clash, for its negation was not known
      intro k hk hk'
      rcases List.mem_cons.1 (clash k hk hk') with rfl | old
      · rw [Literal.negate_negate] at hk'
        have back := clash l hk' (inside _ List.mem_cons_self)
        rcases List.mem_cons.1 back with e | back
        · exact absurd e.symm l.negate_ne_self
        · exact absurd back unknown
      · exact old

/-- A certificate rules a refutation out: the literals that a pass makes known stay inside of it,
and none of them clashes with a known one there. -/
theorem Unrefuted.refutes_eq_false {clauses : Formula} {known s : List Literal}
    (h : Unrefuted clauses known s) : refutes clauses known = false := by
  obtain ⟨inside, closed, clash⟩ := h
  -- the literals that are made known stay inside the certificate
  fun_induction refutes clauses known with
  | case1 => rfl
  | case2 known l found known_l =>
      obtain ⟨c, hc, hl⟩ := List.exists_of_findSome?_eq_some found
      obtain ⟨new, rest⟩ := asymmetric?_spec hl
      have hs : l.negate ∈ s := by
        refine closed c hc l (mem_of_asymmetric? hl) ?_
        intro k hk
        exact (rest k hk).imp_right (inside k)
      refine absurd (clash l.negate hs ?_) new
      rw [Literal.negate_negate]
      exact inside l known_l
  | case3 known l found _ ih =>
      obtain ⟨c, hc, hl⟩ := List.exists_of_findSome?_eq_some found
      have hs : l.negate ∈ s := by
        refine closed c hc l (mem_of_asymmetric? hl) ?_
        intro k hk
        exact ((asymmetric?_spec hl).2 k hk).imp_right (inside k)
      refine ih ?_ ?_
      · intro k hk
        rcases List.mem_cons.1 hk with rfl | hk
        · exact hs
        · exact inside k hk
      · intro k hk hk'
        exact List.mem_cons_of_mem _ (clash k hk hk')

/-- There is no refutation just if there is a certificate against it. What follows uses certificates
only, and never looks into the pass again. -/
theorem refutes_eq_false_iff {clauses : Formula} {known : List Literal} :
    refutes clauses known = false ↔ ∃ s, Unrefuted clauses known s :=
  ⟨exists_unrefuted, fun ⟨_, h⟩ => h.refutes_eq_false⟩

/-- A clause that is kept is kept as well when some of the others are missing, as its certificate is
one against fewer clauses too. So what is dropped after it does not call the decision in question.
-/
theorem isAsymmetricTautology_of_fewer {fewer more : Formula} {c : Clause}
    (sub : ∀ d ∈ fewer, d ∈ more) (kept : isAsymmetricTautology more c = false) :
    isAsymmetricTautology fewer c = false := by
  obtain ⟨s, inside, closed, clash⟩ := refutes_eq_false_iff.1 kept
  refine refutes_eq_false_iff.2 ⟨s, inside, ?_, clash⟩
  intro d hd
  exact closed d (sub d hd)

/-- A refutation makes a clash known: the literal at which it stops is known, and its negation can
join by the same clause. -/
theorem exists_clashing_of_refutes {clauses : Formula} {known : List Literal}
    (h : refutes clauses known = true) :
    ∃ known', Extends clauses known known' ∧ Clashing known' := by
  fun_induction refutes clauses known with
  | case1 => cases h
  | case2 known l found known_l =>
      obtain ⟨c, hc, hl⟩ := List.exists_of_findSome?_eq_some found
      -- the literal is known, and its negation can join in one more step
      refine ⟨_, Extends.start.add hc (mem_of_asymmetric? hl) (asymmetric?_spec hl).2, l, ?_, ?_⟩
      · exact List.mem_cons_of_mem _ known_l
      · exact List.mem_cons_self
  | case3 known l found _ ih =>
      obtain ⟨c, hc, hl⟩ := List.exists_of_findSome?_eq_some found
      obtain ⟨known', extends_, clashing⟩ := ih h
      have first := Extends.start.add hc (mem_of_asymmetric? hl) (asymmetric?_spec hl).2
      exact ⟨known', first.trans extends_, clashing⟩

/-- A clause that does not clash itself is an asymmetric tautology just if a clash can be made known
from it, in some order. For a clause with a clash of its own the right side is always true, while
the judgement asks for a further one, hence the hypothesis. -/
theorem isAsymmetricTautology_iff {others : Formula} {c : Clause} (h : ¬ Clashing c) :
    isAsymmetricTautology others c = true ↔ ∃ known, Extends others c known ∧ Clashing known := by
  constructor
  · exact exists_clashing_of_refutes
  · intro ⟨known, extends_, l, hl, hl'⟩
    cases kept : isAsymmetricTautology others c with
    | true => rfl
    | false =>
        obtain ⟨s, inside, closed, clash⟩ := refutes_eq_false_iff.1 kept
        -- the clash is inside the certificate, so it is one of the clause
        have known_s := extends_.subset closed inside
        refine absurd ⟨l, clash l (known_s l hl) (known_s _ hl'), clash _ (known_s _ hl') ?_⟩ h
        rw [Literal.negate_negate]
        exact known_s l hl

end Clause

namespace Formula

/-- No clause is an asymmetric tautology by the others. -/
def Irredundant (f : Formula) : Prop :=
  ∀ before c after, f = before ++ c :: after →
    Clause.isAsymmetricTautology (before ++ after) c = false

/-- What a pass leaves is irredundant, if the clauses that it starts with stand by themselves and
those still to come. The clause just judged joins those it starts with; if it is dropped, the others
have one clause less against them. -/
theorem irredundant_pruneFrom (kept f : Formula)
    (stand : ∀ before c after, kept = before ++ c :: after →
      Clause.isAsymmetricTautology (before ++ after ++ f) c = false) :
    (pruneFrom kept f).Irredundant := by
  induction f generalizing kept with
  | nil =>
      rw [pruneFrom]
      intro before c after split
      have := stand before c after split
      rwa [List.append_nil] at this
  | cons d rest ih =>
      rw [pruneFrom]
      split
      · -- one clause less: those that stand do so without it
        refine ih kept fun before c after split => ?_
        refine Clause.isAsymmetricTautology_of_fewer ?_ (stand before c after split)
        intro e he
        rcases List.mem_append.1 he with he | he
        · exact List.mem_append_left _ he
        · exact List.mem_append_right _ (List.mem_cons_of_mem d he)
      · next stands =>
        -- the clause moves from those to come to those that are kept
        refine ih (kept ++ [d]) fun before c after split => ?_
        rcases List.eq_nil_or_concat after with rfl | ⟨after', e, rfl⟩
        · obtain ⟨rfl, e⟩ := List.append_inj' split rfl
          obtain rfl : d = c := by simpa using e
          simpa using stands
        · have whole : kept ++ [d] = (before ++ c :: after') ++ [e] := by simpa using split
          obtain ⟨rfl, e'⟩ := List.append_inj' whole rfl
          obtain rfl : d = e := by simpa using e'
          simpa using stand before c after' rfl

/-- A pass over an irredundant formula keeps all its clauses, in their order, since each one is
judged by exactly the others. -/
theorem Irredundant.pruneFrom_eq {kept f : Formula} (h : (kept ++ f).Irredundant) :
    pruneFrom kept f = kept ++ f := by
  induction f generalizing kept with
  | nil => rw [pruneFrom, List.append_nil]
  | cons c rest ih =>
      have stands := h kept c rest rfl
      rw [pruneFrom, stands, if_neg Bool.false_ne_true, ih]
      · simp
      · simpa using h

/-- Nothing is kept yet at the start of a pass, so its result is irredundant without any condition.
-/
theorem irredundant_prune (f : Formula) : f.prune.Irredundant := by
  refine irredundant_pruneFrom [] f ?_
  intro before c after split
  simp at split

/-- A second pass drops nothing. From a clause that is left and does not clash itself, no clash can
be made known by the other clauses that are left, in whatever order that is done. So one pass over
the clauses does what repeated ones would. -/
theorem prune_irredundant (f : Formula) :
    f.prune.prune = f.prune ∧
    ∀ before c after, f.prune = before ++ c :: after → ¬ Clause.Clashing c →
      ∀ known, Clause.Extends (before ++ after) c known → ¬ Clause.Clashing known := by
  constructor
  · have whole : Irredundant ([] ++ f.prune) := irredundant_prune f
    exact whole.pruneFrom_eq
  · intro before c after split consistent known extends_ clashing
    have kept := irredundant_prune f before c after split
    have dropped := (Clause.isAsymmetricTautology_iff consistent).2 ⟨known, extends_, clashing⟩
    rw [kept] at dropped
    cases dropped

/-- The last of three clauses contains the first one and is dropped. From the first one, the
negation of 3 can be made known by the second one, and no clash. -/
theorem prune_irredundant_subsumed :
    let f : Formula := [[⟨1, by decide⟩, ⟨2, by decide⟩], [⟨1, by decide⟩, ⟨3, by decide⟩],
      [⟨1, by decide⟩, ⟨2, by decide⟩, ⟨4, by decide⟩]]
    let c : Clause := [⟨1, by decide⟩, ⟨2, by decide⟩]
    let d : Clause := [⟨1, by decide⟩, ⟨3, by decide⟩]
    let known : List Literal := [⟨-3, by decide⟩, ⟨1, by decide⟩, ⟨2, by decide⟩]
    f.prune = [c, d] ∧ ¬ Clause.Clashing c ∧ Clause.Extends [d] c known ∧
      f.prune.prune = f.prune ∧ ¬ Clause.Clashing known := by
  intro f c d known
  have left : f.prune = [] ++ c :: [d] := by cbv
  have consistent : ¬ Clause.Clashing c := by
    unfold Clause.Clashing
    decide
  have extends_ : Clause.Extends ([] ++ [d]) c known :=
    Clause.Extends.start.add (c := d) (l := ⟨3, by decide⟩) (by decide) (by decide) (by decide)
  have h := prune_irredundant f
  exact ⟨left, consistent, extends_, h.1, h.2 [] c [d] left consistent known extends_⟩

end Formula

end EqualityLogic
