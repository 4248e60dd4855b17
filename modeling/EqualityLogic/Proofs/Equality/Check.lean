import EqualityLogic.Proofs.Equality.Interpretation

/-!
# What a check says

A check judges an assignment as a whole: it rejects just the assignments that no interpretation
realises. `check_after` states this together with all else that a check leaves behind, for a theory
with any history of checks and learned clauses.

* The classes of the forest are the chains of equations of the assignment. They are those of a
  forest that was merged from nothing, since the check resets it first.
* The conflict that is kept is the *last* violated disequation of the assignment
  (`conflict?_eq_some`), because each one that is found replaces the one before it.
* No trace of the history is left, apart from the number of checks: verdict, conflict and forest are
  those of a new theory.
-/

set_option autoImplicit false

namespace EqualityLogic

namespace AtomTable

variable {n : Nat} {atoms : AtomTable n} {m : Assignment}

/-- The atom of the last violated disequation of an assignment. -/
def LastViolated (atoms : AtomTable n) (m : Assignment) (a : Atom n) : Prop :=
  ∃ before l after, m = before ++ l :: after ∧ atoms.Violated m l a ∧
    ∀ k ∈ after, ∀ b, ¬ atoms.Violated m k b

/-- A search for the last violated disequation, with classes of linked variables. The search goes
through all literals and lets a later find replace an earlier one, so what is left is the last. -/
theorem conflict?_eq_some {f : Forest n}
    (same : ∀ x y, f.sameClass x y = true ↔ atoms.Linked m x y) {id : Nat} :
    atoms.conflict? m f = some id ↔ ∃ a, atoms.LastViolated m a ∧ a.id = id := by
  -- the literals are tried one by one, from the last one on
  have tried : ∀ (l : Literal) (p : Literal × Atom n),
      Option.filter (fun p => p.1.isNegated && f.sameClass p.2.left p.2.right)
        ((atoms.atomOf? l).map (l, ·)) = some p ↔ p.1 = l ∧ atoms.Violated m l p.2 := by
    intro l p
    simp only [Option.filter_eq_some_iff, Option.map_eq_some_iff, Bool.and_eq_true, same, Violated]
    constructor
    · rintro ⟨⟨a, ha, rfl⟩, hneg, linked⟩
      exact ⟨rfl, hneg, ha, linked⟩
    · rintro ⟨rfl, hneg, ha, linked⟩
      exact ⟨⟨p.2, ha, rfl⟩, hneg, linked⟩
  have failed : ∀ l : Literal,
      Option.filter (fun p => p.1.isNegated && f.sameClass p.2.left p.2.right)
        ((atoms.atomOf? l).map (l, ·)) = none ↔ ∀ a, ¬ atoms.Violated m l a := by
    intro l
    rw [Option.eq_none_iff_forall_ne_some]
    constructor
    · intro h a violated
      exact h (l, a) ((tried l (l, a)).2 ⟨rfl, violated⟩)
    · intro h p hp
      exact h p.2 ((tried l p).1 hp).2
  unfold conflict? theoryLiterals
  rw [List.filter_filterMap, List.getLast?_filterMap, Option.map_eq_some_iff]
  simp only [List.findSome?_eq_some_iff, tried, failed]
  constructor
  · rintro ⟨p, ⟨after, l, before, split, ⟨-, violated⟩, rest⟩, rfl⟩
    refine ⟨p.2, ⟨before.reverse, l, after.reverse, ?_, violated, fun k hk => ?_⟩, rfl⟩
    · rw [← List.reverse_reverse m, split]
      simp
    · exact rest k (List.mem_reverse.1 hk)
  · rintro ⟨a, ⟨before, l, after, split, violated, rest⟩, rfl⟩
    refine ⟨(l, a), ⟨after.reverse, l, before.reverse, ?_, ⟨rfl, violated⟩, fun k hk => ?_⟩, rfl⟩
    · rw [split]
      simp
    · exact rest k (List.mem_reverse.1 hk)

/-- There is a conflict unless the assignment can be realised. If no disequation is violated, the
classes themselves interpret the variables. -/
theorem conflict?_eq_none {f : Forest n}
    (same : ∀ x y, f.sameClass x y = true ↔ atoms.Linked m x y) :
    atoms.conflict? m f = none ↔ atoms.Realisable m := by
  unfold conflict?
  rw [Option.map_eq_none_iff, List.getLast?_eq_none_iff, List.filter_eq_nil_iff, realisable_iff]
  constructor
  · intro h l hl a ⟨hneg, ha, linked⟩
    refine h (l, a) ((mem_theoryLiterals atoms m).2 ⟨hl, ha⟩) ?_
    rw [hneg, (same a.left a.right).2 linked]
    rfl
  · rintro h ⟨l, a⟩ hp violated
    obtain ⟨hl, ha⟩ := (mem_theoryLiterals atoms m).1 hp
    rw [Bool.and_eq_true, same] at violated
    exact h l hl a ⟨violated.1, ha, violated.2⟩

end AtomTable

namespace EqualityTheory

variable {n : Nat}

/-- No call changes what the atoms stand for: a check works on the forest, and a request on the
conflict that is kept. -/
theorem atoms_perform (t : EqualityTheory n) (call : TheoryCall) :
    (Theory.perform t call).atoms = t.atoms := by
  cases call with
  | check m => rfl
  | learn =>
      show t.learn.2.atoms = t.atoms
      unfold learn
      split
      · rfl
      · split <;> rfl

/-- So the atoms are the same after any calls, and theorems about a history need only those it began
with. -/
theorem atoms_after (t : EqualityTheory n) (calls : List TheoryCall) :
    (Theory.after t calls).atoms = t.atoms := by
  unfold Theory.after
  induction calls generalizing t with
  | nil => rfl
  | cons call calls ih =>
      rw [List.foldl_cons, ih, atoms_perform]

/-- The classes after a check are those of linked variables, for a check starts with a reset and
merges the equations of the assignment. -/
theorem sameClass_check (t : EqualityTheory n) (m : Assignment) (x y : Fin n) :
    (t.check m).forest.sameClass x y = true ↔ t.atoms.Linked m x y :=
  t.atoms.sameClass_mergeEquations m t.forest x y

/-- A check accepts what can be realised, and finds a conflict in what cannot. There is no third
case, although a theory in general may have no opinion. -/
theorem check_cases (t : EqualityTheory n) (m : Assignment) :
    ((t.check m).conflict = none ∧ (t.check m).verdict = .consistent ∧ t.atoms.Realisable m) ∨
    ((t.check m).conflict.isSome = true ∧ (t.check m).verdict = .inconsistent ∧
      ¬ t.atoms.Realisable m) := by
  -- the check is not used up yet, so its verdict tells whether it found a conflict
  have found : (t.check m).conflict = none ↔ t.atoms.Realisable m :=
    AtomTable.conflict?_eq_none (t.sameClass_check m)
  have hverdict : (t.check m).verdict =
      if (t.check m).conflict.isSome then .inconsistent else .consistent := rfl
  cases h : (t.check m).conflict with
  | none =>
      rw [h] at hverdict
      exact .inl ⟨rfl, hverdict, found.1 h⟩
  | some id =>
      rw [h] at hverdict found
      exact .inr ⟨rfl, hverdict, fun hm => nomatch found.2 hm⟩

/-- An assignment is accepted just if some interpretation realises it. This is the soundness of the
theory's approval and its completeness at once. -/
theorem verdict_check_eq_consistent {t : EqualityTheory n} {m : Assignment} :
    (t.check m).verdict = .consistent ↔ t.atoms.Realisable m := by
  rcases t.check_cases m with ⟨-, h, hm⟩ | ⟨-, h, hm⟩ <;> simp [h, hm]

/-- An assignment is rejected just if no interpretation realises it. That acceptance is right does
not give this by itself, as a verdict might be neither of the two. -/
theorem verdict_check_eq_inconsistent {t : EqualityTheory n} {m : Assignment} :
    (t.check m).verdict = .inconsistent ↔ ¬ t.atoms.Realisable m := by
  rcases t.check_cases m with ⟨-, h, hm⟩ | ⟨-, h, hm⟩ <;> simp [h, hm]

/-- The theory of equality always has an opinion once it has been asked. The verdict `unknown` is
left to a theory that has not been asked, or has explained what it was asked about. -/
theorem verdict_check_ne_unknown (t : EqualityTheory n) (m : Assignment) :
    (t.check m).verdict ≠ .unknown := by
  rcases t.check_cases m with ⟨-, h, -⟩ | ⟨-, h, -⟩ <;> simp [h]

/-- A check as the contract of theories has it, with verdict and state as a pair, is the theory's
own. -/
theorem of_check_eq {t th : EqualityTheory n} {m : Assignment} {v : Verdict}
    (h : Theory.check t m = (v, th)) : (t.check m).verdict = v ∧ t.check m = th :=
  Prod.mk.inj h

/-- After a check that rejects, the theory has an explanation to give. Giving it drops the conflict,
and touches nothing else. -/
theorem learn_check {t : EqualityTheory n} {m : Assignment}
    (rejected : (t.check m).verdict = .inconsistent) :
    (t.check m).learn = (.ok (t.atoms.explanation m), { t.check m with last := none }) := by
  rcases t.check_cases m with ⟨-, h, -⟩ | ⟨hconflict, -, -⟩
  · rw [rejected] at h
    cases h
  · show (if (t.check m).conflict.isSome then
        (Except.ok (t.atoms.explanation m), { t.check m with last := none })
      else (.error (TheoryError.notInconsistent .consistent), t.check m)) = _
    rw [if_pos hconflict]

/-- What an explained rejection says of the assignment, and what it leaves behind. It is the form in
which a search and the rounds of a refinement meet one: as two calls in turn. -/
theorem of_explained {t th th' : EqualityTheory n} {m : Assignment} {c : Clause}
    (judged : Theory.check t m = (.inconsistent, th)) (explained : Theory.learn th = (.ok c, th')) :
    ¬ t.atoms.Realisable m ∧ c = t.atoms.explanation m ∧ th'.atoms = t.atoms ∧
      th'.checks = t.checks + 1 := by
  obtain ⟨rejected, rfl⟩ := of_check_eq judged
  have explained : (t.check m).learn = (.ok c, th') := explained
  rw [learn_check rejected] at explained
  cases explained
  exact ⟨verdict_check_eq_inconsistent.1 rejected, rfl, rfl, rfl⟩

/-- The classes after a check depend on the atoms only, not on the classes before it, because the
check starts with a reset. -/
theorem forest_check_congr {t u : EqualityTheory n} (h : t.atoms = u.atoms) (m : Assignment) :
    (t.check m).forest = (u.check m).forest := by
  show t.atoms.mergeEquations m t.forest.reset = u.atoms.mergeEquations m u.forest.reset
  rw [h, Forest.reset_eq_discrete, Forest.reset_eq_discrete]

/-- What a check finds depends on the atoms only. The forest that it looks into is its own. -/
theorem last_check_congr {t u : EqualityTheory n} (h : t.atoms = u.atoms) (m : Assignment) :
    (t.check m).last = (u.check m).last := by
  show some (EqualityCheck.mk m (t.atoms.conflict? m (t.check m).forest)) = _
  rw [forest_check_congr h, h]
  rfl

/-- What a check says, and what it leaves behind, after any calls. The last line compares it with
the same check of a new theory; what stands before it tells verdict, classes and conflict in terms
of the assignment. -/
theorem check_after (atoms : AtomTable n) (calls : List TheoryCall) (m : Assignment) :
    let new := Theory.check (ofAtoms atoms) m
    let r := Theory.check (Theory.after (ofAtoms atoms) calls) m
    (r.1 = .inconsistent ↔ ¬ atoms.Realisable m) ∧
    (r.1 = .consistent ↔ atoms.Realisable m) ∧
    r.2.verdict = r.1 ∧
    (∀ x y, r.2.forest.sameClass x y = true ↔ atoms.Linked m x y) ∧
    (∀ id, r.2.conflict = some id ↔ ∃ a, atoms.LastViolated m a ∧ a.id = id) ∧
    (r.2.conflict = none ↔ r.1 = .consistent) ∧
    r.1 = new.1 ∧ r.2.conflict = new.2.conflict ∧ r.2.forest = new.2.forest := by
  intro new r
  -- of the calls before, only the atoms are left, and these are the given ones
  have hatoms : (Theory.after (ofAtoms atoms) calls).atoms = atoms := atoms_after _ calls
  have same := sameClass_check (Theory.after (ofAtoms atoms) calls) m
  have consistent := verdict_check_eq_consistent (t := Theory.after (ofAtoms atoms) calls) (m := m)
  have inconsistent :=
    verdict_check_eq_inconsistent (t := Theory.after (ofAtoms atoms) calls) (m := m)
  rw [hatoms] at same consistent inconsistent
  have hforest : r.2.forest = new.2.forest := forest_check_congr hatoms m
  have hlast : r.2.last = new.2.last := last_check_congr hatoms m
  have hconflict : r.2.conflict = atoms.conflict? m r.2.forest := by
    show (Theory.after (ofAtoms atoms) calls).atoms.conflict? m r.2.forest = _
    rw [hatoms]
  refine ⟨inconsistent, consistent, rfl, same, fun id => ?_, ?_, ?_, ?_, hforest⟩
  · rw [hconflict]
    exact AtomTable.conflict?_eq_some same
  · rw [hconflict]
    exact (AtomTable.conflict?_eq_none same).trans consistent.symm
  · show r.2.verdict = new.2.verdict
    unfold verdict
    rw [hlast]
  · unfold conflict
    rw [hlast]

end EqualityTheory

end EqualityLogic
