import EqualityLogic.Proofs.Equality.Check
import Mathlib.Data.List.Induction

/-!
# When a rejection is explained

Checks and requests for a clause may come in any order. `learn_after` says how a request is
answered after any calls, in terms of the calls alone.

* A clause is given when the latest check rejected its assignment and no clause has been given
  since. It negates the equations and disequations of that assignment, so it has a literal, it is
  false under the assignment, and it is a law of the theory.
* Otherwise the request fails and changes nothing. The error tells a check that found no conflict
  from the lack of a check that could be explained.

The theory keeps the latest check and drops it when it is explained, so its verdict is all that the
answer to a request depends on (`learn_cases`). What is left to show is what the calls make of the
verdict (`standing_after`): each check sets it, and of the requests only those that succeed touch
it.
-/

set_option autoImplicit false

namespace EqualityLogic

/-- Two members of a list, each with what stands before and after it, are the same member or one
comes before the other. It is how two places in one history are compared. -/
theorem append_cons_cases {α : Type} {xs ys xs' ys' : List α} {x x' : α}
    (h : xs ++ x :: ys = xs' ++ x' :: ys') :
    (xs = xs' ∧ x = x' ∧ ys = ys') ∨
    (∃ gap, ys = gap ++ x' :: ys' ∧ xs' = xs ++ x :: gap) ∨
    (∃ gap, ys' = gap ++ x :: ys ∧ xs = xs' ++ x' :: gap) := by
  rcases List.append_eq_append_iff.1 h with ⟨gap, hxs, h⟩ | ⟨gap, hxs, h⟩
  · cases gap with
    | nil => exact .inl (by simpa [eq_comm, hxs] using h)
    | cons y gap =>
        obtain ⟨rfl, hys⟩ := List.cons.inj h
        exact .inr (.inl ⟨gap, hys, hxs⟩)
  · cases gap with
    | nil => exact .inl (by simpa [eq_comm, hxs] using h)
    | cons y gap =>
        obtain ⟨rfl, hys⟩ := List.cons.inj h
        exact .inr (.inr ⟨gap, hys, hxs⟩)

/-- A request is no check, so a history without checks stays one. -/
theorem noCheck_append_learn {calls : List TheoryCall} (h : ∀ m, .check m ∉ calls) :
    ∀ m, .check m ∉ calls ++ [.learn] := by
  intro m hm
  rcases List.mem_append.1 hm with hm | hm
  · exact h m hm
  · cases List.mem_singleton.1 hm

namespace Theory

variable {τ : Type} [Theory τ]

/-- Among calls made in turn, some request is answered by a clause. -/
def Explained (t : τ) (calls : List TheoryCall) : Prop :=
  ∃ before since c, calls = before ++ .learn :: since ∧ (learn (after t before)).1 = .ok c

/-- There has been no check since the start, or since the last request that a clause was given
for. -/
def Unchecked (t : τ) (calls : List TheoryCall) : Prop :=
  (∀ m, .check m ∉ calls) ∨
  ∃ before since c, calls = before ++ .learn :: since ∧ (learn (after t before)).1 = .ok c ∧
    (∀ m, .check m ∉ since) ∧ ¬ Explained (after t (before ++ [.learn])) since

/-- Calls in turn may be made in two goes. A history is cut in two at the check or the request that
matters. -/
theorem after_append (t : τ) (calls calls' : List TheoryCall) :
    after t (calls ++ calls') = after (after t calls) calls' :=
  List.foldl_append

/-- Without a request nothing is explained. -/
theorem not_explained_nil (t : τ) : ¬ Explained t [] := by
  rintro ⟨before, since, c, e, -⟩
  cases before <;> cases e

/-- A request that fails explains nothing, and those before it explain no more than they did. So a
failure leaves the standing of a check as it is. -/
theorem not_explained_append_learn {t : τ} {calls : List TheoryCall} (h : ¬ Explained t calls)
    (failed : ∀ c, (learn (after t calls)).1 ≠ .ok c) : ¬ Explained t (calls ++ [.learn]) := by
  rintro ⟨before, since, c, e, given⟩
  rcases append_cons_cases e with ⟨rfl, -, -⟩ | ⟨gap, hnil, -⟩ | ⟨gap, -, rfl⟩
  · exact failed c given
  · cases gap <;> cases hnil
  · exact h ⟨before, gap, c, rfl, given⟩

/-- A request that fails leaves nothing to explain where there was nothing. -/
theorem Unchecked.append_learn {t : τ} {calls : List TheoryCall} (h : Unchecked t calls)
    (failed : ∀ c, (learn (after t calls)).1 ≠ .ok c) : Unchecked t (calls ++ [.learn]) := by
  rcases h with none_ | ⟨before, since, c, rfl, given, none_, unexplained⟩
  · exact .inl (noCheck_append_learn none_)
  · refine .inr ⟨before, since ++ [.learn], c, by simp, given, noCheck_append_learn none_,
      not_explained_append_learn unexplained ?_⟩
    rw [← after_append, List.append_assoc]
    exact failed

end Theory

/-- The latest check among some calls, with the calls before it and those since. It is a statement
about the list of calls, in which the theory has no part. -/
structure LatestCheck (calls before : List TheoryCall) (m : Assignment)
    (since : List TheoryCall) : Prop where
  split : calls = before ++ .check m :: since
  noCheck : ∀ k, .check k ∉ since

namespace LatestCheck

variable {calls before since : List TheoryCall} {m : Assignment}

/-- A check is the latest one until another check comes. Requests after it do not end that, whether
they succeed or fail. -/
theorem append_learn (h : LatestCheck calls before m since) :
    LatestCheck (calls ++ [.learn]) before m (since ++ [.learn]) where
  split := by rw [h.split, List.append_assoc, List.cons_append]
  noCheck := noCheck_append_learn h.noCheck

/-- There is one latest check, so what is said of any is said of it. -/
theorem unique (h : LatestCheck calls before m since) {before' since' : List TheoryCall}
    {m' : Assignment} (h' : LatestCheck calls before' m' since') :
    before = before' ∧ m = m' ∧ since = since' := by
  rcases append_cons_cases (h.split.symm.trans h'.split) with
    ⟨hbefore, hcheck, hsince⟩ | ⟨gap, rfl, -⟩ | ⟨gap, rfl, -⟩
  · exact ⟨hbefore, TheoryCall.check.inj hcheck, hsince⟩
  · exact absurd (List.mem_append_right gap List.mem_cons_self) (h.noCheck m')
  · exact absurd (List.mem_append_right gap List.mem_cons_self) (h'.noCheck m)

/-- If no check is left to explain, the latest check has been explained. With a latest check at hand
the history is not without checks, so the request that the other case speaks of comes after it. -/
theorem explained {τ : Type} [Theory τ] {t : τ} (h : LatestCheck calls before m since)
    (unchecked : Theory.Unchecked t calls) :
    Theory.Explained (Theory.after t (before ++ [.check m])) since := by
  rcases unchecked with none_ | ⟨before', since', c, e, given, noCheck, -⟩
  · refine absurd ?_ (none_ m)
    rw [h.split]
    exact List.mem_append_right before List.mem_cons_self
  · -- the request that was answered came after the check
    rcases append_cons_cases (h.split.symm.trans e) with ⟨-, h, -⟩ | ⟨gap, rfl, rfl⟩ | ⟨gap, rfl, -⟩
    · cases h
    · refine ⟨gap, since', c, rfl, ?_⟩
      rw [← Theory.after_append, List.append_assoc]
      exact given
    · exact absurd (List.mem_append_right gap List.mem_cons_self) (noCheck m)

end LatestCheck

namespace AtomTable

variable {n : Nat} {atoms : AtomTable n}

/-- The explanation negates the literals that have an atom, in their order. In this form it is
compared with the clause that lazy refinement adds. -/
theorem explanation_eq (atoms : AtomTable n) (m : Assignment) :
    atoms.explanation m = (m.filter fun l => (atoms.atomOf? l).isSome).map Literal.negate := by
  induction m with
  | nil => rfl
  | cons l m ih =>
      unfold explanation theoryLiterals at ih ⊢
      rw [List.filterMap_cons, List.filter_cons]
      cases atoms.atomOf? l with
      | none => exact ih
      | some a => exact congrArg (l.negate :: ·) ih

/-- A law of the theory has a positive literal, since all variables may be equal. So an explanation
is never the empty clause. -/
theorem Valid.exists_positive {c : Clause} (h : atoms.Valid c) : ∃ l ∈ c, l.isNegated = false := by
  have holds : c.holds (fun _ => true) = true := h Unit (fun _ => ()) _ fun a _ => by simp
  obtain ⟨l, hl, hlρ⟩ := Clause.holds_iff.1 holds
  exact ⟨l, hl, by simpa [Literal.holds] using hlρ⟩

end AtomTable

namespace EqualityTheory

variable {n : Nat} {t : EqualityTheory n}

/-- The verdict decides how a request is answered, and what is left of the check. Each case gives
answer and state at once, so nothing about `learn` has to be unfolded later. -/
theorem learn_cases (t : EqualityTheory n) :
    (t.verdict = .unknown ∧ t.learn = (.error .noPriorCheck, t)) ∨
    (t.verdict = .consistent ∧ t.learn = (.error (.notInconsistent .consistent), t)) ∨
    (t.verdict = .inconsistent ∧ ∃ k, t.last = some k ∧
      t.learn = (.ok (t.atoms.explanation k.model), { t with last := none })) := by
  unfold verdict learn
  cases t.last with
  | none => exact .inl ⟨rfl, rfl⟩
  | some k =>
      cases hk : k.conflict with
      | none => exact .inr (.inl ⟨by simp [hk], by simp [hk]⟩)
      | some id => exact .inr (.inr ⟨by simp [hk], k, rfl, by simp [hk]⟩)

/-- A request that succeeds uses a conflict up, and none is left for another one. A second request
in a row therefore fails. -/
theorem verdict_of_learn_eq_ok {c : Clause} (h : t.learn.1 = .ok c) :
    t.verdict = .inconsistent ∧ t.learn.2.verdict = .unknown := by
  rcases t.learn_cases with ⟨-, h'⟩ | ⟨-, h'⟩ | ⟨rejected, k, -, h'⟩
  · rw [h'] at h
    cases h
  · rw [h'] at h
    cases h
  · rw [h']
    exact ⟨rejected, rfl⟩

/-- A request that fails changes nothing, neither the classes nor the check that is kept. -/
theorem learn_eq_of_error {e : TheoryError} (h : t.learn.1 = .error e) : t.learn.2 = t := by
  rcases t.learn_cases with ⟨-, h'⟩ | ⟨-, h'⟩ | ⟨-, k, -, h'⟩
  · rw [h']
  · rw [h']
  · rw [h'] at h
    cases h

/-- A request is no check, and is not counted as one. So the count of checks can be compared with
that of clauses. -/
theorem checks_learn (t : EqualityTheory n) : t.learn.2.checks = t.checks := by
  rcases t.learn_cases with ⟨-, h⟩ | ⟨-, h⟩ | ⟨-, k, -, h⟩ <;> rw [h]

/-- Requests alone change nothing if there is no conflict to explain, as each of them fails. -/
theorem after_eq_of_verdict_ne {calls : List TheoryCall} (noCheck : ∀ m, .check m ∉ calls)
    (fine : t.verdict ≠ .inconsistent) : Theory.after t calls = t := by
  induction calls with
  | nil => rfl
  | cons call calls ih =>
      cases call with
      | check m => exact absurd List.mem_cons_self (noCheck m)
      | learn =>
          -- a request leaves the theory as it is, and so the verdict for the next one
          have failed : t.learn.2 = t := by
            rcases t.learn_cases with ⟨-, h⟩ | ⟨-, h⟩ | ⟨rejected, -⟩
            · rw [h]
            · rw [h]
            · exact absurd rejected fine
          show Theory.after t.learn.2 calls = t
          rw [failed]
          exact ih fun m hm => noCheck m (List.mem_cons_of_mem _ hm)

/-- A check without a conflict is never explained, however often that is asked for. -/
theorem not_explained_of_verdict_ne {calls : List TheoryCall} (noCheck : ∀ m, .check m ∉ calls)
    (fine : t.verdict ≠ .inconsistent) : ¬ Theory.Explained t calls := by
  rintro ⟨before, since, c, rfl, given⟩
  rw [after_eq_of_verdict_ne (fun m hm => noCheck m (List.mem_append_left _ hm)) fine] at given
  exact fine (verdict_of_learn_eq_ok given).1

/-- What calls make of the verdict: there is no check to explain, or it is that of the latest check,
which has not been explained. The induction is on the history, with its last call taken off: a check
sets the verdict anew, and a request that succeeds leaves nothing to explain. -/
theorem standing_after (atoms : AtomTable n) (calls : List TheoryCall) :
    ((Theory.after (ofAtoms atoms) calls).verdict = .unknown ∧
      Theory.Unchecked (ofAtoms atoms) calls) ∨
    ∃ before m since, LatestCheck calls before m since ∧
      (Theory.after (ofAtoms atoms) calls).last =
        ((Theory.after (ofAtoms atoms) before).check m).last ∧
      ¬ Theory.Explained (Theory.after (ofAtoms atoms) (before ++ [.check m])) since := by
  induction calls using List.reverseRecOn with
  | nil => exact .inl ⟨rfl, .inl nofun⟩
  | append_singleton calls call ih =>
      rw [Theory.after_append]
      cases call with
      | check m =>
          exact .inr ⟨calls, m, [], ⟨rfl, nofun⟩, rfl, Theory.not_explained_nil _⟩
      | learn =>
          generalize ht : Theory.after (ofAtoms atoms) calls = t at ih
          show (t.learn.2.verdict = .unknown ∧ _) ∨ ∃ before m since, _ ∧ t.learn.2.last = _ ∧ _
          cases hr : t.learn.1 with
          | ok c =>
              -- the check is used up, and this is the last request that succeeded
              refine .inl ⟨(verdict_of_learn_eq_ok hr).2, .inr ⟨calls, [], c, rfl, ?_, nofun,
                Theory.not_explained_nil _⟩⟩
              rw [ht]
              exact hr
          | error e =>
              -- all is as before the request
              have failed : ∀ c, (Theory.learn (Theory.after (ofAtoms atoms) calls)).1 ≠ .ok c := by
                intro c given
                rw [ht, show (Theory.learn t).1 = .error e from hr] at given
                cases given
              rw [learn_eq_of_error hr]
              rcases ih with ⟨unknown, unchecked⟩ | ⟨before, m, since, latest, hlast, unexplained⟩
              · exact .inl ⟨unknown, unchecked.append_learn failed⟩
              · refine .inr ⟨before, m, since ++ [.learn], latest.append_learn, hlast,
                  Theory.not_explained_append_learn unexplained ?_⟩
                rw [← Theory.after_append, List.append_assoc, List.singleton_append, ← latest.split]
                exact failed

/-- The three ways in which a request is answered after some calls: there is no check to explain,
the latest one found no conflict, or it found one that has not been explained yet. -/
theorem learn_after_cases (atoms : AtomTable n) (calls : List TheoryCall) :
    (Theory.Unchecked (ofAtoms atoms) calls ∧
      (Theory.after (ofAtoms atoms) calls).learn =
        (.error .noPriorCheck, Theory.after (ofAtoms atoms) calls)) ∨
    ∃ before m since, LatestCheck calls before m since ∧
      ((((Theory.after (ofAtoms atoms) before).check m).verdict = .consistent ∧
        (Theory.after (ofAtoms atoms) calls).learn =
          (.error (.notInconsistent .consistent), Theory.after (ofAtoms atoms) calls)) ∨
      (((Theory.after (ofAtoms atoms) before).check m).verdict = .inconsistent ∧
        ¬ Theory.Explained (Theory.after (ofAtoms atoms) (before ++ [.check m])) since ∧
        (Theory.after (ofAtoms atoms) calls).learn = (.ok (atoms.explanation m),
          { Theory.after (ofAtoms atoms) calls with last := none }))) := by
  have hatoms : (Theory.after (ofAtoms atoms) calls).atoms = atoms := atoms_after _ calls
  have standing := standing_after atoms calls
  generalize Theory.after (ofAtoms atoms) calls = t at hatoms standing ⊢
  rcases standing with ⟨unknown, unchecked⟩ | ⟨before, m, since, latest, hlast, unexplained⟩
  · refine .inl ⟨unchecked, ?_⟩
    rcases t.learn_cases with ⟨-, h⟩ | ⟨h, -⟩ | ⟨h, -⟩
    · exact h
    · rw [unknown] at h
      cases h
    · rw [unknown] at h
      cases h
  · -- the verdict is that of the latest check
    have hverdict : t.verdict = ((Theory.after (ofAtoms atoms) before).check m).verdict := by
      unfold verdict
      rw [hlast]
    refine .inr ⟨before, m, since, latest, ?_⟩
    rcases t.learn_cases with ⟨h, -⟩ | ⟨h, hlearn⟩ | ⟨h, k, hk, hlearn⟩
    · exact absurd (hverdict.symm.trans h) (verdict_check_ne_unknown _ m)
    · exact .inl ⟨hverdict.symm.trans h, hlearn⟩
    · rw [hk] at hlast
      obtain rfl := Option.some.inj hlast
      exact .inr ⟨hverdict.symm.trans h, unexplained, by rw [hlearn, ← hatoms]⟩

/-- A check that is the latest one, although it was explained or there is none to explain, found a
conflict. Otherwise it would still be there, for only a conflict is ever explained. -/
theorem verdict_of_unchecked {atoms : AtomTable n} {calls before since : List TheoryCall}
    {m : Assignment} (latest : LatestCheck calls before m since)
    (unchecked : Theory.Unchecked (ofAtoms atoms) calls) :
    ((Theory.after (ofAtoms atoms) before).check m).verdict = .inconsistent := by
  by_contra fine
  have explained := latest.explained unchecked
  rw [Theory.after_append] at explained
  exact not_explained_of_verdict_ne latest.noCheck fine explained

/-- How a request is answered after any calls, and what it leaves behind. In this order: when a
clause is given; which clause it is, and that it is a law of the theory, false under the assignment
that was rejected; when each of the two errors comes; and what stays as it was after an error and
after a clause. -/
theorem learn_after (atoms : AtomTable n) (calls : List TheoryCall) :
    let new := ofAtoms atoms
    let t := Theory.after new calls
    let r := Theory.learn t
    ((∃ c, r.1 = .ok c) ↔ ∃ before m since, LatestCheck calls before m since ∧
      (Theory.check (Theory.after new before) m).1 = .inconsistent ∧
      ¬ Theory.Explained (Theory.after new (before ++ [.check m])) since) ∧
    (∀ c, r.1 = .ok c → ∀ before m since, LatestCheck calls before m since →
      c = (m.filter fun l => (atoms.atomOf? l).isSome).map Literal.negate ∧
      c ≠ [] ∧ (∀ l ∈ c, l.negate ∈ m) ∧ atoms.Valid c) ∧
    (r.1 = .error .noPriorCheck ↔ Theory.Unchecked new calls) ∧
    (r.1 = .error (.notInconsistent .consistent) ↔ ∃ before m since,
      LatestCheck calls before m since ∧
      (Theory.check (Theory.after new before) m).1 = .consistent) ∧
    (∀ e, r.1 = .error e → (e = .noPriorCheck ∨ e = .notInconsistent .consistent) ∧
      r.2.verdict = t.verdict ∧ r.2.conflict = t.conflict ∧ r.2.forest = t.forest ∧
      r.2.checks = t.checks) ∧
    (∀ c, r.1 = .ok c → r.2.forest = t.forest ∧ r.2.checks = t.checks ∧
      r.2.verdict = .unknown) := by
  intro new t r
  rcases learn_after_cases atoms calls with
    ⟨unchecked, hr⟩ | ⟨before, m, since, latest, ⟨consistent, hr⟩ | ⟨rejected, unexplained, hr⟩⟩
  · -- nothing to explain
    have hr : r = (.error .noPriorCheck, t) := hr
    rw [hr]
    refine ⟨⟨nofun, ?_⟩, nofun, ⟨fun _ => unchecked, fun _ => rfl⟩, ⟨nofun, ?_⟩, ?_, nofun⟩
    · rintro ⟨before, m, since, latest, -, unexplained⟩
      -- with a latest check, the last explanation came after it
      exact absurd (latest.explained unchecked) unexplained
    · rintro ⟨before, m, since, latest, consistent⟩
      exact nomatch (verdict_of_unchecked latest unchecked).symm.trans consistent
    · rintro e ⟨⟩
      exact ⟨.inl rfl, rfl, rfl, rfl, rfl⟩
  · -- no conflict
    have hr : r = (.error (.notInconsistent .consistent), t) := hr
    rw [hr]
    refine ⟨⟨nofun, ?_⟩, nofun, ⟨nofun, fun unchecked => ?_⟩,
      ⟨fun _ => ⟨before, m, since, latest, consistent⟩, fun _ => rfl⟩, ?_, nofun⟩
    · rintro ⟨before', m', since', latest', rejected, -⟩
      obtain ⟨rfl, rfl, rfl⟩ := latest.unique latest'
      exact nomatch consistent.symm.trans rejected
    · exact nomatch consistent.symm.trans (verdict_of_unchecked latest unchecked)
    · rintro e ⟨⟩
      exact ⟨.inr rfl, rfl, rfl, rfl, rfl⟩
  · -- a conflict that no clause has been given for
    have hr : r = (.ok (atoms.explanation m), { t with last := none }) := hr
    have hbefore : (Theory.after (ofAtoms atoms) before).atoms = atoms := atoms_after _ before
    have valid : atoms.Valid (atoms.explanation m) := by
      have unrealisable := verdict_check_eq_inconsistent.1 rejected
      rw [hbefore] at unrealisable
      exact AtomTable.valid_explanation unrealisable
    rw [hr]
    refine ⟨⟨fun _ => ⟨before, m, since, latest, rejected, unexplained⟩, fun _ => ⟨_, rfl⟩⟩, ?_,
      ⟨nofun, fun unchecked => absurd (latest.explained unchecked) unexplained⟩, ⟨nofun, ?_⟩,
      nofun, fun _ _ => ⟨rfl, rfl, rfl⟩⟩
    · rintro c ⟨⟩ before' m' since' latest'
      obtain ⟨rfl, rfl, rfl⟩ := latest.unique latest'
      -- a law of the theory has a positive literal, so the clause is not empty
      refine ⟨atoms.explanation_eq m, fun empty => ?_,
        fun l => atoms.negate_mem_of_mem_explanation m, valid⟩
      obtain ⟨l, hl, -⟩ := valid.exists_positive
      rw [empty] at hl
      cases hl
    · rintro ⟨before', m', since', latest', consistent⟩
      obtain ⟨rfl, rfl, rfl⟩ := latest.unique latest'
      exact nomatch rejected.symm.trans consistent

end EqualityTheory

end EqualityLogic
