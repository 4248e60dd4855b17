import EqualityLogic.Proofs.Search.Coverage
import EqualityLogic.Proofs.Search.Entailment
import Mathlib

/-!
# Answers of a search are right, whatever the theory says

A theory may reject any assignment and explain this by any clause, also by one that has nothing to
do with the assignment. The answer of a search is right all the same, with respect to the clauses
that the search leaves behind: the given ones, those that it pruned among them, and all that it
learned. `answer_sound` states this for every run that ends.

The invariant is `State.Sound`. Apart from what the modules before this one keep, it accounts for
the clauses: each of them was given or is one that the search works on. So a clause out of sight has
only variables that every reported assignment covers.
-/

set_option autoImplicit false

namespace EqualityLogic.Search

variable {τ : Type} {o : Options} {oversight : Oversight} {f : Formula} {b : Nat} {s s' : State τ}

/-- What a search from a formula keeps, over the variables up to `b`. -/
structure State.Sound (f : Formula) (b : Nat) (s : State τ) : Prop where
  wellFormed : s.trail.WellFormed
  entailed : Trail.Entailed s.working s.trail.entries
  sameMeaning : s.SameMeaning
  given : f <+: s.clauses
  accounted : ∀ c ∈ s.clauses, c ∈ f ∨ c ∈ s.working
  slots : b < s.trail.values.size

/-- A search starts with an empty trail and the given clauses, of which it works on those that
pruning has kept. -/
theorem sound_start (o : Options) (f : Formula) (n : Nat) (theory : τ) :
    (State.start o f n theory).Sound f (max n f.maxVar) where
  wellFormed := Trail.wellFormed_empty _
  entailed := trivial
  sameMeaning := sameMeaning_start o f n theory
  given := List.prefix_rfl
  accounted _ hc := .inl hc
  slots := by
    show max n f.maxVar < (Values.blank (max n f.maxVar)).size
    rw [Values.size_blank]
    omega

variable [Theory τ]

/-- Every move keeps a search sound, whatever clause the theory gives. A learned clause joins both
formulas, so it is accounted for. -/
theorem Move.sound (m : Move o oversight s s') (h : s.Sound f b) : s'.Sound f b where
  wellFormed := m.wellFormed h.wellFormed
  entailed := m.entailed h.wellFormed h.entailed
  sameMeaning := m.sameMeaning h.sameMeaning
  given := h.given.trans m.clauses_prefix
  accounted := by
    cases m with
    | learn =>
        -- a learned clause joins the clauses in sight as well
        intro c hc
        rcases List.mem_append.1 hc with hc | hc
        · exact (h.accounted c hc).imp_right (List.mem_append_left _)
        · exact .inr (List.mem_append_right _ hc)
    | _ => exact h.accounted
  slots := Nat.lt_of_lt_of_le h.slots m.size_le

/-- The end of a search leaves the clauses as they are. -/
theorem Halt.clauses_eq {r : Result τ} (halt : Halt o oversight s r) : r.clauses = s.clauses := by
  cases halt <;> rfl

/-- A search that ends does so in a sound state, so the lemmas on `Halt` apply to every run. -/
theorem exists_sound_halt {n : Nat} {theory : τ} {r : Result τ}
    (h : Process.Ends (step o oversight) (.start o f n theory) r) :
    ∃ s, s.Sound f (max n f.maxVar) ∧ Halt o oversight s r :=
  exists_halt_of_ends (fun _ _ m hs => m.sound hs) (sound_start o f n theory) h

omit [Theory τ] in
/-- When nothing is left to be assigned, the assignment solves all clauses. For a clause that was
pruned this rests on the bound: all of its variables are listed. -/
theorem State.Finished.solves (finished : s.Finished oversight) (h : s.Sound f b)
    (le : f.maxVar ≤ b) : s.trail.assignment.Solves s.clauses b := by
  have covers : ∀ v, 1 ≤ v → v ≤ b → ∃ l ∈ s.trail.assignment, l.var = v :=
    fun v => finished.covers h.wellFormed h.slots
  have holds : s.clauses.holds s.trail.assignment.valuation = true := by
    rw [← h.sameMeaning]
    exact finished.holds h.wellFormed
  refine ⟨h.wellFormed.ascending_assignment, covers, fun c hc => ?_⟩
  rcases h.accounted c hc with hf | hworking
  · -- a given clause may have been pruned, but it has no variable that is not listed
    refine Assignment.exists_mem_of_holds h.wellFormed.consistent (fun l hl => ?_)
      (Formula.holds_iff.1 holds c hc)
    have hvar := Formula.var_le_maxVar hf hl
    have := l.var_ne_zero
    exact covers l.var (by omega) (by omega)
  · exact finished.exists_mem h.wellFormed hworking

/-- An assignment with which a search ends solves all its clauses. The bound has to cover the
formula, or a pruned clause might have a variable that is not listed. -/
theorem Halt.solves_of_sat {r : Result τ} {m : Assignment} (halt : Halt o oversight s r)
    (sat : r.answer = .ok (.sat m)) (h : s.Sound f b) (le : f.maxVar ≤ b) :
    m.Solves r.clauses b := by
  obtain ⟨rfl, finished, hclauses⟩ := halt.finished_of_sat sat
  rw [hclauses]
  exact finished.solves h le

/-- Only a limit on decisions makes a search give up, whatever the theory says. -/
theorem Halt.limit_of_unknown {r : Result τ} (halt : Halt o oversight s r)
    (unknown : r.answer = .ok .unknown) : o.decisionLimit.isSome = true := by
  cases halt with
  | unknown _ _ _ _ spent =>
      cases hlimit : o.decisionLimit with
      | none =>
          rw [hlimit] at spent
          cases spent
      | some k => rfl
  | _ => cases unknown

section

variable {n : Nat} {theory : τ} {r : Result τ}
  (h : Process.Ends (step o oversight) (.start o f n theory) r)

include h

/-- The given clauses are still there at the end, in front of what was learned. -/
theorem prefix_of_ends : f <+: r.clauses := by
  obtain ⟨s, sound, halt⟩ := exists_sound_halt h
  rw [halt.clauses_eq]
  exact sound.given

/-- The assignment at the end solves all clauses, over all variables in sight: those that were asked
for and those of the formula. -/
theorem solves_of_ends {m : Assignment} (sat : r.answer = .ok (.sat m)) :
    m.Solves r.clauses (max n f.maxVar) := by
  obtain ⟨s, sound, halt⟩ := exists_sound_halt h
  exact halt.solves_of_sat sat sound (Nat.le_max_right _ _)

/-- Without an assignment at the end, the clauses fail under every valuation. The learned ones are
among them, so this is as good as the theory's explanations are. -/
theorem unsat_of_ends (unsat : r.answer = .ok .unsat) (ρ : Valuation) :
    r.clauses.holds ρ = false := by
  obtain ⟨s, sound, halt⟩ := exists_sound_halt h
  exact halt.unsat_of_unsat unsat sound.wellFormed sound.entailed sound.sameMeaning ρ

/-- Without an answer at the end, there was a limit on decisions. -/
theorem limited_of_ends (unknown : r.answer = .ok .unknown) : o.decisionLimit.isSome = true := by
  obtain ⟨s, -, halt⟩ := exists_sound_halt h
  exact halt.limit_of_unknown unknown

end

/-- The answer of a search is right for the clauses that it leaves behind, with any theory. The
hypothesis asks for a run that ends, since with a theory that explains badly there may be none. -/
theorem answer_sound {n : Nat} {theory : τ} {r : Result τ}
    (h : Process.Ends (step o oversight) (.start o f n theory) r) :
    f <+: r.clauses ∧
    (∀ m, r.answer = .ok (.sat m) → m.Solves r.clauses (max n f.maxVar)) ∧
    (r.answer = .ok .unsat → ∀ ρ, r.clauses.holds ρ = false) ∧
    (r.answer = .ok .unknown → o.decisionLimit.isSome = true) :=
  ⟨prefix_of_ends h, fun _ sat => solves_of_ends h sat, fun unsat => unsat_of_ends h unsat,
    fun unknown => limited_of_ends h unknown⟩

/-- A theory that rejects one assignment, and explains this by a clause that need not fit. -/
structure Objection where
  clause : Clause
  raised : Bool

instance : Theory Objection where
  check t _ := (if t.raised then .consistent else .inconsistent, t)
  learn t := (.ok t.clause, { t with raised := true })

/-- The second clause is pruned, the assignment -1, 2, -3 is rejected, and the clause that explains
this brings in a variable that the search did not know. -/
theorem answer_sound_objection :
    let f : Formula := [[⟨1, by decide⟩, ⟨2, by decide⟩],
      [⟨1, by decide⟩, ⟨2, by decide⟩, ⟨3, by decide⟩]]
    let learned : Clause := [⟨4, by decide⟩]
    let m : Assignment := [⟨-1, by decide⟩, ⟨2, by decide⟩, ⟨-3, by decide⟩, ⟨4, by decide⟩]
    let r : Result Objection := ⟨.ok (.sat m), f ++ [learned], ⟨learned, true⟩⟩
    Process.Ends (step {} .complete) (.start {} f 2 ⟨learned, false⟩) r ∧
      m.Solves (f ++ [learned]) 3 := by
  intro f learned m r
  have ends : Process.Ends (step {} .complete) (.start {} f 2 ⟨learned, false⟩) r :=
    Process.ends_of_upTo (n := 9) (by cbv)
  exact ⟨ends, (answer_sound ends).2.1 m rfl⟩

end EqualityLogic.Search
