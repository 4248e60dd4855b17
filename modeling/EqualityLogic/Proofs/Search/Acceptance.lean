import EqualityLogic.Proofs.Search.Soundness
import EqualityLogic.Search.Termination
import EqualityLogic.Theory.Recorded

/-!
# The theory has accepted what a search reports

When a search ends with an assignment, the last thing it did with its theory was to have this very
assignment judged, and the theory did not reject it (`sat_approved`). The theory has to be lawful: a
clause that does not exclude the rejected assignment would let the search go on with it.

A search that consults its theory about complete assignments asks at the end. One that consults it
about partial assignments ends without a question and relies on its record of changes, which says
whether the theory has seen the trail. `Watched` is what this record is worth: where nothing has
changed and no clause is false, the latest call approved the trail. Only a consultation clears the
record. It approves the trail, or else the clause that it leads to is false.

There is one exception. The record starts out clear although the theory has not seen the empty
trail. Where there is no variable to assign, a search that consults its theory about partial
assignments reports the empty assignment without a question, also if the theory would reject it
(`unseen_empty_assignment`).
-/

set_option autoImplicit false

namespace EqualityLogic.Search

/-- The latest of some calls judged the assignment and did not reject it. -/
def Approved (calls : List OracleCall) (m : Assignment) : Prop :=
  ∃ before v, calls = before ++ [.check m v] ∧ v ≠ .inconsistent

variable {τ : Type} [Theory τ] {o : Options} {oversight : Oversight} {f : Formula} {b : Nat}
  {s s' : State (Recorded τ)}

/-- What a search keeps if its theory is lawful: the record of changes can be relied on, except for
the empty trail with which it starts. -/
structure Watched (oversight : Oversight) (s : State (Recorded τ)) : Prop where
  wellFormed : s.trail.WellFormed
  lawful : Theory.Lawful s.theory
  seen : oversight = .partialAssignments → s.changed = false →
    s.working.value s.trail ≠ some false →
    Approved s.theory.calls s.trail.assignment ∨ s.trail.entries = [] ∧ s.theory.calls = []

/-- A search starts with an empty trail and no call, which is the exception that the record allows.
-/
theorem watched_start (o : Options) (oversight : Oversight) (f : Formula) (n : Nat) {theory : τ}
    (lawful : Theory.Lawful theory) :
    Watched oversight (.start o f n (Recorded.mk theory [])) where
  wellFormed := Trail.wellFormed_empty _
  lawful := Recorded.lawful lawful
  seen _ _ _ := .inr ⟨rfl, rfl⟩

/-- A check that does not reject an assignment approves it. To have no opinion counts as approval.
-/
theorem approved_of_check_eq {t th : Recorded τ} {m : Assignment} {v : Verdict}
    (judged : Theory.check t m = (v, th)) (fine : v ≠ .inconsistent) : Approved th.calls m :=
  ⟨t.calls, v, Recorded.calls_of_check_eq judged, fine⟩

/-- Every move keeps the record reliable. A move that changes the trail sets the record, and of
those that clear it, one has the trail approved and the other makes a clause false. -/
theorem Watched.move (h : Watched oversight s) (move : Move o oversight s s') :
    Watched oversight s' where
  wellFormed := move.wellFormed h.wellFormed
  lawful := move.lawful h.lawful
  seen := by
    intro mode unchanged noConflict
    cases move with
    | approve _ _ judged fine => exact .inl (approved_of_check_eq judged fine)
    | learn _ _ judged explained =>
        -- the rejected trail stays, but it makes the learned clause false
        exact absurd (value_append_learned h.wellFormed h.lawful judged explained) noConflict
    -- the trail is a new one
    | _ => cases unchanged

/-- A search that ends with an assignment had it approved last, or its trail is empty and it has
asked nothing. -/
theorem Watched.approved_of_sat (h : Watched oversight s) {r : Result (Recorded τ)}
    (halt : Halt o oversight s r) {m : Assignment} (sat : r.answer = .ok (.sat m)) :
    Approved r.theory.calls m ∨
      oversight = .partialAssignments ∧ s.trail.entries = [] ∧ r.theory.calls = [] := by
  cases halt with
  | accept _ _ judged fine =>
      cases sat
      exact .inl (approved_of_check_eq judged fine)
  | approved mode finished =>
      -- there is no check in this step, so the record of an earlier one has to do
      cases sat
      have unchanged : s.changed = false := by
        cases hchanged : s.changed with
        | false => rfl
        | true => exact absurd ⟨mode, hchanged⟩ finished.notDue
      exact (h.seen mode unchanged finished.noConflict).imp_right fun none_ => ⟨mode, none_⟩
  | _ => cases sat

/-- The empty assignment solves nothing but the empty formula, over no variables. So the exception
is no more than that. -/
theorem eq_nil_of_solves_nil {g : Formula} (h : Assignment.Solves [] g b) : g = [] ∧ b = 0 := by
  constructor
  · cases g with
    | nil => rfl
    | cons c g =>
        obtain ⟨l, -, hl⟩ := h.satisfies c List.mem_cons_self
        cases hl
  · by_contra pos
    obtain ⟨l, hl, -⟩ := h.covers 1 (Nat.le_refl 1) (by omega)
    cases hl

/-- An assignment with which a search ends is the one that its lawful theory judged last, and not to
be rejected, unless there was no variable to assign. -/
theorem sat_approved {τ : Type} [Theory τ] (o : Options) (oversight : Oversight) (f : Formula)
    (n : Nat) {theory : τ} (lawful : Theory.Lawful theory) {r : Result (Recorded τ)}
    {m : Assignment}
    (ends : Process.Ends (step o oversight) (.start o f n (Recorded.mk theory [])) r)
    (sat : r.answer = .ok (.sat m)) :
    Approved r.theory.calls m ∨
      oversight = .partialAssignments ∧ f = [] ∧ n = 0 ∧ m = [] ∧ r.theory.calls = [] := by
  obtain ⟨s, ⟨sound, watched⟩, halt⟩ := exists_halt_of_ends
    (P := fun s => s.Sound f (max n f.maxVar) ∧ Watched oversight s)
    (fun s s' move h => ⟨move.sound h.1, h.2.move move⟩)
    ⟨sound_start o f n (Recorded.mk theory []), watched_start o oversight f n lawful⟩ ends
  rcases watched.approved_of_sat halt sat with approved | ⟨mode, empty, silent⟩
  · exact .inl approved
  · -- an empty trail assigns all variables, so there are none
    have solves := halt.solves_of_sat sat sound (Nat.le_max_right _ _)
    obtain ⟨rfl, -, hclauses⟩ := halt.finished_of_sat sat
    have hm : s.trail.assignment = [] := by
      simp [Trail.assignment, empty]
    rw [hm] at solves ⊢
    obtain ⟨noClause, noVariable⟩ := eq_nil_of_solves_nil solves
    have given := sound.given
    rw [← hclauses, noClause, List.prefix_nil] at given
    exact .inr ⟨mode, given, by omega, rfl, silent⟩

/-- A theory that rules out that some literals are all true. -/
structure Veto where
  literals : List Literal

instance : Theory Veto where
  check t m := (if t.literals ⊆ m then .inconsistent else .consistent, t)
  learn t := (.ok (t.literals.map Literal.negate), t)

instance : LawfulTheory Veto where
  negate_mem {t m c l} rejected explained hl := by
    have rejected : (if t.literals ⊆ m then Verdict.inconsistent else .consistent) =
      .inconsistent := rejected
    split at rejected
    · next sub =>
      cases explained
      obtain ⟨k, hk, rfl⟩ := List.mem_map.1 hl
      rw [Literal.negate_negate]
      exact sub hk
    · cases rejected

/-- The assignment -1, 2 is ruled out, and 1, -2 is reported once it has been approved. The calls
show that the rejected assignment was explained in between. -/
theorem sat_approved_veto :
    let p : Literal := ⟨1, by decide⟩
    let q : Literal := ⟨2, by decide⟩
    let veto : Veto := ⟨[p.negate, q]⟩
    let calls : List OracleCall := [.check [p.negate] .consistent,
      .check [p.negate, q] .inconsistent, .learn (.ok [p, q.negate]),
      .check [p] .consistent, .check [p, q.negate] .consistent]
    let r : Result (Recorded Veto) :=
      ⟨.ok (.sat [p, q.negate]), [[p, q], [p, q.negate]], ⟨veto, calls.reverse⟩⟩
    Process.Ends (step {} .partialAssignments) (.start {} [[p, q]] 2 (Recorded.mk veto [])) r ∧
      Approved calls [p, q.negate] := by
  intro p q veto calls r
  have ends : Process.Ends (step {} .partialAssignments)
      (.start {} [[p, q]] 2 (Recorded.mk veto [])) r :=
    Process.ends_of_upTo (n := 11) (by cbv)
  have last := sat_approved {} .partialAssignments [[p, q]] 2 (Theory.lawful veto) ends rfl
  exact ⟨ends, last.resolve_right fun none_ => List.cons_ne_nil _ _ none_.2.1⟩

/-- Without a variable to assign, a search that consults its theory about partial assignments
reports the empty assignment, although the theory rejects it. The record of changes starts out as if
the theory had seen the empty trail. -/
theorem unseen_empty_assignment :
    let veto : Veto := ⟨[]⟩
    let r : Result (Recorded Veto) := ⟨.ok (.sat []), [], ⟨veto, []⟩⟩
    Theory.Lawful veto ∧ (Theory.check veto []).1 = .inconsistent ∧
      Process.Ends (step {} .partialAssignments) (.start {} [] 0 (Recorded.mk veto [])) r ∧
      ¬ Approved r.theory.calls [] := by
  intro veto r
  refine ⟨Theory.lawful veto, rfl, Process.ends_of_upTo (n := 1) (by cbv), ?_⟩
  rintro ⟨before, v, e, -⟩
  cases before <;> cases e

end EqualityLogic.Search
