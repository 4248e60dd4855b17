import EqualityLogic.Proofs.Integration.Engines
import EqualityLogic.Proofs.Integration.Models
import Mathlib.Data.Fintype.BigOperators

/-!
# How much there is to learn

A clause over the atoms says of each atom whether it is named, and with which sign. `signs` lists
this, so that clauses are counted as functions from atoms to signs. A law of the theory has a
positive literal, since all variables of the theory may be equal, so functions without one are
ruled out.

`Learned` gathers what all strategies keep of the clauses that they learn: each is a law of the
theory that names no atom twice, and none contains the literals of an earlier one. So there are at
most `3 ^ n - 2 ^ n` of them (`Learned.length_le`), and at most `2 ^ n - 1` if each names every atom
(`Learned.length_le_of_full`). What is left to each strategy is to show that the clause that
excludes a rejected assignment contains no earlier one (`Learned.append_exclusion`).
-/

set_option autoImplicit false

namespace EqualityLogic

/-- There are no more functions than fit into one box and not into another one within it. Clauses
over `n` atoms are counted in this way, as functions from atoms to signs. -/
theorem length_le_pow_sub_pow {α : Type} [DecidableEq α] {n : Nat} {S T : Finset α} (sub : S ⊆ T)
    {codes : List (Fin n → α)} (distinct : codes.Nodup) (inT : ∀ f ∈ codes, ∀ i, f i ∈ T)
    (notS : ∀ f ∈ codes, ∃ i, f i ∉ S) : codes.length ≤ T.card ^ n - S.card ^ n := by
  -- the functions are those of the one box without those of the other
  have within : codes.toFinset ⊆
      (Fintype.piFinset fun _ => T) \ (Fintype.piFinset fun _ => S) := by
    intro f hf
    rw [List.mem_toFinset] at hf
    rw [Finset.mem_sdiff, Fintype.mem_piFinset, Fintype.mem_piFinset]
    obtain ⟨i, hi⟩ := notS f hf
    exact ⟨inT f hf, fun all => hi (all i)⟩
  calc codes.length = codes.toFinset.card := (List.toFinset_card_of_nodup distinct).symm
    _ ≤ _ := Finset.card_le_card within
    _ = T.card ^ n - S.card ^ n := by
        rw [Finset.card_sdiff_of_subset (Fintype.piFinset_subset _ _ fun _ => sub),
          Fintype.card_piFinset_const, Fintype.card_piFinset_const]

/-- The sign with which a clause names a variable first, if it does. -/
def Clause.sign (c : Clause) (v : Nat) : Option Bool :=
  (c.find? fun l => l.var = v).map Literal.isNegated

/-- The sign of a variable is that of a literal in the clause, so a clause can be found again in its
signs. -/
theorem Clause.mem_of_sign {c : Clause} {l : Literal} (h : c.sign l.var = some l.isNegated) :
    l ∈ c := by
  obtain ⟨k, hk, hs⟩ := Option.map_eq_some_iff.1 h
  have hv : k.var = l.var := by simpa using List.find?_some hk
  rw [← Literal.eq_of_var_of_isNegated hv hs]
  exact List.mem_of_find?_eq_some hk

/-- The literal of a clause that names no variable twice has the sign that is found for its
variable. -/
theorem Clause.sign_of_mem {c : Clause} (nodup : (c.map Literal.var).Nodup) {l : Literal}
    (hl : l ∈ c) : c.sign l.var = some l.isNegated := by
  cases h : c.find? fun k => k.var = l.var with
  | none => exact absurd (List.find?_eq_none.1 h l hl) (by simp)
  | some k =>
      have hv : k.var = l.var := by simpa using List.find?_some h
      have hkl : k = l := List.inj_on_of_nodup_map nodup (List.mem_of_find?_eq_some h) hl hv
      unfold sign
      rw [h, hkl]
      rfl

namespace Problem

variable {p : Problem}

/-- A clause that names atoms only, and none of them twice. -/
structure OverAtoms (p : Problem) (c : Clause) : Prop where
  nodup : (c.map Literal.var).Nodup
  atoms : ∀ l ∈ c, ∃ a ∈ p.atoms.atoms, a.id = l.var

/-- The sign with which a clause names each atom. -/
def signs (p : Problem) (c : Clause) (i : Fin p.atoms.atoms.length) : Option Bool :=
  c.sign p.atoms.atoms[i].id

/-- A literal of a clause over atoms shows up among the signs of the clause, at its atom. Nothing of
such a clause is lost by looking at its signs. -/
theorem OverAtoms.exists_signs {c : Clause} (h : p.OverAtoms c) {l : Literal} (hl : l ∈ c) :
    ∃ i, p.atoms.atoms[i].id = l.var ∧ p.signs c i = some l.isNegated := by
  obtain ⟨a, ha, hid⟩ := h.atoms l hl
  obtain ⟨i, hi, rfl⟩ := List.getElem_of_mem ha
  refine ⟨⟨i, hi⟩, hid, ?_⟩
  show c.sign p.atoms.atoms[i].id = _
  rw [hid]
  exact Clause.sign_of_mem h.nodup hl

/-- A clause over atoms has no other literals than any clause with its signs. So of two learned
clauses with the same signs the later one would contain the earlier. -/
theorem OverAtoms.subset_of_signs_eq {c d : Clause} (h : p.OverAtoms d)
    (same : p.signs d = p.signs c) : d ⊆ c := by
  intro l hl
  obtain ⟨i, hid, hsign⟩ := h.exists_signs hl
  rw [same] at hsign
  refine Clause.mem_of_sign ?_
  rw [← hid]
  exact hsign

/-- A literal and its negation are about one atom, since they have one variable. -/
@[simp] theorem atomOf?_negate (p : Problem) (l : Literal) :
    p.atoms.atomOf? l.negate = p.atoms.atomOf? l := by
  unfold AtomTable.atomOf?
  rw [Literal.var_negate]

/-- The literals of an exclusion are the negations of those that have an atom. Statements about the
clause are turned into statements about the assignment by it. -/
theorem mem_exclusion {m : Assignment} {l : Literal} :
    l ∈ p.exclusion m ↔ l.negate ∈ m ∧ (p.atoms.atomOf? l).isSome = true := by
  unfold exclusion
  rw [List.mem_map]
  constructor
  · rintro ⟨k, hk, rfl⟩
    rw [Literal.negate_negate, atomOf?_negate]
    exact List.mem_filter.1 hk
  · rintro ⟨hl, atom⟩
    exact ⟨l.negate, List.mem_filter.2 ⟨hl, by rwa [atomOf?_negate]⟩, l.negate_negate⟩

/-- The clause that excludes an assignment names variables in the order of the assignment, so it
names none of them twice. -/
theorem ascending_exclusion {m : Assignment} (ascending : m.Pairwise fun k l => k.var < l.var) :
    (p.exclusion m).Pairwise fun k l => k.var < l.var := by
  refine List.pairwise_map.2 ((ascending.filter _).imp fun hkl => ?_)
  rwa [Literal.var_negate, Literal.var_negate]

/-- The clause that excludes an assignment without repetitions names atoms only, and none of them
twice. -/
theorem overAtoms_exclusion {m : Assignment} (ascending : m.Pairwise fun k l => k.var < l.var) :
    p.OverAtoms (p.exclusion m) where
  nodup := List.pairwise_map.2 ((ascending_exclusion ascending).imp Nat.ne_of_lt)
  atoms l hl := by
    obtain ⟨a, ha⟩ := Option.isSome_iff_exists.1 (mem_exclusion.1 hl).2
    exact ⟨a, AtomTable.atomOf?_eq_some.1 ha⟩

/-- The clause that excludes an assignment that cannot be realised is a law of the theory, as it is
what the theory explains the rejection with. -/
theorem valid_exclusion {m : Assignment} (unrealisable : ¬ p.atoms.Realisable m) :
    p.atoms.Valid (p.exclusion m) := by
  have h := AtomTable.valid_explanation unrealisable
  rwa [AtomTable.explanation_eq] at h

/-- Clauses in the order in which they were learned. -/
structure Learned (p : Problem) (cs : Formula) : Prop where
  overAtoms : ∀ c ∈ cs, p.OverAtoms c
  valid : ∀ c ∈ cs, p.atoms.Valid c
  irredundant : cs.Pairwise fun d c => ¬ d ⊆ c

namespace Learned

variable {cs : Formula}

/-- Nothing has been learned yet at the start of a strategy. -/
theorem nil : p.Learned [] := ⟨nofun, nofun, .nil⟩

/-- One more assignment may be excluded by a clause that contains no earlier one. Each strategy has
to give a reason of its own for this last condition. -/
theorem append_exclusion (h : p.Learned cs) {m : Assignment}
    (ascending : m.Pairwise fun k l => k.var < l.var) (unrealisable : ¬ p.atoms.Realisable m)
    (new : ∀ d ∈ cs, ¬ d ⊆ p.exclusion m) : p.Learned (cs ++ [p.exclusion m]) where
  overAtoms := List.forall_mem_append.2
    ⟨h.overAtoms, List.forall_mem_singleton.2 (overAtoms_exclusion ascending)⟩
  valid := List.forall_mem_append.2
    ⟨h.valid, List.forall_mem_singleton.2 (valid_exclusion unrealisable)⟩
  irredundant := List.pairwise_append.2 ⟨h.irredundant, List.pairwise_singleton _ _,
    fun d hd => List.forall_mem_singleton.2 (new d hd)⟩

/-- Learned clauses differ in their signs, so there are no more of them than lists of signs. -/
theorem nodup_signs (h : p.Learned cs) : (cs.map p.signs).Nodup :=
  List.pairwise_map.2 (h.irredundant.imp_of_mem fun hd _ irredundant same =>
    irredundant ((h.overAtoms _ hd).subset_of_signs_eq same))

/-- Some atom is named with a positive sign, because a law of the theory has a positive literal. It
takes all functions without one off the count. -/
theorem exists_signs_not_mem (h : p.Learned cs) {f : Fin p.atoms.atoms.length → Option Bool}
    (hf : f ∈ cs.map p.signs) {S : Finset (Option Bool)} (hS : some false ∉ S) : ∃ i, f i ∉ S := by
  obtain ⟨c, hc, rfl⟩ := List.mem_map.1 hf
  obtain ⟨l, hl, positive⟩ := (h.valid c hc).exists_positive
  obtain ⟨i, -, hsign⟩ := (h.overAtoms c hc).exists_signs hl
  rw [positive] at hsign
  exact ⟨i, hsign ▸ hS⟩

/-- Clauses over `n` atoms leave each atom out or name it with one of two signs, and not all of them
leave out or negate every atom. Hence the bound, three choices for each atom less those two. -/
theorem length_le (h : p.Learned cs) :
    cs.length ≤ 3 ^ p.atoms.atoms.length - 2 ^ p.atoms.atoms.length := by
  have le := length_le_pow_sub_pow (Finset.subset_univ {none, some true}) h.nodup_signs
    (fun _ _ _ => Finset.mem_univ _) fun f hf => h.exists_signs_not_mem hf (by decide)
  rwa [List.length_map] at le

/-- Clauses that name all `n` atoms choose one of two signs for each, and none negates all, which
leaves out one of the `2 ^ n` choices. -/
theorem length_le_of_full (h : p.Learned cs)
    (full : ∀ c ∈ cs, c.map Literal.var = p.atoms.atoms.map Atom.id) :
    cs.length ≤ 2 ^ p.atoms.atoms.length - 1 := by
  have le := length_le_pow_sub_pow (S := {some true}) (T := {some true, some false}) (by decide)
    h.nodup_signs (fun f hf i => ?_) fun f hf => h.exists_signs_not_mem hf (by decide)
  · rw [List.length_map] at le
    simpa using le
  · obtain ⟨c, hc, rfl⟩ := List.mem_map.1 hf
    -- each atom is named, so each sign is one of the two
    have named : p.atoms.atoms[i].id ∈ c.map Literal.var := by
      rw [full c hc]
      exact List.mem_map_of_mem (List.getElem_mem _)
    obtain ⟨l, hl, hv⟩ := List.mem_map.1 named
    show c.sign p.atoms.atoms[i].id ∈ _
    rw [← hv, Clause.sign_of_mem (h.overAtoms c hc).nodup hl]
    cases l.isNegated <;> decide

end Learned

end Problem

/-- Of the clauses that an outcome counts, the learned ones come last, so counting them off gives
them back. -/
theorem Outcome.learned_eq {out : Outcome} {f cs : Formula} (clauses : out.clauses = f ++ cs)
    (lemmas : out.lemmas = cs.length) : out.learned = cs := by
  unfold learned
  rw [clauses, lemmas, List.length_append, Nat.add_sub_cancel, List.drop_left]

end EqualityLogic
