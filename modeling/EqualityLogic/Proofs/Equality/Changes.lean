import EqualityLogic.Proofs.Equality.Classes
import EqualityLogic.Proofs.Equality.Explanation

/-!
# Forests after merges and resets

A forest starts with single indexes, and is changed by merges and resets in any order.
`classes_after` says what can be read from it then. The classes are generated by the merges since
the last reset, the members of each class and the classes as a whole are listed without loss or
repetition, and all walks through the links come to an end.

Two invariants carry this, and each is kept by one change at a time. The forest is `Matched`
(`matched_after`), from which all the listings follow. It `Represents` the relation of having been
merged (`represents_after`): a merge adds a pair to that relation, and a reset empties it.
-/

set_option autoImplicit false

namespace EqualityLogic

/-- What may be done to a forest over `n` indexes. -/
inductive ForestChange (n : Nat) where
  /-- The classes of two indexes are joined. -/
  | merge (a b : Fin n)
  /-- Every merge is forgotten. -/
  | reset
deriving DecidableEq

namespace Forest

open Process (Ends)

variable {n : Nat}

/-- The forest after one change. -/
def change (f : Forest n) : ForestChange n → Forest n
  | .merge a b => f.merge a b
  | .reset => f.reset

/-- The forest after changes in turn, from single indexes. -/
def after (changes : List (ForestChange n)) : Forest n := changes.foldl change (discrete n)

/-- The second index has been merged into the class of the first one, and there has been no reset
since. -/
def Merged (changes : List (ForestChange n)) (a b : Fin n) : Prop :=
  ∃ before since, changes = before ++ .merge a b :: since ∧ .reset ∉ since

/-- The last change is made to what those before it have left. Both invariants are shown along this.
-/
theorem after_append_singleton (changes : List (ForestChange n)) (c : ForestChange n) :
    after (changes ++ [c]) = (after changes).change c := by
  simp [after]

/-- A merge comes to those before it. The pair is ordered, the index that stays first; the classes
do not depend on that order. -/
theorem merged_append_merge {changes : List (ForestChange n)} {a b x y : Fin n} :
    Merged (changes ++ [.merge a b]) x y ↔ Merged changes x y ∨ x = a ∧ y = b := by
  constructor
  · intro h
    obtain ⟨before, since, split, noReset⟩ := h
    rcases append_cons_cases split with ⟨-, e, -⟩ | ⟨gap, e, -⟩ | ⟨gap, rfl, e⟩
    · cases e
      exact .inr ⟨rfl, rfl⟩
    · simp at e
    · -- the merge in question is an earlier one, so what follows it is shorter by one
      refine .inl ⟨before, gap, e, ?_⟩
      intro reset
      exact noReset (List.mem_append_left _ reset)
  · intro h
    rcases h with ⟨before, since, rfl, noReset⟩ | ⟨rfl, rfl⟩
    · exact ⟨before, since ++ [.merge a b], by simp, by simpa using noReset⟩
    · exact ⟨changes, [], rfl, by simp⟩

/-- Nothing is merged since a reset, whatever has been merged before. -/
theorem not_merged_append_reset {changes : List (ForestChange n)} {x y : Fin n} :
    ¬ Merged (changes ++ [.reset]) x y := by
  intro h
  obtain ⟨before, since, split, noReset⟩ := h
  rcases append_cons_cases split with ⟨-, e, -⟩ | ⟨gap, e, -⟩ | ⟨gap, rfl, -⟩
  · cases e
  · simp at e
  · simp at noReset

/-- The links of a forest stay in step, by induction on the changes. Merging joins two roots or does
nothing, and a reset leaves no links at all. -/
theorem matched_after (changes : List (ForestChange n)) : (after changes).Matched := by
  induction changes using List.reverseRecOn with
  | nil => exact matched_discrete
  | append_singleton changes c ih =>
      rw [after_append_singleton]
      cases c with
      | merge a b => exact ih.merge a b
      | reset =>
          show (after changes).reset.Matched
          rw [reset_eq_discrete]
          exact matched_discrete

/-- The classes of a forest are those that the merges since the last reset generate, as the smallest
equivalence that holds their pairs. -/
theorem represents_after (changes : List (ForestChange n)) :
    (after changes).Represents (Merged changes) := by
  induction changes using List.reverseRecOn with
  | nil =>
      have nothing : Merged ([] : List (ForestChange n)) = fun _ _ => False := by
        funext x y
        simp [Merged]
      rw [nothing]
      exact represents_discrete
  | append_singleton changes c ih =>
      rw [after_append_singleton]
      cases c with
      | merge a b =>
          have more : Merged (changes ++ [.merge a b]) =
              fun x y => Merged changes x y ∨ x = a ∧ y = b := by
            funext x y
            exact propext merged_append_merge
          rw [more]
          exact ih.merge a b
      | reset =>
          -- a reset leaves single indexes, whatever has been before
          have nothing : Merged (changes ++ [.reset]) = fun _ _ => False := by
            funext x y
            exact propext (iff_of_false not_merged_append_reset id)
          rw [nothing]
          show (after changes).reset.Represents _
          rw [reset_eq_discrete]
          exact represents_discrete

/-- A merge changes nothing just if the two indexes are in one class already. Otherwise their roots
differ, and a root gets a parent. -/
theorem merge_eq_self_iff {f : Forest n} {a b : Fin n} :
    f.merge a b = f ↔ f.sameClass a b = true := by
  rw [sameClass_iff]
  constructor
  · intro h
    have moved : (f.merge a b).find b = f.find a := by rw [find_merge, if_pos rfl]
    rw [h] at moved
    exact moved.symm
  · intro same
    unfold merge
    exact dif_pos same

/-- What can be read from a forest after any changes. In this order: the way up from an index ends
at a root, which is its representative; classes are generated by the merges since the last reset;
parents and lists of children say the same; the way down from a root lists its class, the root first
and each member once; the classes of all roots make up the universe; a merge inside a class changes
nothing; and a reset gives single indexes back. -/
theorem classes_after (changes : List (ForestChange n)) :
    let f := after changes
    (∀ a, Ends f.climb a (f.find a) ∧ f.parent (f.find a) = none) ∧
    (∀ a b, f.sameClass a b = true ↔ Relation.EqvGen (Merged changes) a b) ∧
    (∀ a b, (f.childrenOf a).count b = if f.parent b = some a then 1 else 0) ∧
    (∀ a, Ends f.visit ([f.find a], []) (f.classOf a) ∧
      (f.classOf a).head? = some (f.find a) ∧
      ∀ b, (f.classOf a).count b = if f.sameClass a b then 1 else 0) ∧
    (f.roots.flatMap f.classOf).Perm (List.finRange n) ∧
    (∀ a b, f.merge a b = f ↔ f.sameClass a b = true) ∧
    f.reset = discrete n := by
  intro f
  have matched : f.Matched := matched_after changes
  refine ⟨?_, ?_, matched, ?_, matched.flatMap_classOf_perm, ?_, f.reset_eq_discrete⟩
  · intro a
    exact ⟨f.ends_climb a, f.parent_find a⟩
  · intro a b
    exact sameClass_iff.trans (represents_after changes a b)
  · intro a
    exact ⟨f.ends_visit a, f.head?_classOf a, matched.count_classOf a⟩
  · intro a b
    exact merge_eq_self_iff

end Forest

end EqualityLogic
