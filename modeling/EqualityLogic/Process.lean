/-!
# Processes

A process is a function that takes one step from a state: on to a next state, or to a result.
`Ends step s r` says that the steps from `s` come to an end with `r`; there is at most one such `r`
(`Ends.unique`). `run` computes it from a state that starts no endless run (`ends_run`), and `upTo`
looks for it within a number of steps (`ends_iff_upTo`). A process that does the same as another one
until it gives up ends like that one, or gives up in a state that the other one reaches
(`Curtails.ends`). A map of states that takes the steps of one process to those of another takes its
results along (`Ends.map`).
-/

set_option autoImplicit false

namespace EqualityLogic

/-- What one step leads to. -/
inductive Step (σ ρ : Type) where
  /-- The process goes on from a state. -/
  | next (s : σ)
  /-- The process is over. -/
  | done (r : ρ)
deriving DecidableEq

/-- The step with its state or its result replaced. -/
def Step.map {σ σ' ρ ρ' : Type} (f : σ → σ') (g : ρ → ρ') : Step σ ρ → Step σ' ρ'
  | .next s => .next (f s)
  | .done r => .done (g r)

namespace Process

variable {σ ρ : Type} {step : σ → Step σ ρ}

/-- The state `s'` comes directly after `s`. -/
def Follows (step : σ → Step σ ρ) (s' s : σ) : Prop := step s = .next s'

/-- The state `s'` comes after `s`, at once or later, or is `s`. -/
inductive Reaches (step : σ → Step σ ρ) : σ → σ → Prop
  | refl (s : σ) : Reaches step s s
  | next {s s' s'' : σ} : step s = .next s' → Reaches step s' s'' → Reaches step s s''

/-- The steps from `s` come to an end with `r`. -/
inductive Ends (step : σ → Step σ ρ) : σ → ρ → Prop
  | done {s : σ} {r : ρ} : step s = .done r → Ends step s r
  | next {s s' : σ} {r : ρ} : step s = .next s' → Ends step s' r → Ends step s r

/-- The result, if it comes within a number of steps. -/
def upTo (step : σ → Step σ ρ) : Nat → σ → Option ρ
  | 0, _ => none
  | n + 1, s =>
    match step s with
    | .next s' => upTo step n s'
    | .done r => some r

/-- The result of the steps from a state that starts no endless run. -/
def run (step : σ → Step σ ρ) (s : σ) (h : Acc (Follows step) s) : ρ :=
  match e : step s with
  | .next s' => run step s' (h.inv e)
  | .done r => r
termination_by (⟨s, h⟩ : { s // Acc (Follows step) s })
decreasing_by exact e

/-- The result that is computed is the one that the steps end with. The recursion of `run` is that
of the accessibility proof, so the induction is on this proof. -/
theorem ends_run (s : σ) (h : Acc (Follows step) s) : Ends step s (run step s h) := by
  induction h with
  | intro s hs ih =>
    rw [run]
    split
    · next s' e => exact .next e (ih s' e)
    · next r e => exact .done e

/-- Steps end with one result. A process is a function, so two runs from one state take the same
steps and stop at the same time. -/
theorem Ends.unique {s : σ} {r r' : ρ} (h : Ends step s r) (h' : Ends step s r') : r = r' := by
  induction h with
  | done e =>
    cases h' with
    | done e' => rw [e] at e'; cases e'; rfl
    | next e' _ => rw [e] at e'; cases e'
  | next e _ ih =>
    cases h' with
    | done e' => rw [e] at e'; cases e'
    | next e' h' => rw [e] at e'; cases e'; exact ih h'

/-- A result within a number of steps is the one that the steps end with. The number is only a
bound: that it sufficed is what the result says. -/
theorem ends_of_upTo {n : Nat} {s : σ} {r : ρ} (h : upTo step n s = some r) : Ends step s r := by
  induction n generalizing s with
  | zero => cases h
  | succ n ih =>
    rw [upTo] at h
    split at h
    · next e => exact .next e (ih h)
    · next e => cases h; exact .done e

/-- A run ends just if a number of steps suffices for it. This ties the relation, about which
everything is proved, to the function with a bound, which can be evaluated. -/
theorem ends_iff_upTo {s : σ} {r : ρ} : Ends step s r ↔ ∃ n, upTo step n s = some r := by
  refine ⟨fun h => ?_, fun ⟨n, h⟩ => ends_of_upTo h⟩
  induction h with
  | done e => exact ⟨1, by simp [upTo, e]⟩
  | next e _ ih =>
    obtain ⟨n, hn⟩ := ih
    exact ⟨n + 1, by simp [upTo, e, hn]⟩

/-- A run that ends does so by a last step, from a state that it reaches. What holds of all states
that are reached holds of that one, and the last step says what this makes of the result. -/
theorem Ends.last {s : σ} {r : ρ} (h : Ends step s r) :
    ∃ s', Reaches step s s' ∧ step s' = .done r := by
  induction h with
  | done e => exact ⟨_, .refl _, e⟩
  | next e _ ih =>
    obtain ⟨s', h, h'⟩ := ih
    exact ⟨s', .next e h, h'⟩

/-- What every step keeps holds in every state that is reached. All invariants of a process are
carried through its runs by this induction. -/
theorem Reaches.keeps {P : σ → Prop} (kept : ∀ s s', P s → step s = .next s' → P s') {s s' : σ}
    (h : Reaches step s s') (hs : P s) : P s' := by
  induction h with
  | refl => exact hs
  | next e _ ih => exact ih (kept _ _ hs e)

/-- One more step may follow. `Reaches` puts steps in front, so this is the way to go on where a run
has got to. -/
theorem Reaches.snoc {s s' s'' : σ} (h : Reaches step s s') (e : step s' = .next s'') :
    Reaches step s s'' := by
  induction h with
  | refl => exact .next e (.refl _)
  | next e' _ ih => exact .next e' (ih e)

/-- A run ends where a state that it reaches is the last one. It is the way back from `Ends.last`.
-/
theorem Reaches.ends {s s' : σ} {r : ρ} (h : Reaches step s s') (e : step s' = .done r) :
    Ends step s r := by
  induction h with
  | refl => exact .done e
  | next e' _ ih => exact .next e' (ih e)

/-- A run that ends goes through each state that is reached on its way, so the steps from any of
them end alike. There is only one way on from each state, hence no state beside the run. -/
theorem Ends.of_reaches {s t : σ} {r : ρ} (h : Ends step s r) (reached : Reaches step s t) :
    Ends step t r := by
  induction reached with
  | refl => exact h
  | next e _ ih =>
    cases h with
    | done e' => rw [e] at e'; cases e'
    | next e' h => rw [e] at e'; cases e'; exact ih h

/-- A process that does to other states what this one does to its own has a run beside each run. The
hypothesis is one equation of steps, and no invariant is needed, since it is asked of all states. -/
theorem Ends.map {σ' ρ' : Type} {step' : σ' → Step σ' ρ'} {f : σ → σ'} {g : ρ → ρ'}
    (alike : ∀ s, step' (f s) = (step s).map f g) {s : σ} {r : ρ} (h : Ends step s r) :
    Ends step' (f s) (g r) := by
  induction h with
  | @done s r e =>
    refine .done ?_
    rw [alike, e]
    rfl
  | @next s s' r e _ ih =>
    refine .next ?_ ih
    rw [alike, e]
    rfl

/-- Each step is one of another process, or gives up. -/
def Curtails (step step' : σ → Step σ ρ) (GivesUp : ρ → Prop) : Prop :=
  ∀ s, step s = step' s ∨ ∃ r, step s = .done r ∧ GivesUp r

/-- A process that may give up ends like the other one, unless it gives up in a state to which the
other one comes as well. Until then both have taken the same steps. -/
theorem Curtails.ends {step step' : σ → Step σ ρ} {GivesUp : ρ → Prop}
    (curtails : Curtails step step' GivesUp) {s : σ} {r : ρ} (h : Ends step s r) :
    Ends step' s r ∨ GivesUp r ∧ ∃ t, Reaches step' s t ∧ step t = .done r := by
  induction h with
  | @done s r e =>
    rcases curtails s with same | ⟨r', e', up⟩
    · rw [same] at e
      exact .inl (.done e)
    · rw [e] at e'
      cases e'
      -- this is where the one process gives up and the other may go on
      exact .inr ⟨up, s, .refl s, e⟩
  | @next s s' r e _ ih =>
    rcases curtails s with same | ⟨r', e', -⟩
    · rw [same] at e
      rcases ih with ends | ⟨up, t, reached, last⟩
      · exact .inl (.next e ends)
      · exact .inr ⟨up, t, .next e reached, last⟩
    · rw [e] at e'
      cases e'

/-- A state starts no endless run if a property that every step keeps makes each step lower a
measure. The property is there for measures that fall only where an invariant holds. -/
theorem acc_of_measure {P : σ → Prop} {μ : σ → Nat}
    (kept : ∀ s s', P s → step s = .next s' → P s' ∧ μ s' < μ s) {s : σ} (hs : P s) :
    Acc (Follows step) s := by
  generalize hn : μ s = n
  induction n using Nat.strongRecOn generalizing s with
  | ind n ih =>
    refine ⟨_, fun s' e => ?_⟩
    obtain ⟨hs', hlt⟩ := kept s s' hs e
    exact ih (μ s') (hn ▸ hlt) hs' rfl

end Process

end EqualityLogic
