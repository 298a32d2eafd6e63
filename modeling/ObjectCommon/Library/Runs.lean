import Mathlib.Data.List.Induction
import Mathlib.Tactic.Common

/-!
# Runs of a transition system

`step s e s'` : event `e` may lead from `s` to `s'`. A run is the list of events it consists of.

* `Run step s₀ es s` : the events `es` lead from `s₀` to `s`;
* `Run.invariant` : a property of the events so far and the state reached that holds at the start
  and is kept by every step holds of every run;
* `Run.append`, `Run.split`, `Run.of_append` : runs joined, cut at one of their events, and cut short;
* `Run.simulate` : a run is also one of an abstraction that follows each of its steps;
* `Run.countP_le_one` : what spends a resource that stays spent happens at most once.
-/

namespace Runs

variable {σ ε : Type}

/-- The events `es` lead from `s₀` to the last argument. -/
inductive Run (step : σ → ε → σ → Prop) (s₀ : σ) : List ε → σ → Prop
  | nil : Run step s₀ [] s₀
  | snoc {es : List ε} {s : σ} {e : ε} {s' : σ} (run : Run step s₀ es s) (last : step s e s') :
      Run step s₀ (es ++ [e]) s'

variable {step : σ → ε → σ → Prop} {s₀ : σ}

theorem Run.invariant {P : List ε → σ → Prop} (hinit : P [] s₀)
    (hstep : ∀ es s e s', P es s → step s e s' → P (es ++ [e]) s') {es : List ε} {s : σ}
    (h : Run step s₀ es s) : P es s := by
  induction h with
  | nil => exact hinit
  | snoc _ last ih => exact hstep _ _ _ _ ih last

theorem Run.append {s s' : σ} {es es' : List ε} (h : Run step s₀ es s) (h' : Run step s es' s') :
    Run step s₀ (es ++ es') s' := by
  induction h' with
  | nil => simpa using h
  | snoc _ last ih =>
    rw [← List.append_assoc]
    exact ih.snoc last

/-- A run passes through a state before and after each of its events. -/
theorem Run.split {es es' : List ε} {e : ε} {s : σ} (h : Run step s₀ (es ++ e :: es') s) :
    ∃ s₁ s₂, Run step s₀ es s₁ ∧ step s₁ e s₂ ∧ Run step s₂ es' s := by
  induction es' using List.reverseRecOn generalizing s with
  | nil =>
    generalize hl : es ++ [e] = l at h
    cases h with
    | nil => simp at hl
    | snoc run last =>
      obtain ⟨rfl, hs⟩ := List.append_inj' hl rfl
      obtain rfl : e = _ := by simpa using hs
      exact ⟨_, _, run, last, .nil⟩
  | append_singleton es' e' ih =>
    rw [← List.cons_append, ← List.append_assoc] at h
    generalize hl : es ++ e :: es' ++ [e'] = l at h
    cases h with
    | nil => simp at hl
    | snoc run last =>
      obtain ⟨rfl, hs⟩ := List.append_inj' hl rfl
      obtain rfl : e' = _ := by simpa using hs
      obtain ⟨s₁, s₂, h₁, h₂, h₃⟩ := ih run
      exact ⟨s₁, s₂, h₁, h₂, h₃.snoc last⟩

/-- The first events of a run are a run. -/
theorem Run.of_append {es es' : List ε} {s : σ} (h : Run step s₀ (es ++ es') s) : ∃ s₁, Run step s₀ es s₁ := by
  cases es' with
  | nil =>
    rw [List.append_nil] at h
    exact ⟨s, h⟩
  | cons e es' =>
    obtain ⟨s₁, -, h₁, -, -⟩ := h.split
    exact ⟨s₁, h₁⟩

/-- A state property kept by every step. -/
theorem Run.keep {I : σ → Prop} (hI : ∀ s e s', I s → step s e s' → I s') {es : List ε} {s : σ}
    (h : Run step s₀ es s) (h₀ : I s₀) : I s :=
  h.invariant (P := fun _ s => I s) h₀ fun _ s e s' hs hstep => hI s e s' hs hstep

/-! ## Abstraction -/

/-- An abstraction that follows every step follows every run. -/
theorem Run.simulate {τ : Type} {step' : τ → ε → τ → Prop} {f : σ → τ} {I : σ → Prop}
    (hI : ∀ s e s', I s → step s e s' → I s')
    (hf : ∀ s e s', I s → step s e s' → step' (f s) e (f s')) (h₀ : I s₀) {es : List ε} {s : σ}
    (h : Run step s₀ es s) : Run step' (f s₀) es (f s) := by
  induction h with
  | nil => exact .nil
  | snoc run last ih => exact ih.snoc (hf _ _ _ (run.keep hI h₀) last)

/-! ## Counting events -/

/-- **Once spent, always spent**: an event that spends a resource occurs at most once when none occurs
after the resource is spent. -/
theorem Run.countP_le_one {q : ε → Bool} {I S : σ → Prop} (hI : ∀ s e s', I s → step s e s' → I s')
    (htake : ∀ s e s', I s → step s e s' → q e = true → S s')
    (hstay : ∀ s e s', S s → step s e s' → S s' ∧ q e = false) (h₀ : I s₀) {es : List ε} {s : σ}
    (h : Run step s₀ es s) : es.countP q ≤ 1 := by
  suffices hP : I s ∧ (es.countP q = 0 ∨ (es.countP q = 1 ∧ S s)) by omega
  refine h.invariant (P := fun es s => I s ∧ (es.countP q = 0 ∨ (es.countP q = 1 ∧ S s)))
    ⟨h₀, Or.inl rfl⟩ ?_
  rintro es s e s' ⟨hs, hc⟩ hstep
  refine ⟨hI s e s' hs hstep, ?_⟩
  rw [List.countP_append, List.countP_singleton]
  rcases hc with hc | ⟨hc, hS⟩
  · cases hq : q e with
    | false => exact Or.inl (by simp [hc])
    | true => exact Or.inr ⟨by simp [hc], htake s e s' hs hstep hq⟩
  · obtain ⟨hs', hq⟩ := hstay s e s' hS hstep
    exact Or.inr ⟨by simp [hc, hq], hs'⟩

end Runs
