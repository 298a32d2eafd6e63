import Mathlib.Data.List.Induction
import Mathlib.Logic.Function.Basic
import ObjectCommon.Library.Runs

/-!
# Stores of values by key

A store maps keys to values; a change writes one key, erases one key, or keeps the store as it is.

* `Change.apply` : what a change makes of a store, key by key (`apply_of_key?_ne`);
* `contents` : what changes leave in an empty store;
* `contents_eq_some_iff` : the last change of a key decides;
* `erased_between` : a key that was written and is absent later was erased in between;
* `Runs.Run.contents` : a system whose steps make changes holds their contents after every run.
-/

namespace KeyedStore

variable {κ ν : Type}

inductive Change (κ ν : Type) where
  | write (k : κ) (v : ν)
  | erase (k : κ)
  | keep

namespace Change

/-- The key that a change is about. -/
def key? : Change κ ν → Option κ
  | .write k _ => some k
  | .erase k => some k
  | .keep => none

/-- What a change leaves at its key. -/
def value? : Change κ ν → Option ν
  | .write _ v => some v
  | .erase _ => none
  | .keep => none

variable [DecidableEq κ]

def apply (store : κ → Option ν) : Change κ ν → κ → Option ν
  | .write k v => Function.update store k (some v)
  | .erase k => Function.update store k none
  | .keep => store

theorem apply_of_key?_eq {c : Change κ ν} {k : κ} (h : c.key? = some k) (store : κ → Option ν) :
    c.apply store k = c.value? := by
  cases c with
  | keep => cases h
  | write k' v =>
    obtain rfl : k' = k := Option.some.inj h
    exact Function.update_self _ _ _
  | erase k' =>
    obtain rfl : k' = k := Option.some.inj h
    exact Function.update_self _ _ _

/-- A change leaves the other keys alone. -/
theorem apply_of_key?_ne {c : Change κ ν} {k : κ} (h : c.key? ≠ some k) (store : κ → Option ν) :
    c.apply store k = store k := by
  cases c with
  | keep => rfl
  | write k' v => exact Function.update_of_ne (fun he => h (congrArg some he.symm)) _ _
  | erase k' => exact Function.update_of_ne (fun he => h (congrArg some he.symm)) _ _

end Change

variable [DecidableEq κ]

/-- What changes leave in an empty store. -/
def contents (changes : List (Change κ ν)) : κ → Option ν := changes.foldl Change.apply fun _ => none

theorem contents_append_singleton (changes : List (Change κ ν)) (c : Change κ ν) :
    contents (changes ++ [c]) = c.apply (contents changes) := by
  rw [contents, List.foldl_append]
  rfl

/-- Changes of other keys after the last one of `k`. -/
theorem contents_append_of_others {before after : List (Change κ ν)} {c : Change κ ν} {k : κ} (hc : c.key? = some k)
    (hafter : ∀ d ∈ after, d.key? ≠ some k) : contents (before ++ c :: after) k = c.value? := by
  induction after using List.reverseRecOn with
  | nil => rw [contents_append_singleton, Change.apply_of_key?_eq hc]
  | append_singleton after d ih =>
    rw [← List.cons_append, ← List.append_assoc, contents_append_singleton,
      Change.apply_of_key?_ne (hafter d (by simp))]
    exact ih fun d' hd' => hafter d' (by simp [hd'])

/-- A key is changed last by one of the changes, or by none. -/
theorem last_change (changes : List (Change κ ν)) (k : κ) :
    (∀ c ∈ changes, c.key? ≠ some k) ∨ ∃ before c after, changes = before ++ c :: after ∧ c.key? = some k ∧
      ∀ d ∈ after, d.key? ≠ some k := by
  induction changes using List.reverseRecOn with
  | nil => exact Or.inl (by simp)
  | append_singleton changes c ih =>
    by_cases hc : c.key? = some k
    · exact Or.inr ⟨changes, c, [], rfl, hc, by simp⟩
    · rcases ih with hnone | ⟨before, c', after, rfl, hc', hafter⟩
      · exact Or.inl (List.forall_mem_append.mpr ⟨hnone, by simpa using hc⟩)
      · refine Or.inr ⟨before, c', after ++ [c], by simp, hc', ?_⟩
        exact List.forall_mem_append.mpr ⟨hafter, by simpa using hc⟩

theorem contents_of_others {changes : List (Change κ ν)} {k : κ} (h : ∀ c ∈ changes, c.key? ≠ some k) :
    contents changes k = none := by
  induction changes using List.reverseRecOn with
  | nil => rfl
  | append_singleton changes c ih =>
    rw [contents_append_singleton, Change.apply_of_key?_ne (h c (by simp))]
    exact ih fun d hd => h d (by simp [hd])

/-- **The last change of a key decides**: it holds `v` when that change wrote `v`. -/
theorem contents_eq_some_iff {changes : List (Change κ ν)} {k : κ} {v : ν} :
    contents changes k = some v ↔
      ∃ before after, changes = before ++ .write k v :: after ∧ ∀ d ∈ after, d.key? ≠ some k := by
  constructor
  · intro h
    rcases last_change changes k with hnone | ⟨before, c, after, rfl, hc, hafter⟩
    · rw [contents_of_others hnone] at h
      cases h
    · rw [contents_append_of_others hc hafter] at h
      cases c with
      | write k' v' =>
        obtain rfl : k' = k := Option.some.inj hc
        obtain rfl : v' = v := Option.some.inj h
        exact ⟨before, after, rfl, hafter⟩
      | erase k' => cases h
      | keep => cases hc
  · rintro ⟨before, after, rfl, hafter⟩
    exact contents_append_of_others rfl hafter

/-- **A key that was written and is absent later was erased in between.** -/
theorem erased_between {before between : List (Change κ ν)} {k : κ} {v : ν}
    (h : contents (before ++ .write k v :: between) k = none) : .erase k ∈ between := by
  induction between using List.reverseRecOn with
  | nil =>
    rw [contents_append_singleton, Change.apply_of_key?_eq rfl] at h
    cases h
  | append_singleton between c ih =>
    rw [← List.cons_append, ← List.append_assoc, contents_append_singleton] at h
    by_cases hc : c.key? = some k
    · rw [Change.apply_of_key?_eq hc] at h
      cases c with
      | write k' v' => cases h
      | erase k' =>
        obtain rfl : k' = k := Option.some.inj hc
        simp
      | keep => cases hc
    · rw [Change.apply_of_key?_ne hc] at h
      exact List.mem_append_left _ (ih h)

end KeyedStore

namespace Runs

open KeyedStore

variable {σ ε κ ν : Type} [DecidableEq κ]

/-- **A system whose steps make changes** holds their contents after every run. -/
theorem Run.contents {step : σ → ε → σ → Prop} {s₀ : σ} {held : σ → κ → Option ν} {change : ε → Change κ ν}
    {I : σ → Prop} (hI : ∀ s e s', I s → step s e s' → I s')
    (hstep : ∀ s e s', I s → step s e s' → held s' = (change e).apply (held s)) (h₀ : I s₀)
    (hempty : held s₀ = fun _ => none) {es : List ε} {s : σ} (h : Run step s₀ es s) :
    held s = KeyedStore.contents (es.map change) := by
  induction h with
  | nil => exact hempty
  | snoc run last ih =>
    rw [hstep _ _ _ (run.keep hI h₀) last, ih, List.map_append, List.map_singleton, contents_append_singleton]

end Runs
