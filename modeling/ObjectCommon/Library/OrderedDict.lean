import Mathlib.Data.List.Nodup
import Mathlib.Data.List.Perm.Basic
import Mathlib.Tactic.Common

/-!
# Insertion-ordered dictionaries

`Dict κ ν` is the list of a dictionary's entries in insertion order, the keys pairwise distinct in
every dictionary built by `set` (`nodup_set`).

* `get? d k`, `set d k v`, `pop d k`, `keys d` : reading, assigning in place or at the end, removing;
* `modify d k f` : replacing the value of a key by its image;
* `update d u` : assigning the entries of `u`; made twice it is made once (`update_update`);
* `get?_set_self`, `get?_set_ne`, `keys_set` : what an assignment changes;
* `mem_iff_get?` : with distinct keys an entry is what reading its key gives;
* `Same d d'` : the same keys with the same values, whatever the order (`same_iff_perm`).
-/

/-- The entries of a dictionary, in insertion order. -/
abbrev Dict (κ ν : Type) := List (κ × ν)

namespace Dict

variable {κ ν : Type}

/-- The keys, in insertion order. -/
def keys (d : Dict κ ν) : List κ := d.map Prod.fst

@[simp] theorem keys_nil : keys ([] : Dict κ ν) = [] := rfl

@[simp] theorem keys_cons (k : κ) (v : ν) (d : Dict κ ν) : keys ((k, v) :: d) = k :: keys d := rfl

variable [DecidableEq κ]

/-- The value of `k`, if the dictionary has it. -/
def get? (d : Dict κ ν) (k : κ) : Option ν := d.lookup k

/-- Assign `v` to `k`: in place when the key is there, else at the end. -/
def set : Dict κ ν → κ → ν → Dict κ ν
  | [], k, v => [(k, v)]
  | (k', v') :: d, k, v => if k' = k then (k', v) :: d else (k', v') :: set d k v

/-- Remove `k`. -/
def pop (d : Dict κ ν) (k : κ) : Dict κ ν := d.filter fun e => e.1 ≠ k

@[simp] theorem get?_nil (k : κ) : get? ([] : Dict κ ν) k = none := rfl

@[simp] theorem get?_cons (k k' : κ) (v : ν) (d : Dict κ ν) :
    get? ((k', v) :: d) k = if k' = k then some v else get? d k := by
  unfold get?
  rw [List.lookup_cons]
  by_cases h : k' = k
  · simp [h]
  · have hne : (k == k') = false := beq_false_of_ne fun e => h e.symm
    rw [hne, if_neg h]

/-! ## Assigning -/

@[simp] theorem get?_set_self (d : Dict κ ν) (k : κ) (v : ν) : get? (set d k v) k = some v := by
  induction d with
  | nil => simp [set]
  | cons e d ih =>
    obtain ⟨k', v'⟩ := e
    unfold set
    split
    · next h => simp [h]
    · next h => simp [h, ih]

theorem get?_set_ne (d : Dict κ ν) {k k' : κ} (v : ν) (h : k' ≠ k) :
    get? (set d k v) k' = get? d k' := by
  induction d with
  | nil => simp [set, h.symm]
  | cons e d ih =>
    obtain ⟨k₀, v₀⟩ := e
    unfold set
    split
    · next h₀ => subst h₀; simp [h.symm]
    · simp [ih]

theorem get?_set (d : Dict κ ν) (k k' : κ) (v : ν) :
    get? (set d k v) k' = if k' = k then some v else get? d k' := by
  by_cases h : k' = k
  · simp [h]
  · rw [get?_set_ne d v h, if_neg h]

/-- Replace the value of `k` by its image, when the key is there. -/
def modify (d : Dict κ ν) (k : κ) (f : ν → ν) : Dict κ ν :=
  match get? d k with
  | some v => set d k (f v)
  | none => d

theorem get?_modify (d : Dict κ ν) (k k' : κ) (f : ν → ν) :
    get? (modify d k f) k' = if k' = k then (get? d k).map f else get? d k' := by
  unfold modify
  cases h : get? d k with
  | some v => exact get?_set d k k' (f v)
  | none =>
    by_cases hk : k' = k
    · rw [if_pos hk, hk, h]
      rfl
    · rw [if_neg hk]

theorem mem_keys_iff {d : Dict κ ν} {k : κ} : k ∈ keys d ↔ ∃ v, get? d k = some v := by
  induction d with
  | nil => simp
  | cons e d ih =>
    obtain ⟨k', v'⟩ := e
    by_cases h : k' = k
    · simp [h]
    · have h' : ¬ k = k' := fun e => h e.symm
      simp [h, h', ih]

theorem mem_keys_of_get? {d : Dict κ ν} {k : κ} {v : ν} (h : get? d k = some v) : k ∈ keys d :=
  mem_keys_iff.mpr ⟨v, h⟩

theorem get?_eq_none_iff {d : Dict κ ν} {k : κ} : get? d k = none ↔ k ∉ keys d := by
  rw [mem_keys_iff, ← Option.ne_none_iff_exists', not_not]

/-- Assigning a key that is there keeps the keys and their order. -/
theorem keys_set {d : Dict κ ν} {k : κ} (v : ν) (h : k ∈ keys d) : keys (set d k v) = keys d := by
  induction d with
  | nil => simp at h
  | cons e d ih =>
    obtain ⟨k', v'⟩ := e
    unfold set
    split
    · rfl
    · next hk =>
      have : k ∈ keys d := by
        rcases List.mem_cons.mp h with h | h
        · exact absurd h.symm hk
        · exact h
      rw [keys_cons, keys_cons, ih this]

/-- Assigning removes no key. -/
theorem mem_keys_set {d : Dict κ ν} {k k' : κ} (v : ν) (h : k' ∈ keys d) : k' ∈ keys (set d k v) := by
  rw [mem_keys_iff] at h ⊢
  rw [get?_set]
  split
  · exact ⟨v, rfl⟩
  · exact h

/-- Assigning the value a key already has changes nothing. -/
theorem set_get? {d : Dict κ ν} {k : κ} {v : ν} (h : get? d k = some v) : set d k v = d := by
  induction d with
  | nil => simp at h
  | cons e d ih =>
    obtain ⟨k', v'⟩ := e
    unfold set
    split
    · next hk => simp_all
    · next hk =>
      rw [get?_cons, if_neg hk] at h
      rw [ih h]

theorem mem_of_get? {d : Dict κ ν} {k : κ} {v : ν} (h : get? d k = some v) : (k, v) ∈ d := by
  induction d with
  | nil => simp at h
  | cons e d ih =>
    obtain ⟨k', v'⟩ := e
    by_cases hk : k' = k
    · simp_all
    · rw [get?_cons, if_neg hk] at h
      exact List.mem_cons_of_mem _ (ih h)

theorem mem_set {d : Dict κ ν} {k : κ} {v : ν} {e : κ × ν} (h : e ∈ set d k v) :
    e = (k, v) ∨ e ∈ d := by
  induction d with
  | nil => exact Or.inl (by simpa [set] using h)
  | cons e' d ih =>
    obtain ⟨k', v'⟩ := e'
    unfold set at h
    split at h
    · next hk =>
      subst hk
      rcases List.mem_cons.mp h with h | h
      · exact Or.inl h
      · exact Or.inr (List.mem_cons_of_mem _ h)
    · rcases List.mem_cons.mp h with h | h
      · exact Or.inr (h ▸ List.mem_cons_self)
      · exact (ih h).imp id (List.mem_cons_of_mem _)

/-! ## Distinct keys -/

/-- With distinct keys an entry is what reading its key gives. -/
theorem mem_iff_get? {d : Dict κ ν} (hd : (keys d).Nodup) {k : κ} {v : ν} :
    (k, v) ∈ d ↔ get? d k = some v := by
  refine ⟨fun h => ?_, mem_of_get?⟩
  induction d with
  | nil => simp at h
  | cons e d ih =>
    obtain ⟨k', v'⟩ := e
    rw [keys_cons, List.nodup_cons] at hd
    rcases List.mem_cons.mp h with h | h
    · cases h; simp
    · have hk : k' ≠ k := by
        rintro rfl
        exact hd.1 (List.mem_map_of_mem (f := Prod.fst) h)
      rw [get?_cons, if_neg hk, ih hd.2 h]

omit [DecidableEq κ] in
theorem nodup_of_keys {d : Dict κ ν} (hd : (keys d).Nodup) : d.Nodup :=
  List.Nodup.of_map Prod.fst hd

/-- Assigning a new key appends it. -/
theorem set_of_notMem {d : Dict κ ν} {k : κ} (v : ν) (h : k ∉ keys d) : set d k v = d ++ [(k, v)] := by
  induction d with
  | nil => rfl
  | cons e d ih =>
    obtain ⟨k', v'⟩ := e
    rw [keys_cons, List.mem_cons, not_or] at h
    unfold set
    rw [if_neg (fun e => h.1 e.symm), ih h.2, List.cons_append]

theorem nodup_set {d : Dict κ ν} (k : κ) (v : ν) (hd : (keys d).Nodup) :
    (keys (set d k v)).Nodup := by
  by_cases hk : k ∈ keys d
  · rwa [keys_set v hk]
  · have hset : keys (set d k v) = keys d ++ [k] := by
      rw [set_of_notMem v hk]
      simp [keys]
    rw [hset]
    exact List.nodup_append.mpr ⟨hd, List.nodup_singleton k, fun a ha b hb e => by
      rw [List.mem_singleton] at hb; subst hb; subst e; exact hk ha⟩

/-! ## Updating -/

/-- Assign the entries of `u` one after the other. -/
def update (d u : Dict κ ν) : Dict κ ν := u.foldl (fun d e => set d e.1 e.2) d

@[simp] theorem update_nil (d : Dict κ ν) : update d [] = d := rfl

@[simp] theorem update_cons (d u : Dict κ ν) (k : κ) (v : ν) :
    update d ((k, v) :: u) = update (set d k v) u := rfl

theorem update_append (d u u' : Dict κ ν) : update d (u ++ u') = update (update d u) u' :=
  List.foldl_append

/-- Updating keys that are there keeps the keys and their order. -/
theorem keys_update {d u : Dict κ ν} (h : ∀ k ∈ keys u, k ∈ keys d) : keys (update d u) = keys d := by
  induction u generalizing d with
  | nil => rfl
  | cons e u ih =>
    obtain ⟨k, v⟩ := e
    have hk : keys (set d k v) = keys d := keys_set v (h k (by simp))
    rw [update_cons, ih (fun k' hk' => hk ▸ h k' (by simp [hk'])), hk]

theorem get?_update {d u : Dict κ ν} (hu : (keys u).Nodup) (k : κ) :
    get? (update d u) k = (get? u k).or (get? d k) := by
  induction u generalizing d with
  | nil => rfl
  | cons e u ih =>
    obtain ⟨k', v⟩ := e
    rw [keys_cons, List.nodup_cons] at hu
    rw [update_cons, ih hu.2, get?_cons, get?_set]
    by_cases hk : k' = k
    · subst hk
      simp [get?_eq_none_iff.mpr hu.1]
    · have hk' : ¬ k = k' := fun e => hk e.symm
      simp [hk, hk']

/-- What an update does not assign stays as it was. -/
theorem get?_update_of_notMem {d u : Dict κ ν} {k : κ} (h : k ∉ keys u) :
    get? (update d u) k = get? d k := by
  induction u generalizing d with
  | nil => rfl
  | cons e u ih =>
    obtain ⟨k', v⟩ := e
    rw [keys_cons, List.mem_cons, not_or] at h
    rw [update_cons, ih h.2, get?_set_ne d v h.1]

/-- Updating with what is there changes nothing. -/
theorem update_self {d u : Dict κ ν} (h : ∀ e ∈ u, get? d e.1 = some e.2) : update d u = d := by
  induction u with
  | nil => rfl
  | cons e u ih =>
    obtain ⟨k, v⟩ := e
    rw [update_cons, set_get? (h _ List.mem_cons_self)]
    exact ih fun e he => h e (List.mem_cons_of_mem _ he)

/-- An update made twice is made once. -/
theorem update_update {d u : Dict κ ν} (hu : (keys u).Nodup) :
    update (update d u) u = update d u := by
  refine update_self fun e he => ?_
  rw [get?_update hu, (mem_iff_get? hu).mp he, Option.some_or]

theorem mem_update {d u : Dict κ ν} {e : κ × ν} (h : e ∈ update d u) : e ∈ u ∨ e ∈ d := by
  induction u generalizing d with
  | nil => exact Or.inr h
  | cons e' u ih =>
    obtain ⟨k, v⟩ := e'
    rcases ih h with h | h
    · exact Or.inl (List.mem_cons_of_mem _ h)
    · rcases mem_set h with rfl | h
      · exact Or.inl List.mem_cons_self
      · exact Or.inr h

/-! ## Removing -/

@[simp] theorem get?_pop_self (d : Dict κ ν) (k : κ) : get? (pop d k) k = none := by
  rw [get?_eq_none_iff]
  simp [keys, pop]

theorem get?_pop_ne (d : Dict κ ν) {k k' : κ} (h : k' ≠ k) : get? (pop d k) k' = get? d k' := by
  induction d with
  | nil => rfl
  | cons e d ih =>
    obtain ⟨k₀, v₀⟩ := e
    by_cases h₀ : k₀ = k
    · have hk' : ¬ k₀ = k' := fun e => h (e ▸ h₀)
      have : pop ((k₀, v₀) :: d) k = pop d k := by simp [pop, h₀]
      rw [this, get?_cons, if_neg hk', ih]
    · have : pop ((k₀, v₀) :: d) k = (k₀, v₀) :: pop d k := by simp [pop, h₀]
      rw [this, get?_cons, get?_cons, ih]

/-! ## Equality up to order -/

/-- The same keys with the same values. -/
def Same (d d' : Dict κ ν) : Prop := ∀ k, get? d k = get? d' k

theorem Same.refl (d : Dict κ ν) : Same d d := fun _ => rfl

theorem Same.symm {d d' : Dict κ ν} (h : Same d d') : Same d' d := fun k => (h k).symm

theorem Same.modify {d d' : Dict κ ν} (h : Same d d') (k : κ) (f : ν → ν) : Same (modify d k f) (modify d' k f) := by
  intro k'
  rw [get?_modify, get?_modify, h k, h k']

theorem Same.pop {d d' : Dict κ ν} (h : Same d d') (k : κ) : Same (pop d k) (pop d' k) := by
  intro k'
  by_cases hk : k' = k
  · rw [hk, get?_pop_self, get?_pop_self]
  · rw [get?_pop_ne d hk, get?_pop_ne d' hk, h k']

/-- Two dictionaries with distinct keys are the same exactly when one reorders the other. -/
theorem same_iff_perm {d d' : Dict κ ν} (hd : (keys d).Nodup) (hd' : (keys d').Nodup) :
    Same d d' ↔ d.Perm d' := by
  constructor
  · intro h
    refine (List.perm_ext_iff_of_nodup (nodup_of_keys hd) (nodup_of_keys hd')).mpr fun e => ?_
    rw [show e = (e.1, e.2) from rfl, mem_iff_get? hd, mem_iff_get? hd', h]
  · intro h k
    refine Option.ext fun v => ?_
    rw [← mem_iff_get? hd, ← mem_iff_get? hd', h.mem_iff]

end Dict
