import Mathlib.Data.List.Sort
import Mathlib.Tactic.Common

/-!
# Sorting by a numeric key

* `sortByKey key l` : a stable sort, `sorted(l, key=key)`; `sortByKey_perm`, `sortByKey_pairwise`;
* `sortByKey_eq_of_perm` : lists of one another's elements with distinct keys sort to one list;
* `map_sortByKey_eq_range'_iff` : the sorted keys are consecutive numbers when the keys are these in some order.
-/

namespace KeySort

variable {α : Type} (key : α → Nat)

def sortByKey (l : List α) : List α := l.insertionSort (key · ≤ key ·)

theorem sortByKey_perm (l : List α) : (sortByKey key l).Perm l := List.perm_insertionSort _ l

theorem sortByKey_pairwise (l : List α) : (sortByKey key l).Pairwise (key · ≤ key ·) := by
  have htotal : Std.Total fun a b : α => key a ≤ key b := ⟨fun a b => Nat.le_total (key a) (key b)⟩
  have htrans : IsTrans α fun a b => key a ≤ key b := ⟨fun a b c => Nat.le_trans⟩
  exact List.pairwise_insertionSort _ l

variable {key}

/-- Elements with distinct keys are told apart by them. -/
theorem eq_of_key_eq {l : List α} (hn : (l.map key).Nodup) {a b : α} (ha : a ∈ l) (hb : b ∈ l)
    (h : key a = key b) : a = b :=
  List.inj_on_of_nodup_map hn ha hb h

theorem sortByKey_eq_of_perm {l l' : List α} (hn : (l.map key).Nodup) (h : l.Perm l') :
    sortByKey key l = sortByKey key l' := by
  have hperm : (sortByKey key l).Perm (sortByKey key l') :=
    (sortByKey_perm key l).trans (h.trans (sortByKey_perm key l').symm)
  apply hperm.eq_of_pairwise _ (sortByKey_pairwise key l) (sortByKey_pairwise key l')
  intro a b ha hb hab hba
  have ha : a ∈ l := (sortByKey_perm key l).mem_iff.mp ha
  have hb : b ∈ l := h.mem_iff.mpr ((sortByKey_perm key l').mem_iff.mp hb)
  exact eq_of_key_eq hn ha hb (Nat.le_antisymm hab hba)

/-- The sorted keys are consecutive numbers when the keys are these in some order. -/
theorem map_sortByKey_eq_range'_iff {l : List α} {start n : Nat} :
    (sortByKey key l).map key = List.range' start n ↔ (l.map key).Perm (List.range' start n) := by
  have hperm : ((sortByKey key l).map key).Perm (l.map key) := (sortByKey_perm key l).map key
  constructor
  · intro h
    rw [← h]
    exact hperm.symm
  · intro h
    have hsorted : ((sortByKey key l).map key).Pairwise (· ≤ ·) :=
      List.pairwise_map.mpr (sortByKey_pairwise key l)
    have hrange : (List.range' start n).Pairwise (· ≤ ·) := List.pairwise_le_range'
    exact (hperm.trans h).eq_of_pairwise' hsorted hrange

/-- Sorted elements with distinct keys are in strict order. -/
theorem sortByKey_pairwise_lt {l : List α} (hn : (l.map key).Nodup) : (sortByKey key l).Pairwise (key · < key ·) := by
  have hperm : ((sortByKey key l).map key).Perm (l.map key) := (sortByKey_perm key l).map key
  have hne : (sortByKey key l).Pairwise (key · ≠ key ·) := List.pairwise_map.mp (hperm.nodup_iff.mpr hn)
  exact (sortByKey_pairwise key l).imp₂ (fun a b hle hne => Nat.lt_of_le_of_ne hle hne) hne

end KeySort
