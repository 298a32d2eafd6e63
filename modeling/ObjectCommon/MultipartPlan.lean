import Mathlib.Algebra.BigOperators.Ring.Finset
import Mathlib.Algebra.Order.BigOperators.Group.List
import Mathlib.Data.Rat.Floor
import ObjectCommon.Multipart

/-!
# Multipart plans can be completed

* `cut s n c` : the lengths of `c` parts of `s` bytes of which the last holds the rest of `n`;
* `partCount_eq_ceil` : the count of a plan is the least number of parts that hold `n` bytes;
* `PlanCompletable`, `multipartPlan_completable` : the parts of a valid plan are within the limits and complete an
  Object of `n` bytes.
-/

namespace ObjectCommon

open Outcome PyError MultipartCompletion

/-! ## Counts -/

namespace MultipartLimits

theorem partCount_eq_ceil {s n : Nat} (hs : 0 < s) : partCount s n = max 1 ⌈(n : ℚ) / s⌉ := by
  have hsq : (0 : ℚ) < s := by exact_mod_cast hs
  have hdiv := Int.emod_add_mul_ediv ((n : Int) + s - 1) s
  have hlt := Int.emod_lt_of_pos ((n : Int) + s - 1) (by exact_mod_cast hs : (0 : Int) < s)
  have hge := Int.emod_nonneg ((n : Int) + s - 1) (by omega : (s : Int) ≠ 0)
  unfold partCount
  congr 1
  generalize ((n : Int) + s - 1) / s = q at hdiv ⊢
  symm
  rw [Int.ceil_eq_iff, lt_div_iff₀ hsq, div_le_iff₀ hsq]
  constructor
  · have h : (q - 1) * s < (n : Int) := by linarith [mul_comm (s : Int) q]
    exact_mod_cast h
  · have h : (n : Int) ≤ q * s := by linarith [mul_comm (s : Int) q]
    exact_mod_cast h

/-- A plan has one part, or the least number of parts that hold `n` bytes. -/
theorem exists_partCount {s : Nat} (n : Nat) (hs : 0 < s) :
    ∃ k : Nat, partCount s n = (k + 1 : Nat) ∧ k * s ≤ n ∧ (n ≠ 0 → k * s < n) ∧ n ≤ (k + 1) * s := by
  have hcast : ((n : Int) + s - 1) / s = ((n + s - 1) / s : Nat) := by
    rw [Int.natCast_ediv, Int.natCast_sub (by omega), Int.natCast_add]
    rfl
  have hdiv := Nat.div_add_mod (n + s - 1) s
  have hlt := Nat.mod_lt (n + s - 1) hs
  unfold partCount
  rw [hcast]
  generalize (n + s - 1) / s = q at hdiv ⊢
  rcases q with _ | k
  · refine ⟨0, by simp, by omega, fun hn => by omega, by omega⟩
  · have hmul : s * (k + 1) = k * s + s := by rw [Nat.mul_add, Nat.mul_comm s k, Nat.mul_one]
    have hsucc : (k + 1) * s = k * s + s := Nat.succ_mul k s
    exact ⟨k, by omega, by omega, fun hn => by omega, by omega⟩

end MultipartLimits

/-! ## Parts -/

/-- The lengths of `c` parts of `s` bytes of which the last holds the rest of `n` bytes. -/
def cut (s n c : Nat) : List Int := List.replicate (c - 1) (s : Int) ++ [(n : Int) - (c - 1 : Nat) * s]

theorem sum_cut (s n c : Nat) : (cut s n c).sum = n := by
  rw [cut, List.sum_append, List.sum_replicate, List.sum_singleton, nsmul_eq_mul]
  omega

theorem length_cut {s n c : Nat} (hc : 0 < c) : (cut s n c).length = c := by
  rw [cut, List.length_append, List.length_replicate, List.length_singleton]
  omega

theorem dropLast_cut (s n c : Nat) : (cut s n c).dropLast = List.replicate (c - 1) (s : Int) := List.dropLast_concat

theorem getLast?_cut (s n c : Nat) : (cut s n c).getLast? = some (n - (c - 1 : Nat) * s : Int) := List.getLast?_concat

/-- The parts of `l`, in some order, are the cut of `n` bytes, numbered from one. -/
def IsCut (s n c : Nat) (parts : List MultipartPart) : Prop :=
  (parts.map fun p => (p.number.val, (p.identity.byteLength : Int))).Perm ((List.range' 1 c).zip (cut s n c))

/-- Parts that are the cut of `n` bytes complete an Object of `n` bytes. -/
theorem IsCut.complete {s n c : Nat} {parts : List MultipartPart} {identity : ContentIdentity} (hc : 0 < c)
    (h : IsCut s n c parts) (hn : identity.byteLength = n) : Complete parts identity := by
  have hlengths : (List.range' 1 c).length = (cut s n c).length := by rw [List.length_range', length_cut hc]
  have hfst := h.map Prod.fst
  have hsnd := h.map Prod.snd
  rw [List.map_map, List.map_fst_zip hlengths.le] at hfst
  rw [List.map_map, List.map_snd_zip hlengths.ge] at hsnd
  have hlength : parts.length = c := by
    have hl := hfst.length_eq
    rwa [List.length_map, List.length_range'] at hl
  refine ⟨?_, ?_, ?_⟩
  · rintro rfl
    rw [← hlength] at hc
    exact Nat.lt_irrefl 0 hc
  · rw [hlength]
    exact hfst
  · have hsum : (parts.map (Prod.snd ∘ fun p => (p.number.val, (p.identity.byteLength : Int)))).sum = n :=
      hsnd.sum_eq.trans (sum_cut s n c)
    have hcast : (totalBytes parts : Int) = n := by
      rw [← hsum, totalBytes, Nat.cast_list_sum, List.map_map]
      rfl
    rw [hn]
    exact_mod_cast hcast

/-- What a plan of `c` parts of `s` bytes gives for `n` bytes under the limits. -/
structure PlanCompletable (l : MultipartLimits) (s n c : Nat) : Prop where
  nonneg : ∀ x ∈ cut s n c, 0 ≤ x
  sum : (cut s n c).sum = n
  length : (cut s n c).length = c
  le_max : ∀ x ∈ cut s n c, x ≤ l.maxPartBytes
  min_le : ∀ x ∈ (cut s n c).dropLast, l.minPartBytes ≤ x
  last_pos : n ≠ 0 → ∀ x ∈ (cut s n c).getLast?, 0 < x
  fewest : ∀ parts identity completion, MultipartCompletion.new parts identity = .ok completion →
    identity.byteLength = n → (∀ p ∈ parts, p.identity.byteLength ≤ s) → c ≤ parts.length
  completes : ∀ parts identity, IsCut s n c parts → identity.byteLength = n →
    ∃ completion, MultipartCompletion.new parts identity = .ok completion

/-- Parts of at most `s` bytes hold at most `s` bytes each. -/
theorem totalBytes_le {s : Nat} {parts : List MultipartPart} (h : ∀ p ∈ parts, p.identity.byteLength ≤ s) :
    totalBytes parts ≤ parts.length * s := by
  have hle := List.sum_le_card_nsmul (parts.map fun p => p.identity.byteLength) s (by simpa using h)
  rwa [List.length_map, nsmul_eq_mul] at hle

/-- Fewer parts would hold fewer bytes. -/
theorem lt_length_of_le {s n k m : Nat} (hs : 0 < s) (hm : 0 < m) (hle : k * s ≤ n) (hlt : n ≠ 0 → k * s < n)
    (h : n ≤ m * s) : k < m := by
  rcases Nat.eq_zero_or_pos n with rfl | hn
  · obtain rfl : k = 0 := (Nat.mul_eq_zero.mp (Nat.le_zero.mp hle)).resolve_right (Nat.ne_of_gt hs)
    exact hm
  · exact lt_of_mul_lt_mul_right ((hlt (Nat.ne_of_gt hn)).trans_le h) (Nat.zero_le s)

theorem planCompletable {l : MultipartLimits} {s n k : Nat} (hmin : l.minPartBytes ≤ s) (hmax : s ≤ l.maxPartBytes)
    (hle : k * s ≤ n) (hlt : n ≠ 0 → k * s < n) (hge : n ≤ (k + 1) * s) : PlanCompletable l s n (k + 1) := by
  have hpos := l.minPartBytes_pos
  have hrest : 0 ≤ (n : Int) - (k : Nat) * s ∧ (n : Int) - (k : Nat) * s ≤ s := by
    have hle' : ((k * s : Nat) : Int) ≤ n := by exact_mod_cast hle
    have hge' : (n : Int) ≤ ((k + 1) * s : Nat) := by exact_mod_cast hge
    push_cast at hle' hge'
    constructor
    · linarith
    · linarith
  have hmem : ∀ x ∈ cut s n (k + 1), x = s ∨ x = n - (k : Nat) * s := by
    intro x hx
    rcases List.mem_append.mp hx with hx | hx
    · exact Or.inl (List.eq_of_mem_replicate hx)
    · exact Or.inr (List.mem_singleton.mp hx)
  refine ⟨fun x hx => ?_, sum_cut s n _, length_cut k.succ_pos, fun x hx => ?_, fun x hx => ?_, fun hn x hx => ?_,
    fun parts identity completion hnew hid hparts => ?_, fun parts identity hcut hid => ?_⟩
  · rcases hmem x hx with rfl | rfl
    · exact Int.natCast_nonneg s
    · exact hrest.1
  · rcases hmem x hx with rfl | rfl
    · exact_mod_cast hmax
    · exact hrest.2.trans (by exact_mod_cast hmax)
  · rw [dropLast_cut] at hx
    rw [List.eq_of_mem_replicate hx]
    exact_mod_cast hmin
  · rw [getLast?_cut] at hx
    obtain rfl := Option.some.inj hx
    have hlt' : ((k * s : Nat) : Int) < n := by exact_mod_cast hlt hn
    push_cast at hlt'
    rw [Nat.add_sub_cancel]
    linarith
  · have hcomplete := (MultipartCompletion.new_eq_ok.mp hnew).1
    have htotal := totalBytes_le hparts
    rw [hcomplete.lengths, hid] at htotal
    exact lt_length_of_le (hpos.trans_le hmin) (List.length_pos_iff.mpr hcomplete.ne_nil) hle hlt htotal
  · exact MultipartCompletion.exists_new (hcut.complete k.succ_pos hid)

/-- **A plan that the limits allow can be completed within them.** -/
theorem multipartPlan_completable (l : MultipartLimits) (s : Int) (n : Nat) :
    (∀ c : Int, l.validate (.int s) (some n) = .ok (some c) ↔
      l.minPartBytes ≤ s ∧ s ≤ l.maxPartBytes ∧ c = max 1 ⌈(n : ℚ) / s⌉ ∧ c ≤ l.maxParts) ∧
    ∀ c : Int, l.validate (.int s) (some n) = .ok (some c) →
      ∃ size count : Nat, s = size ∧ c = count ∧ PlanCompletable l size n count := by
  have hpos := l.minPartBytes_pos
  refine ⟨fun c => ?_, fun c hc => ?_⟩
  · rw [MultipartLimits.validate_eq_ok]
    constructor
    · rintro ⟨size, hsize, hmin, hmax, hcount, hle⟩
      obtain rfl := Json.int.inj hsize
      obtain rfl := Option.some.inj hcount
      have hceil := MultipartLimits.partCount_eq_ceil (n := n) (hpos.trans_le hmin)
      exact ⟨by exact_mod_cast hmin, by exact_mod_cast hmax, hceil, hle⟩
    · rintro ⟨hmin, hmax, rfl, hle⟩
      obtain ⟨size, rfl⟩ := Int.eq_ofNat_of_zero_le (show 0 ≤ s by omega)
      have hmin : l.minPartBytes ≤ size := by exact_mod_cast hmin
      have hceil := MultipartLimits.partCount_eq_ceil (n := n) (hpos.trans_le hmin)
      rw [Int.cast_natCast, ← hceil] at hle ⊢
      exact ⟨size, rfl, hmin, by exact_mod_cast hmax, rfl, hle⟩
  · obtain ⟨size, hsize, hmin, hmax, hcount, -⟩ := MultipartLimits.validate_eq_ok.mp hc
    obtain ⟨k, hk, hle, hlt, hge⟩ := MultipartLimits.exists_partCount n (hpos.trans_le hmin)
    exact ⟨size, k + 1, Json.int.inj hsize, (Option.some.inj hcount).trans hk, planCompletable hmin hmax hle hlt hge⟩

end ObjectCommon
