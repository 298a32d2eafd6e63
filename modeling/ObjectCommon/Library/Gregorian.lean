import Mathlib.Data.List.GetD
import Mathlib.Data.List.Induction
import Mathlib.Algebra.BigOperators.Group.List.Basic
import Mathlib.Tactic.Ring
import Mathlib.Tactic.Common

/-!
# The proleptic Gregorian calendar and fixed-width decimals

* `ordinal d` : the day number of a date, 1 for 0001-01-01; `ofOrdinal n` : the date of a day
  number, by cycles of 400, 100, 4 and 1 years;
* `ordinal_ofOrdinal`, `ofOrdinal_valid` : the two conversions agree, and only calendar dates
  come out;
* `locate ls n` : which of the consecutive intervals of lengths `ls` holds position `n`;
* `digits w n`, `value ds` : the last `w` decimal digits of a number, and back (`value_digits`).
-/

namespace Gregorian

/-! ## Consecutive intervals -/

/-- Position `n` lies in interval `i` of `ls`, at offset `r`. -/
def locate : List Nat → Nat → Nat × Nat
  | [], n => (0, n)
  | l :: ls, n => if n < l then (0, n) else ((locate ls (n - l)).1 + 1, (locate ls (n - l)).2)

theorem locate_spec (ls : List Nat) (n : Nat) (h : n < ls.sum) :
    (locate ls n).1 < ls.length ∧ (locate ls n).2 < ls.getD (locate ls n).1 0 ∧
      (ls.take (locate ls n).1).sum + (locate ls n).2 = n := by
  induction ls generalizing n with
  | nil => simp at h
  | cons l ls ih =>
    unfold locate
    split
    · next hl => simpa using hl
    · next hl =>
      rw [List.sum_cons] at h
      obtain ⟨h1, h2, h3⟩ := ih (n - l) (by omega)
      refine ⟨by simpa using h1, by simpa using h2, ?_⟩
      simp only [List.take_succ_cons, List.sum_cons]
      omega

/-! ## Dates -/

structure Date where
  year : Nat
  month : Nat
  day : Nat
  deriving DecidableEq

def isLeap (y : Nat) : Bool := y % 4 = 0 ∧ (y % 100 ≠ 0 ∨ y % 400 = 0)

/-- The lengths of the twelve months of year `y`. -/
def monthLengths (y : Nat) : List Nat :=
  [31, if isLeap y then 29 else 28, 31, 30, 31, 30, 31, 31, 30, 31, 30, 31]

def daysInMonth (y m : Nat) : Nat := (monthLengths y).getD (m - 1) 0

/-- Days of the year before month `m`. -/
def daysBeforeMonth (y m : Nat) : Nat := ((monthLengths y).take (m - 1)).sum

/-- Days before January 1st of year `y`, counted from 0001-01-01. -/
def daysBeforeYear (y : Nat) : Nat := (y - 1) * 365 + (y - 1) / 4 - (y - 1) / 100 + (y - 1) / 400

/-- A calendar date of the years `1..9999`. -/
def Date.Valid (d : Date) : Prop :=
  1 ≤ d.year ∧ d.year ≤ 9999 ∧ 1 ≤ d.month ∧ d.month ≤ 12 ∧ 1 ≤ d.day ∧
    d.day ≤ daysInMonth d.year d.month

instance (d : Date) : Decidable d.Valid := by unfold Date.Valid; infer_instance

def ordinal (d : Date) : Nat := daysBeforeYear d.year + daysBeforeMonth d.year d.month + d.day

/-- The day number of 9999-12-31. -/
def maxOrdinal : Nat := 3652059

/-- The year after `n400`, `n100`, `n4` and `n1` whole cycles. A fourth year or a fourth century of
its cycle is that cycle's last leap day, which belongs to the year before. -/
def yearFrom (n400 n100 n4 n1 : Nat) : Nat :=
  let year := n400 * 400 + n100 * 100 + n4 * 4 + n1 + 1
  if n1 = 4 ∨ n100 = 4 then year - 1 else year

/-- The year that holds day `n`, counted from zero at 0001-01-01. -/
def yearOf (n : Nat) : Nat :=
  yearFrom (n / 146097) (n % 146097 / 36524) (n % 146097 % 36524 / 1461)
    (n % 146097 % 36524 % 1461 / 365)

def ofOrdinal (n : Nat) : Date :=
  let y := yearOf (n - 1)
  let md := locate (monthLengths y) (n - 1 - daysBeforeYear y)
  ⟨y, md.1 + 1, md.2 + 1⟩

theorem sum_monthLengths (y : Nat) : (monthLengths y).sum = if isLeap y then 366 else 365 := by
  unfold monthLengths
  split <;> rfl

theorem isLeap_eq_true_iff (y : Nat) : isLeap y = true ↔ y % 4 = 0 ∧ (y % 100 ≠ 0 ∨ y % 400 = 0) := by
  simp [isLeap]

/-- One more year adds a multiple of `k` exactly when it is one. -/
theorem succ_div_eq (z k : Nat) : (z + 1) / k = z / k + if (z + 1) % k = 0 then 1 else 0 := by
  simp only [Nat.succ_div, Nat.dvd_iff_mod_eq_zero]

theorem daysBeforeYear_succ (y : Nat) (hy : 1 ≤ y) :
    daysBeforeYear (y + 1) = daysBeforeYear y + (monthLengths y).sum := by
  obtain ⟨z, rfl⟩ : ∃ z, y = z + 1 := ⟨y - 1, by omega⟩
  have h100 : (z + 1) % 400 = 0 → (z + 1) % 100 = 0 := by omega
  have h4 : (z + 1) % 100 = 0 → (z + 1) % 4 = 0 := by omega
  have hle : z / 100 ≤ z / 4 := by omega
  rw [sum_monthLengths]
  unfold daysBeforeYear isLeap
  rw [Nat.add_sub_cancel, Nat.add_sub_cancel, succ_div_eq z 4, succ_div_eq z 100, succ_div_eq z 400]
  generalize z / 4 = q4 at *
  generalize z / 100 = q100 at *
  generalize z / 400 = q400 at *
  by_cases c4 : (z + 1) % 4 = 0 <;> by_cases c100 : (z + 1) % 100 = 0 <;>
    by_cases c400 : (z + 1) % 400 = 0 <;> simp_all <;> omega

/-- A year written through its position in the 400-, 100- and 4-year cycles. -/
theorem daysBeforeYear_cycles (a b c d : Nat) (hb : b < 4) (hc : c < 25) (hd : d < 4) :
    daysBeforeYear (a * 400 + b * 100 + c * 4 + d + 1) = a * 146097 + b * 36524 + c * 1461 + d * 365 := by
  unfold daysBeforeYear
  have h4 : (a * 400 + b * 100 + c * 4 + d) / 4 = a * 100 + b * 25 + c := by omega
  have h100 : (a * 400 + b * 100 + c * 4 + d) / 100 = a * 4 + b := by omega
  have h400 : (a * 400 + b * 100 + c * 4 + d) / 400 = a := by omega
  rw [Nat.add_sub_cancel, h4, h100, h400]
  omega

theorem yearFrom_pos (a b c d : Nat) : 1 ≤ yearFrom a b c d := by
  unfold yearFrom
  dsimp only
  split <;> omega

theorem yearOf_pos (n : Nat) : 1 ≤ yearOf n := yearFrom_pos _ _ _ _

/-- The year found from the cycles of a day is the one whose days contain it: `s`, `t` and `u` are
what the century, the 4-year cycle and the year leave. -/
theorem yearFrom_spec (a b c d s t u : Nat) (hbs : b * 36524 + s < 146097) (hs : s < 36524)
    (hst : s = c * 1461 + t) (ht : t < 1461) (htu : t = d * 365 + u) (hu : u < 365) :
    daysBeforeYear (yearFrom a b c d) ≤ a * 146097 + b * 36524 + s ∧
      a * 146097 + b * 36524 + s < daysBeforeYear (yearFrom a b c d + 1) := by
  unfold yearFrom
  dsimp only
  by_cases h100 : b = 4
  · -- the last day of a 400-year cycle, in its 400th year
    have e : a * 400 + b * 100 + c * 4 + d + 1 - 1 = a * 400 + 3 * 100 + 24 * 4 + 3 + 1 := by omega
    have hl : isLeap (a * 400 + 3 * 100 + 24 * 4 + 3 + 1) = true := by
      rw [isLeap_eq_true_iff]
      omega
    rw [if_pos (Or.inr h100), e, daysBeforeYear_succ (a * 400 + 3 * 100 + 24 * 4 + 3 + 1) (by omega),
      daysBeforeYear_cycles a 3 24 3 (by omega) (by omega) (by omega), sum_monthLengths, if_pos hl]
    omega
  · by_cases h1 : d = 4
    · -- the last day of a 4-year cycle, in its fourth year
      have hc : c < 25 := by omega
      have e : a * 400 + b * 100 + c * 4 + d + 1 - 1 = a * 400 + b * 100 + c * 4 + 3 + 1 := by omega
      have hl : isLeap (a * 400 + b * 100 + c * 4 + 3 + 1) = true := by
        rw [isLeap_eq_true_iff]
        omega
      rw [if_pos (Or.inl h1), e, daysBeforeYear_succ (a * 400 + b * 100 + c * 4 + 3 + 1) (by omega),
        daysBeforeYear_cycles a b c 3 (by omega) hc (by omega), sum_monthLengths, if_pos hl]
      omega
    · have hlow : 365 ≤ if isLeap (a * 400 + b * 100 + c * 4 + d + 1) then 366 else 365 := by
        split <;> omega
      rw [if_neg (by omega), daysBeforeYear_succ (a * 400 + b * 100 + c * 4 + d + 1) (by omega),
        daysBeforeYear_cycles a b c d (by omega) (by omega) (by omega), sum_monthLengths]
      omega

theorem yearOf_spec (n : Nat) :
    daysBeforeYear (yearOf n) ≤ n ∧ n < daysBeforeYear (yearOf n + 1) := by
  have h := yearFrom_spec (n / 146097) (n % 146097 / 36524) (n % 146097 % 36524 / 1461)
    (n % 146097 % 36524 % 1461 / 365) (n % 146097 % 36524) (n % 146097 % 36524 % 1461)
    (n % 146097 % 36524 % 1461 % 365) (by omega) (by omega) (by omega) (by omega) (by omega) (by omega)
  have hn : n / 146097 * 146097 + n % 146097 / 36524 * 36524 + n % 146097 % 36524 = n := by omega
  rwa [hn] at h

/-- Day numbers of the supported range fall in the years `1..9999`. -/
theorem yearOf_le (n : Nat) (hn : n < maxOrdinal) : yearOf n ≤ 9999 := by
  by_contra h
  have h1 := (yearOf_spec n).1
  have h2 : daysBeforeYear 10000 ≤ daysBeforeYear (yearOf n) := by
    obtain ⟨k, hk⟩ : ∃ k, yearOf n = 10000 + k := ⟨yearOf n - 10000, by omega⟩
    rw [hk]
    unfold daysBeforeYear
    omega
  have h3 : daysBeforeYear 10000 = maxOrdinal := rfl
  omega

theorem ofOrdinal_spec (n : Nat) (h1 : 1 ≤ n) :
    n - 1 - daysBeforeYear (yearOf (n - 1)) < (monthLengths (yearOf (n - 1))).sum := by
  have h := yearOf_spec (n - 1)
  rw [daysBeforeYear_succ _ (yearOf_pos _)] at h
  omega

theorem ordinal_ofOrdinal (n : Nat) (h1 : 1 ≤ n) : ordinal (ofOrdinal n) = n := by
  obtain ⟨-, -, h⟩ := locate_spec _ _ (ofOrdinal_spec n h1)
  have hy := (yearOf_spec (n - 1)).1
  unfold ordinal ofOrdinal daysBeforeMonth
  dsimp only
  rw [Nat.add_sub_cancel]
  omega

theorem ofOrdinal_valid (n : Nat) (h1 : 1 ≤ n) (hn : n ≤ maxOrdinal) : (ofOrdinal n).Valid := by
  obtain ⟨h2, h3, -⟩ := locate_spec _ _ (ofOrdinal_spec n h1)
  have hlen : (monthLengths (yearOf (n - 1))).length = 12 := rfl
  refine ⟨yearOf_pos _, yearOf_le _ (by omega), ?_, ?_, ?_, ?_⟩
  · exact Nat.succ_le_succ (Nat.zero_le _)
  · exact hlen ▸ h2
  · exact Nat.succ_le_succ (Nat.zero_le _)
  · unfold ofOrdinal daysInMonth
    dsimp only
    rw [Nat.add_sub_cancel]
    omega

/-! ## Fixed-width decimals -/

/-- The last `w` decimal digits of `n`, the most significant first. -/
def digits : Nat → Nat → List Nat
  | 0, _ => []
  | w + 1, n => digits w (n / 10) ++ [n % 10]

/-- The number a digit string denotes. -/
def value (ds : List Nat) : Nat := ds.foldl (fun acc d => 10 * acc + d) 0

@[simp] theorem length_digits (w n : Nat) : (digits w n).length = w := by
  induction w generalizing n with
  | zero => rfl
  | succ w ih => simp [digits, ih]

theorem digits_lt (w n : Nat) : ∀ d ∈ digits w n, d < 10 := by
  induction w generalizing n with
  | zero => simp [digits]
  | succ w ih =>
    intro d hd
    rcases List.mem_append.mp hd with hd | hd
    · exact ih _ d hd
    · rw [List.mem_singleton] at hd
      omega

theorem value_append_singleton (ds : List Nat) (d : Nat) : value (ds ++ [d]) = 10 * value ds + d := by
  simp [value, List.foldl_append]

theorem value_digits (w n : Nat) (h : n < 10 ^ w) : value (digits w n) = n := by
  induction w generalizing n with
  | zero =>
    have : n = 0 := by simpa using h
    rw [this]
    rfl
  | succ w ih =>
    rw [digits, value_append_singleton, ih (n / 10) (by rw [pow_succ] at h; omega)]
    omega

/-- A digit string is that of the number it denotes. -/
theorem digits_value (ds : List Nat) (h : ∀ d ∈ ds, d < 10) :
    digits ds.length (value ds) = ds ∧ value ds < 10 ^ ds.length := by
  induction ds using List.reverseRecOn with
  | nil => exact ⟨rfl, by decide⟩
  | append_singleton ds d ih =>
    have hd : d < 10 := h d (by simp)
    obtain ⟨hds, hlt⟩ := ih fun x hx => h x (List.mem_append_left _ hx)
    have hdiv : (10 * value ds + d) / 10 = value ds := by omega
    have hmod : (10 * value ds + d) % 10 = d := by omega
    rw [List.length_append, List.length_singleton, value_append_singleton]
    constructor
    · rw [digits, hdiv, hmod, hds]
    · rw [pow_succ]
      omega

end Gregorian
