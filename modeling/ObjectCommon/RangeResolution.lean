import ObjectCommon.Ranges

/-!
# Byte-range resolution is exact

* `Requests r n i` : position `i` of an Object of length `n` is asked for;
* `requested r data` : the bytes of some content that are asked for;
* `filter_zipIdx_between` : the positions between two bounds are a slice;
* `resolveArguments`, `resolve_eq_bind` : what `resolve` hands to the constructor of a resolved range;
* `resolve_exact` : a range resolves to the requested positions that exist.
-/

namespace ObjectCommon

open Outcome PyError

/-! ## Slices -/

/-- `data[start:stop]` -/
def slice {α : Type} (data : List α) (start stop : Nat) : List α := (data.take stop).drop start

theorem length_slice {α : Type} {data : List α} {start stop : Nat} (h : stop ≤ data.length) :
    (slice data start stop).length = stop - start := by
  rw [slice, List.length_drop, List.length_take, Nat.min_eq_left h]

/-- The elements at the positions between two bounds, positions counted from `k`, are a slice. -/
theorem filter_zipIdx_between {α : Type} (data : List α) (k a b : Nat) :
    ((data.zipIdx k).filter fun p => decide (a ≤ p.2 ∧ p.2 ≤ b)).map Prod.fst = slice data (a - k) (b + 1 - k) := by
  unfold slice
  induction data generalizing k with
  | nil => simp
  | cons x data ih =>
    have hrest := ih (k + 1)
    rw [List.zipIdx_cons, List.filter_cons]
    by_cases hb : k ≤ b
    · rw [show b + 1 - k = (b + 1 - (k + 1)) + 1 by omega, List.take_succ_cons]
      by_cases ha : a ≤ k
      · rw [if_pos (by simpa using ⟨ha, hb⟩), List.map_cons, hrest, Nat.sub_eq_zero_of_le ha,
          Nat.sub_eq_zero_of_le (Nat.le_succ_of_le ha)]
        rfl
      · rw [if_neg (by simp [ha]), hrest, show a - k = (a - (k + 1)) + 1 by omega, List.drop_succ_cons]
    · rw [if_neg (by simp [hb]), hrest, show b + 1 - (k + 1) = 0 by omega, show b + 1 - k = 0 by omega]
      simp

namespace ByteRange

/-! ## Requested positions -/

/-- Position `i` of an Object of length `n` is asked for: it exists and is one of the last `k` for a suffix of `k`,
else it is not before the start and not after the end. -/
def Requests (r : ByteRange) (n i : Nat) : Prop :=
  i < n ∧ match r.suffixLength with
    | some k => n - min k n ≤ i
    | none => (∀ s ∈ r.start, s ≤ i) ∧ ∀ e ∈ r.rangeEnd, i ≤ e

instance (r : ByteRange) (n i : Nat) : Decidable (r.Requests n i) := by
  unfold Requests
  cases r.suffixLength with
  | some k => infer_instance
  | none => infer_instance

/-- The bytes of `data` that are asked for, in their order. -/
def requested {α : Type} (r : ByteRange) (data : List α) : List α :=
  (data.zipIdx.filter fun p => decide (r.Requests data.length p.2)).map Prod.fst

theorem requests_iff_between (r : ByteRange) {n i : Nat} (hn : 0 < n) :
    r.Requests n i ↔ r.firstByte n ≤ i ∧ i ≤ r.lastByte n := by
  obtain ⟨s, e, k, hv⟩ := r
  cases k with
  | some k =>
    obtain ⟨rfl, rfl, -⟩ := id hv
    simp only [Requests, firstByte, lastByte, Option.getD_none]
    omega
  | none =>
    obtain ⟨s, rfl, -⟩ := id hv
    cases e with
    | none =>
      simp only [Requests, firstByte, lastByte, Option.getD_none, Option.getD_some, Option.mem_def, reduceCtorEq,
        Option.some.injEq, forall_eq', false_imp_iff, implies_true, and_true]
      omega
    | some e =>
      simp only [Requests, firstByte, lastByte, Option.getD_some, Option.mem_def, Option.some.injEq, forall_eq']
      omega

theorem requested_eq_slice (r : ByteRange) {α : Type} (data : List α) (hn : 0 < data.length) :
    r.requested data = slice data (r.firstByte data.length) (r.lastByte data.length + 1) := by
  have hslice := filter_zipIdx_between data 0 (r.firstByte data.length) (r.lastByte data.length)
  rw [Nat.sub_zero, Nat.sub_zero] at hslice
  unfold requested
  rw [← hslice]
  congr 2
  funext p
  exact decide_eq_decide.mpr (r.requests_iff_between hn)

/-! ## Failures -/

theorem satisfiable_iff (r : ByteRange) (n : Nat) :
    ¬ r.Satisfiable n ↔ n = 0 ∨ (r.suffixLength = none ∧ ∃ s ∈ r.start, n ≤ s) := by
  obtain ⟨s, e, k, hv⟩ := r
  cases k with
  | some k =>
    obtain ⟨rfl, rfl, -⟩ := id hv
    simp [Satisfiable]
  | none =>
    obtain ⟨s, rfl, -⟩ := id hv
    simp only [Satisfiable, Option.mem_def, Option.some.injEq, forall_eq', true_and, exists_eq_left']
    omega

/-- What `resolve` hands to the constructor of a resolved range. -/
def resolveArguments (r : ByteRange) (totalLength : Json) : Py (Int × Int × Nat) := do
  let total ← nonNegativeInt totalLength "total length"
  raiseIf (total = 0) RangeNotSatisfiable
  match r.suffixLength with
  | some suffixLength =>
    let length := min suffixLength total
    return (total - length, total - 1, total)
  | none =>
    match r.start with
    | none => .error assertionError
    | some start =>
      raiseIf (total ≤ start) RangeNotSatisfiable
      let rangeEnd : Int := match r.rangeEnd with
        | none => total - 1
        | some rangeEnd => min rangeEnd (total - 1 : Int)
      return (start, rangeEnd, total)

theorem resolve_eq_bind (r : ByteRange) (totalLength : Json) :
    r.resolve totalLength = r.resolveArguments totalLength >>= fun arguments =>
      ResolvedByteRange.new (.int arguments.1) (.int arguments.2.1) (.int arguments.2.2) := by
  unfold resolve resolveArguments
  cases nonNegativeInt totalLength "total length" with
  | error e => rfl
  | ok total =>
    simp only [ok_bind]
    cases raiseIf (total = 0) RangeNotSatisfiable with
    | error e => rfl
    | ok u =>
      simp only [ok_bind]
      cases r.suffixLength with
      | some k => rfl
      | none =>
        cases r.start with
        | none => rfl
        | some start =>
          simp only
          cases raiseIf (total ≤ start) RangeNotSatisfiable with
          | error e => rfl
          | ok u => rfl

/-- The arguments are refused when no byte of the range exists, and else are those of a resolved range. -/
theorem resolveArguments_cases (r : ByteRange) (n : Nat) :
    (¬ r.Satisfiable n ∧ r.resolveArguments (.int n) = .error RangeNotSatisfiable) ∨
      (r.Satisfiable n ∧ ∃ arguments, r.resolveArguments (.int n) = .ok arguments ∧ ∃ x,
        ResolvedByteRange.new (.int arguments.1) (.int arguments.2.1) (.int arguments.2.2) = .ok x) := by
  obtain ⟨s, e, k, hv⟩ := r
  have htotal : nonNegativeInt (.int n) "total length" = .ok n := nonNegativeInt_eq_ok.mpr rfl
  unfold resolveArguments
  rw [htotal, ok_bind]
  rcases Nat.eq_zero_or_pos n with hn | hn
  · left
    rw [raiseIf, if_pos hn]
    exact ⟨fun h => absurd h.1 (by omega), rfl⟩
  · rw [raiseIf, if_neg (by omega), ok_bind]
    cases k with
    | some k =>
      obtain ⟨rfl, rfl, hk⟩ := id hv
      right
      refine ⟨⟨hn, by simp⟩, _, rfl, ⟨n - min k n, n - 1, n, by omega⟩, ResolvedByteRange.new_eq_ok.mpr ⟨?_, ?_, rfl⟩⟩
      · dsimp only
        congr 1
        omega
      · dsimp only
        congr 1
        omega
    | none =>
      obtain ⟨s, rfl, he⟩ := id hv
      dsimp only
      by_cases hs : n ≤ s
      · left
        rw [raiseIf, if_pos hs]
        exact ⟨fun h => absurd (h.2 s rfl) (by omega), rfl⟩
      · right
        rw [raiseIf, if_neg hs, ok_bind]
        refine ⟨⟨hn, fun t ht => by obtain rfl := Option.some.inj ht; omega⟩, _, rfl, ?_⟩
        cases e with
        | none =>
          refine ⟨⟨s, n - 1, n, by omega⟩, ResolvedByteRange.new_eq_ok.mpr ⟨rfl, ?_, rfl⟩⟩
          dsimp only
          congr 1
          omega
        | some e =>
          have hse : s ≤ e := he e rfl
          refine ⟨⟨s, min e (n - 1), n, by omega⟩, ResolvedByteRange.new_eq_ok.mpr ⟨rfl, ?_, rfl⟩⟩
          dsimp only
          congr 1
          omega

/-- The positions of a resolved range are those that are asked for, and a slice at these bounds is what is asked for. -/
theorem resolve_positions {r : ByteRange} {n : Nat} {x : ResolvedByteRange} (h : r.resolve (.int n) = .ok x) :
    (∀ i, x.start ≤ i ∧ i ≤ x.rangeEnd ↔ r.Requests n i) ∧ x.totalLength = n ∧ 1 ≤ x.length ∧
      ∀ (α : Type) (data : List α), data.length = n →
        slice data x.start (x.rangeEnd + 1) = r.requested data ∧
          (slice data x.start (x.rangeEnd + 1)).length = x.length := by
  obtain ⟨⟨hn, -⟩, hstart, hend, htotal⟩ := resolve_eq_ok.mp h
  refine ⟨fun i => ?_, htotal, Nat.succ_pos _, fun α data hdata => ⟨?_, ?_⟩⟩
  · rw [r.requests_iff_between hn, hstart, hend]
  · subst hdata
    rw [r.requested_eq_slice data hn, hstart, hend]
  · have hvalid := x.valid
    rw [length_slice (by omega), ResolvedByteRange.length]
    omega

/-- **Resolution is exact.** A range fails to resolve when no byte of it exists, and with no other error; else it
resolves to the requested positions that exist, which are what a slice of the content gives. `resolve` hands its
arguments to the constructor of a resolved range, which never refuses them. -/
theorem resolve_exact (r : ByteRange) (n : Nat) :
    (r.resolve (.int n) = .error RangeNotSatisfiable ↔ n = 0 ∨ (r.suffixLength = none ∧ ∃ s ∈ r.start, n ≤ s)) ∧
    (∀ error, r.resolve (.int n) = .error error → error = RangeNotSatisfiable) ∧
    (∀ x, r.resolve (.int n) = .ok x →
      (∀ i, x.start ≤ i ∧ i ≤ x.rangeEnd ↔ r.Requests n i) ∧ x.totalLength = n ∧ 1 ≤ x.length ∧
      ∀ (α : Type) (data : List α), data.length = n →
        slice data x.start (x.rangeEnd + 1) = r.requested data ∧
          (slice data x.start (x.rangeEnd + 1)).length = x.length) ∧
    (r.resolve (.int n) = r.resolveArguments (.int n) >>= fun arguments =>
      ResolvedByteRange.new (.int arguments.1) (.int arguments.2.1) (.int arguments.2.2)) ∧
    (∀ error, r.resolveArguments (.int n) = .error error → error = RangeNotSatisfiable) ∧
    ∀ arguments, r.resolveArguments (.int n) = .ok arguments → ∃ x,
      ResolvedByteRange.new (.int arguments.1) (.int arguments.2.1) (.int arguments.2.2) = .ok x := by
  have hbind := r.resolve_eq_bind (.int n)
  rw [← satisfiable_iff]
  rcases r.resolveArguments_cases n with ⟨hsat, hargs⟩ | ⟨hsat, arguments, hargs, x, hx⟩
  · have hfails : r.resolve (.int n) = .error RangeNotSatisfiable := by
      rw [hbind, hargs]
      rfl
    refine ⟨iff_of_true hfails hsat, fun error h => ?_, fun x => resolve_positions, hbind, fun error h => ?_,
      fun arguments h => ?_⟩
    · exact Except.error.inj (h.symm.trans hfails)
    · exact Except.error.inj (h.symm.trans hargs)
    · cases h.symm.trans hargs
  · have hresolves : r.resolve (.int n) = .ok x := by
      rw [hbind, hargs, ok_bind, hx]
    refine ⟨iff_of_false ?_ (not_not.mpr hsat), fun error h => ?_, fun x => resolve_positions, hbind, fun error h => ?_,
      fun arguments' h => ?_⟩
    · rw [hresolves]
      exact nofun
    · cases h.symm.trans hresolves
    · cases h.symm.trans hargs
    · obtain rfl := Except.ok.inj (h.symm.trans hargs)
      exact ⟨x, hx⟩

end ByteRange

end ObjectCommon
