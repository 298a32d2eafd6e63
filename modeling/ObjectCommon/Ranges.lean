import ObjectCommon.Validation.Mappings

/-!
# Portable inclusive byte ranges

* `ByteRange` : a zero-based inclusive range, maybe open at its end, or a positive suffix length;
* `ByteRange.fromMapping_eq_ok` : the documents of a range are what it writes, up to the order of the
  fields and a null end;
* `ByteRange.requestedLength_eq` : the length asked for is never the failed assertion;
* `ResolvedByteRange`, `ByteRange.resolve_eq_ok` : the bytes of an Object that a range stands for.
-/

namespace ObjectCommon

open Outcome PyError

/-- A suffix stands alone; a range that is no suffix has a start, and an end not before it. -/
def ByteRange.Valid (start rangeEnd suffixLength : Option Nat) : Prop :=
  match suffixLength with
  | some n => start = none ∧ rangeEnd = none ∧ 0 < n
  | none => ∃ s ∈ start, ∀ e ∈ rangeEnd, s ≤ e

structure ByteRange where
  start : Option Nat
  rangeEnd : Option Nat
  suffixLength : Option Nat
  valid : ByteRange.Valid start rangeEnd suffixLength

namespace ByteRange

/-- `ByteRange(start, end, suffix_length)` -/
def new (start rangeEnd suffixLength : Json) : Py ByteRange :=
  match suffixLength with
  | .null =>
    match start with
    | .null => .error (valueError "a non-suffix range requires start")
    | start => do
      let start ← nonNegativeInt start "range start"
      let rangeEnd ← unlessNone rangeEnd (nonNegativeInt · "range end")
      if h : ∀ e ∈ rangeEnd, start ≤ e then .ok ⟨some start, rangeEnd, none, start, rfl, h⟩
      else .error (valueError "range end must not precede start")
  | suffixLength =>
    match start, rangeEnd with
    | .null, .null => do
      let n ← positiveInt suffixLength "suffix length"
      return ⟨none, none, some n, rfl, rfl, n.2⟩
    | _, _ => .error (valueError "suffix ranges cannot include start or end")

def requestedLength (r : ByteRange) : Py (Option Nat) :=
  match r.suffixLength, r.rangeEnd with
  | some n, _ => .ok (some n)
  | none, none => .ok none
  | none, some rangeEnd =>
    match r.start with
    | none => .error assertionError
    | some start => .ok (some (rangeEnd - start + 1))

/-- The JSON value of an optional position. -/
def wireNat : Option Nat → Json := Json.nullable fun n => .int n

def toDict (r : ByteRange) : Object :=
  match r.suffixLength, r.rangeEnd with
  | some n, _ => [("suffixLength", .int n)]
  | none, none => [("start", wireNat r.start)]
  | none, some rangeEnd => [("start", wireNat r.start), ("end", .int rangeEnd)]

def fromMapping (value : Object) : Py ByteRange :=
  if str "suffixLength" ∈ Dict.keys value then do
    exactFields value ["suffixLength"]
    let suffixLength ← getItem value "suffixLength"
    new .null .null suffixLength
  else do
    exactFields value ["start"] ["end"]
    let start ← getItem value "start"
    new start ((Dict.get? value "end").getD .null) .null

/-! ## Construction -/

theorem wireNat_eq_null {o : Option Nat} : Json.null = wireNat o ↔ o = none :=
  eq_comm.trans (Json.nullable_eq_null (by simp))

theorem unlessNone_nonNegativeInt {value : Json} {field : String} {r : Option Nat} :
    unlessNone value (nonNegativeInt · field) = .ok r ↔ value = wireNat r :=
  unlessNone_eq_ok (fun _ _ => nonNegativeInt_eq_ok) (by simp)

theorem new_eq_ok {start rangeEnd suffixLength : Json} {r : ByteRange} :
    new start rangeEnd suffixLength = .ok r ↔
      start = wireNat r.start ∧ rangeEnd = wireNat r.rangeEnd ∧ suffixLength = wireNat r.suffixLength := by
  obtain ⟨s, e, x, hv⟩ := r
  constructor
  · intro h
    unfold new at h
    split at h
    · split at h
      · cases h
      · obtain ⟨s', hs, h⟩ := bind_eq_ok.mp h
        obtain ⟨e', he, h⟩ := bind_eq_ok.mp h
        split at h
        · cases h
          exact ⟨nonNegativeInt_eq_ok.mp hs, unlessNone_nonNegativeInt.mp he, rfl⟩
        · cases h
    · split at h
      · obtain ⟨n, hn, h⟩ := bind_eq_ok.mp h
        cases h
        exact ⟨rfl, rfl, positiveInt_eq_ok.mp hn⟩
      · cases h
  · rintro ⟨rfl, rfl, rfl⟩
    dsimp only
    cases x with
    | some n =>
      obtain ⟨rfl, rfl, hn⟩ := hv
      have h : positiveInt (.int n) "suffix length" = .ok ⟨n, hn⟩ := positiveInt_eq_ok.mpr rfl
      simp only [wireNat, Json.nullable_some, Json.nullable_none, new, h]
      rfl
    | none =>
      obtain ⟨s, rfl, he⟩ := hv
      have hs : nonNegativeInt (.int s) "range start" = .ok s := nonNegativeInt_eq_ok.mpr rfl
      have hr : unlessNone (wireNat e) (nonNegativeInt · "range end") = .ok e :=
        unlessNone_nonNegativeInt.mpr rfl
      simp only [new, wireNat, Json.nullable_some, Json.nullable_none] at hr ⊢
      rw [bind_eq_ok]
      exact ⟨s, hs, bind_eq_ok.mpr ⟨e, hr, dif_pos he⟩⟩

theorem new_raises (start rangeEnd suffixLength : Json) :
    RaisesValueErrors (new start rangeEnd suffixLength) := by
  unfold new
  split
  · split
    · exact RaisesOnly.error rfl
    · refine (nonNegativeInt_raises _ _).bind fun _ _ =>
        (unlessNone_raises (nonNegativeInt_raises _ _)).bind fun _ _ => ?_
      split
      · exact RaisesOnly.ok _
      · exact RaisesOnly.error rfl
  · split
    · exact (positiveInt_raises _ _).bind fun _ _ => RaisesOnly.pure _
    · exact RaisesOnly.error rfl

/-! ## Length -/

/-- The number of bytes a closed range or a suffix asks for. -/
def length? (r : ByteRange) : Option Nat :=
  match r.suffixLength, r.start, r.rangeEnd with
  | some n, _, _ => some n
  | none, some start, some rangeEnd => some (rangeEnd - start + 1)
  | none, _, _ => none

theorem requestedLength_eq (r : ByteRange) : r.requestedLength = .ok r.length? := by
  obtain ⟨s, e, x, hv⟩ := r
  cases x with
  | some n => rfl
  | none =>
    obtain ⟨s, rfl, he⟩ := hv
    cases e <;> rfl

/-- The length is unknown only for a range with an open end. -/
theorem length?_eq_none_iff (r : ByteRange) :
    r.length? = none ↔ r.suffixLength = none ∧ r.rangeEnd = none := by
  obtain ⟨s, e, x, hv⟩ := r
  cases x with
  | some n => simp [length?]
  | none =>
    obtain ⟨s, rfl, he⟩ := hv
    cases e <;> simp [length?]

/-! ## Documents -/

/-- A null end, which is dropped. -/
def nullEnd : Object := [("end", .null)]

/-- The documents of a range: what it writes, up to the order of the fields and a null end. -/
def Document (r : ByteRange) (value : Object) : Prop :=
  Dict.Same value r.toDict ∨ (r.length? = none ∧ Dict.Same value (r.toDict ++ nullEnd))

theorem fromMapping_suffix {value : Object} {n : Nat} {hv : Valid none none (some n)} :
    fromMapping value = .ok ⟨none, none, some n, hv⟩ ↔
      Dict.Same value [("suffixLength", .int n)] := by
  rw [← exactFields_and_get?_iff (u := ()) ["suffixLength"] rfl]
  unfold fromMapping
  split
  · simp [bind_eq_ok, exists_unit, getItem_eq_ok, new_eq_ok, wireNat]
  · next hk =>
    constructor
    · intro h
      simp only [bind_eq_ok, new_eq_ok] at h
      obtain ⟨-, -, s, -, -, -, h⟩ := h
      cases h
    · rintro ⟨hf, -⟩
      exact absurd ((exactFields_eq_ok.mp hf).1 _ (List.mem_singleton_self _)) hk

theorem fromMapping_plain {value : Object} {s : Nat} {e : Option Nat} {hv : Valid (some s) e none} :
    fromMapping value = .ok ⟨some s, e, none, hv⟩ ↔
      exactFields value ["start"] ["end"] = .ok () ∧ Dict.get? value "start" = some (.int s) ∧
        (Dict.get? value "end").getD .null = wireNat e := by
  unfold fromMapping
  split
  · next hk =>
    constructor
    · intro h
      simp only [bind_eq_ok, new_eq_ok] at h
      obtain ⟨-, -, n, -, h, -⟩ := h
      cases h
    · rintro ⟨hf, -⟩
      have := (exactFields_eq_ok.mp hf).2 _ hk
      simp at this
  · simp [bind_eq_ok, exists_unit, getItem_eq_ok, new_eq_ok, wireNat]

/-- A range without a suffix, its end present or left out. -/
theorem plain_iff {value : Object} {s : Nat} {e : Option Nat} :
    (exactFields value ["start"] ["end"] = .ok () ∧ Dict.get? value "start" = some (.int s) ∧
        (Dict.get? value "end").getD .null = wireNat e) ↔
      Dict.Same value [("start", .int s), ("end", wireNat e)] ∨
        (e = none ∧ Dict.Same value [("start", .int s)]) := by
  rw [← exactFields_and_get?_iff (u := ()) ["start", "end"] rfl,
    ← exactFields_and_get?_iff (u := ()) ["start"] rfl, exactFields_optional]
  cases he : Dict.get? value (str "end") with
  | none =>
    have hk : str "end" ∉ Dict.keys value := Dict.get?_eq_none_iff.mp he
    have hf : exactFields value ["start", "end"] ≠ .ok () := fun h =>
      hk ((exactFields_eq_ok.mp h).1 _ (by simp))
    simp [hk, hf, he, wireNat_eq_null, and_comm, and_left_comm]
  | some j =>
    have hk : str "end" ∈ Dict.keys value := Dict.mem_keys_of_get? he
    have hf : exactFields value ["start"] ≠ .ok () := fun h => by
      have := (exactFields_eq_ok.mp h).2 _ hk
      simp at this
    simp [hk, hf, he]

/-- The documents a range is read from. -/
theorem fromMapping_eq_ok {value : Object} {r : ByteRange} :
    fromMapping value = .ok r ↔ Document r value := by
  obtain ⟨s, e, x, hv⟩ := r
  unfold Document
  cases x with
  | some n =>
    obtain ⟨rfl, rfl, -⟩ := id hv
    rw [fromMapping_suffix]
    simp [length?, toDict]
  | none =>
    obtain ⟨s, rfl, -⟩ := id hv
    rw [fromMapping_plain, plain_iff]
    cases e with
    | none => simp [length?, toDict, wireNat, nullEnd, or_comm]
    | some e => simp [length?, toDict, wireNat]

theorem fromMapping_toDict (r : ByteRange) : fromMapping r.toDict = .ok r :=
  fromMapping_eq_ok.mpr (Or.inl (Dict.Same.refl _))

theorem fromMapping_raises (value : Object) : RaisesValueErrors (fromMapping value) := by
  unfold fromMapping
  split
  · exact (exactFields_raises _ _ _).bind fun _ hf =>
      (getItem_raises hf (by simp)).bind fun _ _ => new_raises _ _ _
  · exact (exactFields_raises _ _ _).bind fun _ hf =>
      (getItem_raises hf (by simp)).bind fun _ _ => new_raises _ _ _

theorem toDict_wellFormed (r : ByteRange) : Json.WellFormed (.obj r.toDict) := by
  have hs : Json.WellFormed (wireNat r.start) := Json.wellFormed_nullable (fun _ => .int _) _
  unfold toDict
  split <;> refine .obj (by simp) ?_ <;> simp [hs, Json.WellFormed.int]

end ByteRange

/-! ## Resolved ranges -/

/-- First and last byte of a part of an Object, and the length of the whole. -/
structure ResolvedByteRange where
  start : Nat
  rangeEnd : Nat
  totalLength : Nat
  valid : start ≤ rangeEnd ∧ rangeEnd < totalLength

namespace ResolvedByteRange

/-- `ResolvedByteRange(start, end, total_length)` -/
def new (start rangeEnd totalLength : Json) : Py ResolvedByteRange := do
  let start ← nonNegativeInt start "range start"
  let rangeEnd ← nonNegativeInt rangeEnd "range end"
  let total ← nonNegativeInt totalLength "total length"
  if h : total = 0 ∨ rangeEnd < start ∨ total ≤ rangeEnd then .error RangeNotSatisfiable
  else .ok ⟨start, rangeEnd, total, by omega⟩

def length (r : ResolvedByteRange) : Nat := r.rangeEnd - r.start + 1

def toDict (r : ResolvedByteRange) : Object :=
  [("start", .int r.start), ("end", .int r.rangeEnd), ("length", .int r.length), ("totalLength", .int r.totalLength)]

theorem toDict_wellFormed (r : ResolvedByteRange) : Json.WellFormed (.obj r.toDict) :=
  .obj (by simp [toDict]) (by simp [toDict, Json.WellFormed.int])

theorem toDict_textual (r : ResolvedByteRange) : Json.Textual (.obj r.toDict) := by
  refine .obj ?_ (by simp [toDict, Json.Textual.int])
  simp only [toDict, List.forall_mem_cons, List.not_mem_nil, false_imp_iff, implies_true, and_true]
  refine ⟨?_, ?_, ?_, ?_⟩ <;> exact encodable_literal (by decide)

theorem new_eq_ok {start rangeEnd totalLength : Json} {r : ResolvedByteRange} :
    new start rangeEnd totalLength = .ok r ↔
      start = .int r.start ∧ rangeEnd = .int r.rangeEnd ∧ totalLength = .int r.totalLength := by
  obtain ⟨s, e, t, hv⟩ := r
  simp only [new, bind_eq_ok, nonNegativeInt_eq_ok]
  constructor
  · rintro ⟨_, hs, _, he, _, ht, h⟩
    split at h
    · cases h
    · cases h
      exact ⟨hs, he, ht⟩
  · rintro ⟨hs, he, ht⟩
    exact ⟨s, hs, e, he, t, ht, dif_neg (by omega)⟩

end ResolvedByteRange

namespace ByteRange

def resolve (r : ByteRange) (totalLength : Json) : Py ResolvedByteRange := do
  let total ← nonNegativeInt totalLength "total length"
  raiseIf (total = 0) RangeNotSatisfiable
  match r.suffixLength with
  | some suffixLength =>
    let length := min suffixLength total
    ResolvedByteRange.new (.int (total - length : Int)) (.int (total - 1 : Int)) (.int total)
  | none =>
    match r.start with
    | none => .error assertionError
    | some start =>
      raiseIf (total ≤ start) RangeNotSatisfiable
      let rangeEnd : Int := match r.rangeEnd with
        | none => total - 1
        | some rangeEnd => min rangeEnd (total - 1 : Int)
      ResolvedByteRange.new (.int start) (.int rangeEnd) (.int total)

/-- Some byte of an Object of length `n` is in the range. -/
def Satisfiable (r : ByteRange) (n : Nat) : Prop := 0 < n ∧ ∀ s ∈ r.start, s < n

/-- The first byte of the range in an Object of length `n`. -/
def firstByte (r : ByteRange) (n : Nat) : Nat :=
  match r.suffixLength with
  | some suffixLength => n - suffixLength
  | none => r.start.getD 0

/-- The last byte of the range in an Object of length `n`. -/
def lastByte (r : ByteRange) (n : Nat) : Nat := min (r.rangeEnd.getD (n - 1)) (n - 1)

/-- The bytes asked for are all bytes of an Object of length `n`. -/
def LiesInside (r : ByteRange) (n : Nat) : Prop := (∀ e ∈ r.rangeEnd, e < n) ∧ ∀ k ∈ r.suffixLength, k ≤ n

/-- What a range resolves to. -/
theorem resolve_eq_ok {r : ByteRange} {n : Nat} {x : ResolvedByteRange} :
    r.resolve (.int n) = .ok x ↔
      r.Satisfiable n ∧ x.start = r.firstByte n ∧ x.rangeEnd = r.lastByte n ∧ x.totalLength = n := by
  obtain ⟨s, e, k, hv⟩ := r
  have htotal : ∀ {total : Nat}, Json.int n = .int total ↔ total = n := by
    intro total
    rw [Json.int.injEq, Int.natCast_inj, eq_comm]
  simp only [resolve, bind_eq_ok, nonNegativeInt_eq_ok, exists_unit, raiseIf_eq_ok, htotal, exists_eq_left]
  cases k with
  | some k =>
    obtain ⟨rfl, rfl, hk⟩ := id hv
    simp only [ResolvedByteRange.new_eq_ok, Satisfiable, firstByte, lastByte, Json.int.injEq, Option.getD_none,
      Option.mem_def, reduceCtorEq, false_imp_iff, implies_true, and_true]
    omega
  | none =>
    obtain ⟨s, rfl, he⟩ := id hv
    simp only [bind_eq_ok, exists_unit, raiseIf_eq_ok, ResolvedByteRange.new_eq_ok, Satisfiable, firstByte, lastByte,
      Json.int.injEq, Option.getD_some, Option.mem_def, Option.some.injEq, forall_eq']
    cases e with
    | none =>
      simp only [Option.getD_none]
      omega
    | some e =>
      simp only [Option.getD_some]
      omega

/-- The length of a resolved range is at most the length asked for, and is that length when the range
lies inside the Object. -/
theorem length_resolve {r : ByteRange} {n m : Nat} {x : ResolvedByteRange} (h : r.resolve (.int n) = .ok x)
    (hm : r.length? = some m) : x.length ≤ m ∧ (x.length = m ↔ r.LiesInside n) := by
  obtain ⟨⟨hpos, hsat⟩, hs, he, -⟩ := resolve_eq_ok.mp h
  obtain ⟨s, e, k, hv⟩ := r
  unfold ResolvedByteRange.length LiesInside
  rw [hs, he]
  cases k with
  | some k =>
    obtain ⟨rfl, rfl, hk⟩ := id hv
    obtain rfl : k = m := Option.some.inj hm
    simp only [firstByte, lastByte, Option.getD_none, Option.mem_def, reduceCtorEq, false_imp_iff, implies_true,
      Option.some.injEq, forall_eq', true_and]
    omega
  | none =>
    obtain ⟨s, rfl, hle⟩ := id hv
    cases e with
    | none => cases hm
    | some e =>
      obtain rfl : e - s + 1 = m := Option.some.inj hm
      have hse : s ≤ e := hle e rfl
      have hsn : s < n := hsat s rfl
      simp only [firstByte, lastByte, Option.getD_some, Option.mem_def, reduceCtorEq, false_imp_iff, implies_true,
        Option.some.injEq, forall_eq', and_true]
      omega

/-- A range with an open end resolves to everything from its start. -/
theorem length_resolve_open {r : ByteRange} {n : Nat} {x : ResolvedByteRange} (h : r.resolve (.int n) = .ok x)
    (hm : r.length? = none) : ∃ start ∈ r.start, x.length = n - start := by
  obtain ⟨⟨hpos, hsat⟩, hs, he, -⟩ := resolve_eq_ok.mp h
  obtain ⟨hk, hend⟩ := r.length?_eq_none_iff.mp hm
  obtain ⟨s, e, k, hv⟩ := r
  dsimp only at hk hend
  subst hk hend
  obtain ⟨s, rfl, -⟩ := id hv
  refine ⟨s, rfl, ?_⟩
  have hsn : s < n := hsat s rfl
  unfold ResolvedByteRange.length
  rw [hs, he]
  simp only [firstByte, lastByte, Option.getD_none, Option.getD_some]
  omega

end ByteRange

end ObjectCommon
