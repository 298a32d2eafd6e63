import ObjectCommon.Codec.Signing
import ObjectCommon.Multipart

/-!
# Wire values round-trip

* `WireRoundTrip built write read canonical` : what is written is read back, and what is read is written again in
  its canonical form;
* `withoutNullEnd`, `canonicalReference`, `sortTexts` : what is canonical in a document;
* `FourDigitYear` : the deadlines whose text is a timestamp;
* `wireValues_roundTrip` : the seven wire types.
-/

namespace ObjectCommon

open Outcome PyError

/-- What is written from a value that was built is read back, and what is read is written again in its canonical
form. -/
structure WireRoundTrip {α : Type} (built : α → Prop) (write : α → Object) (read : Object → Py α)
    (canonical : Object → Object) : Prop where
  read_write : ∀ v, built v → read (write v) = .ok v
  write_read : ∀ m v, read m = .ok v → Dict.Same (write v) (canonical m)

/-- A type whose documents are what it writes, and are read from values with `p`. -/
theorem WireRoundTrip.of_same {α : Type} {built p : α → Prop} {write : α → Object} {read : Object → Py α}
    (hread : ∀ m v, read m = .ok v ↔ Dict.Same m (write v) ∧ p v) (hbuilt : ∀ v, built v → p v) :
    WireRoundTrip built write read id where
  read_write v hv := (hread _ _).mpr ⟨Dict.Same.refl _, hbuilt v hv⟩
  write_read m v h := ((hread m v).mp h).1.symm

/-! ## Canonical documents -/

/-- A null end is dropped. -/
def withoutNullEnd (m : Object) : Object :=
  match Dict.get? m "end" with
  | some .null => Dict.pop m "end"
  | _ => m

variable (P : Packages)

/-- The document of an Object reference as the reference writes it. -/
def canonicalReference : Json → Json
  | .obj raw =>
    match parseObjectReference P (.document raw) with
    | .ok r => .obj (P.referenceToDict r)
    | .error _ => .obj raw
  | value => value

def asText? : Json → Option Str
  | .str s => some s
  | _ => none

/-- An array of texts, sorted. -/
def sortTexts : Json → Json
  | .arr items =>
    match items.mapM asText? with
    | some texts => .arr ((sorted texts).map .str)
    | none => .arr items
  | value => value

/-- The embedded Object reference in its canonical form. -/
def withCanonicalReference (m : Object) : Object := Dict.modify m "objectRef" (canonicalReference P)

/-- The operations sorted. -/
def withSortedOperations (m : Object) : Object := Dict.modify m "allowedOperations" sortTexts

variable {P}

theorem canonicalReference_of_read {raw : Object} {r : P.ObjectReference}
    (h : readObjectReference P (.document raw) = .ok r) :
    canonicalReference P (.obj raw) = .obj (P.referenceToDict r) := by
  have hparse : parseObjectReference P (.document raw) = .ok r := parseObjectReference_eq_ok.mpr ⟨h, nofun⟩
  rw [canonicalReference, hparse]

theorem mapM_asText? (l : List Str) : (l.map .str).mapM asText? = some l := by
  induction l with
  | nil => rfl
  | cons s l ih =>
    rw [List.map_cons, List.mapM_cons, ih]
    rfl

theorem sortTexts_map_str (l : List Str) : sortTexts (.arr (l.map .str)) = .arr ((sorted l).map .str) := by
  rw [sortTexts, mapM_asText?]

/-! ## Deadlines -/

/-- A deadline given as a text, or as a `datetime` whose UTC year has four digits. -/
def FourDigitYear : TimeValue → Prop
  | .json _ => True
  | .datetime d => ∀ offset u, d.utcoffset = some offset → d.toUtc offset = .ok u → 1000 ≤ u.date.year

theorem isTimestamp_of_utcTimestamp {t : TimeValue} {field : String} {s : Str} (hy : FourDigitYear t)
    (h : utcTimestamp t field = .ok s) : IsTimestamp s := by
  cases t with
  | json value => exact (utcTimestamp_json_eq_ok.mp h).2
  | datetime d =>
    simp only [utcTimestamp, bind_eq_ok, DateTime.awareOffset_eq_ok, pure_eq_ok] at h
    obtain ⟨offset, ho, u, hu, rfl⟩ := h
    exact ⟨u, DateTime.strptime_strftime u (DateTime.instant_toUtc hu).1 (hy offset u ho hu)⟩

theorem isTimestamp_of_deadline {t : TimeValue} {r : Option Str} (hy : FourDigitYear t) (h : deadline t = .ok r) :
    ∀ s ∈ r, IsTimestamp s := by
  intro s hs
  unfold deadline at h
  split at h
  · cases h
    cases hs
  · obtain ⟨s', hs', rfl⟩ := map_eq_ok.mp h
    obtain rfl := Option.some.inj hs
    exact isTimestamp_of_utcTimestamp hy hs'

/-! ## Each type -/

theorem PayloadReference.roundTrip :
    WireRoundTrip (fun v : PayloadReference => ∃ t l d b f, new t l d b f = .ok v) toDict fromMapping id :=
  .of_same (p := fun _ => True) (fun _ _ => fromMapping_eq_ok.trans (iff_of_eq (and_true _)).symm)
    fun _ _ => trivial

theorem ContentIdentity.roundTrip :
    WireRoundTrip (fun v : ContentIdentity => ∃ d n, new d n = .ok v) toDict fromMapping id :=
  .of_same (p := fun _ => True) (fun _ _ => fromMapping_eq_ok.trans (iff_of_eq (and_true _)).symm)
    fun _ _ => trivial

theorem ImmutabilityRequest.roundTrip :
    WireRoundTrip (fun v : ImmutabilityRequest => ∃ m p, new m p = .ok v) toDict fromMapping id :=
  .of_same (p := fun _ => True) (fun _ _ => fromMapping_eq_ok.trans (iff_of_eq (and_true _)).symm)
    fun _ _ => trivial

theorem RetentionRequest.roundTrip :
    WireRoundTrip (fun v : RetentionRequest => ∃ t p e, FourDigitYear t ∧ new t p e = .ok v) toDict fromMapping id :=
  .of_same (fun _ _ => fromMapping_eq_ok) fun _ ⟨_, _, _, hy, h⟩ => isTimestamp_of_deadline hy (new_eq_ok.mp h).1

theorem ByteRange.withoutNullEnd_toDict (r : ByteRange) {m : Object} (h : Document r m) :
    Dict.Same r.toDict (withoutNullEnd m) := by
  obtain ⟨s, e, k, hv⟩ := r
  rcases h with h | ⟨hlength, h⟩
  · -- the end is left out, or is a position
    have hend := h "end"
    have hne : Dict.get? m "end" ≠ some .null := by
      rw [hend]
      cases k with
      | some k => simp [toDict]
      | none => cases e <;> simp [toDict]
    unfold withoutNullEnd
    split
    · next hnull => exact absurd hnull hne
    · exact h.symm
  · obtain ⟨rfl, rfl⟩ := (length?_eq_none_iff _).mp hlength
    have hend : Dict.get? m "end" = some .null := (h "end").trans (by simp [toDict, nullEnd])
    rw [withoutNullEnd, hend]
    exact (h.pop "end").symm

theorem ByteRange.roundTrip :
    WireRoundTrip (fun v : ByteRange => ∃ s e k, new s e k = .ok v) toDict fromMapping withoutNullEnd where
  read_write v _ := fromMapping_toDict v
  write_read _ v h := v.withoutNullEnd_toDict (fromMapping_eq_ok.mp h)

theorem MultipartSession.expiresAt_of_new {i : Json} {r : ReferenceValue P} {n : Json} {t : TimeValue} {f : Json}
    {v : MultipartSession P} (hy : FourDigitYear t) (h : new i r n t f = .ok v) : ∀ s ∈ v.expiresAt, IsTimestamp s := by
  obtain ⟨-, -, -, ht, -⟩ := new_eq_ok.mp h
  exact isTimestamp_of_deadline hy (sessionExpiry_eq_ok.mp ht)

theorem MultipartSession.withCanonicalReference_documentOver (v : MultipartSession P) {raw : Object}
    (h : readObjectReference P (.document raw) = .ok v.objectRef) :
    withCanonicalReference P (v.documentOver raw) = v.toDict := by
  have hget : Dict.get? (v.documentOver raw) "objectRef" = some (.obj raw) := by simp [documentOver]
  rw [withCanonicalReference, Dict.modify, hget]
  simp only [canonicalReference_of_read h]
  simp [documentOver, toDict, Dict.set]

theorem MultipartSession.roundTrip (hP : P.RoundTrips) :
    WireRoundTrip (fun v : MultipartSession P => ∃ i r n t f, FourDigitYear t ∧ new i r n t f = .ok v) toDict
      (fromMapping P) (withCanonicalReference P) where
  read_write v := fun ⟨_, _, _, _, _, hy, h⟩ =>
    (fromMapping_eq_ok hP).mpr ⟨_, Dict.Same.refl _, readObjectReference_toDict hP _, expiresAt_of_new hy h⟩
  write_read m v h := by
    obtain ⟨raw, hsame, hread, -⟩ := (fromMapping_eq_ok hP).mp h
    rw [← v.withCanonicalReference_documentOver hread]
    exact (hsame.modify _ _).symm

theorem SignedObjectReference.expiresAt_of_new {r : P.ObjectReference} {ops : List Json} {t : TimeValue}
    {a n k g s f : Json} {v : SignedObjectReference P} (hy : FourDigitYear t) (h : new r ops t a n k g s f = .ok v) :
    IsTimestamp v.expiresAt := by
  obtain ⟨-, -, ht, -⟩ := new_eq_ok.mp h
  exact isTimestamp_of_utcTimestamp hy ht

theorem SignedObjectReference.canonical_documentOver (v : SignedObjectReference P) {raw : Object} {ops : List Str}
    (h : readObjectReference P (.document raw) = .ok v.objectRef) (hops : ops.Perm v.allowedOperations) :
    withSortedOperations (withCanonicalReference P (v.documentOver raw ops)) = v.toDict := by
  have hget : Dict.get? (v.documentOver raw ops) "objectRef" = some (.obj raw) := by simp [documentOver, claimsOver]
  have hset : withCanonicalReference P (v.documentOver raw ops) = v.documentOver (P.referenceToDict v.objectRef) ops := by
    rw [withCanonicalReference, Dict.modify, hget]
    simp only [canonicalReference_of_read h]
    simp [documentOver, claimsOver, Dict.set]
  have hget' : Dict.get? (v.documentOver (P.referenceToDict v.objectRef) ops) "allowedOperations" =
      some (.arr (ops.map .str)) := by simp [documentOver, claimsOver]
  have hsorted : sorted ops = v.allowedOperations := by
    rw [sorted_eq_of_perm hops, sorted_eq_self v.operations_valid.sorted]
  rw [hset, withSortedOperations, Dict.modify, hget']
  simp only [sortTexts_map_str, hsorted]
  simp [documentOver, claimsOver, toDict, Dict.set]

theorem SignedObjectReference.roundTrip (hP : P.RoundTrips) :
    WireRoundTrip (fun v : SignedObjectReference P => ∃ r ops t a n k g s f, FourDigitYear t ∧
      new r ops t a n k g s f = .ok v) toDict (fromMapping P)
      (fun m => withSortedOperations (withCanonicalReference P m)) where
  read_write v := fun ⟨_, _, _, _, _, _, _, _, _, hy, h⟩ => fromMapping_toDict hP (expiresAt_of_new hy h)
  write_read m v h := by
    obtain ⟨raw, ops, hsame, hread, hops, -⟩ := (fromMapping_eq_ok hP).mp h
    rw [← v.canonical_documentOver hread hops]
    exact ((hsame.modify _ _).modify _ _).symm

/-- **Wire values round-trip in both directions.** -/
theorem wireValues_roundTrip (hP : P.RoundTrips) :
    WireRoundTrip (fun v => ∃ t l d b f, PayloadReference.new t l d b f = .ok v) PayloadReference.toDict
      PayloadReference.fromMapping id ∧
    WireRoundTrip (fun v => ∃ s e k, ByteRange.new s e k = .ok v) ByteRange.toDict ByteRange.fromMapping
      withoutNullEnd ∧
    WireRoundTrip (fun v => ∃ d n, ContentIdentity.new d n = .ok v) ContentIdentity.toDict
      ContentIdentity.fromMapping id ∧
    WireRoundTrip (fun v => ∃ m p, ImmutabilityRequest.new m p = .ok v) ImmutabilityRequest.toDict
      ImmutabilityRequest.fromMapping id ∧
    WireRoundTrip (fun v => ∃ t p e, FourDigitYear t ∧ RetentionRequest.new t p e = .ok v) RetentionRequest.toDict
      RetentionRequest.fromMapping id ∧
    WireRoundTrip (fun v => ∃ i r n t f, FourDigitYear t ∧ MultipartSession.new i r n t f = .ok v)
      MultipartSession.toDict (MultipartSession.fromMapping P) (withCanonicalReference P) ∧
    WireRoundTrip (fun v => ∃ r ops t a n k g s f, FourDigitYear t ∧
      SignedObjectReference.new r ops t a n k g s f = .ok v) SignedObjectReference.toDict
      (SignedObjectReference.fromMapping P) (fun m => withSortedOperations (withCanonicalReference P m)) :=
  ⟨PayloadReference.roundTrip, ByteRange.roundTrip, ContentIdentity.roundTrip, ImmutabilityRequest.roundTrip,
    RetentionRequest.roundTrip, MultipartSession.roundTrip hP, SignedObjectReference.roundTrip hP⟩

/-- A signed reference for two operations, in the order that is given. -/
def signedWireDocument (operations : List Str) : Object :=
  [("formatVersion", .str signedReferenceFormatVersion), ("objectRef", .obj (contracts.referenceToDict Contracts.fixture)),
    ("allowedOperations", .arr (operations.map .str)), ("expiresAt", .str "2099-01-01T00:00:00.000000Z"),
    ("audience", .str "fixture-reader"), ("nonce", .str "nonce-1"), ("keyId", .str "key-1"),
    ("algorithm", .str "test-v1"), ("signature", .str "AQID")]

/-- A null end is dropped, and operations that are out of order are sorted. -/
theorem wireValues_contracts :
    (∃ v, ByteRange.new (.int 2) .null .null = .ok v ∧ ByteRange.fromMapping v.toDict = .ok v ∧
      ByteRange.fromMapping [("start", .int 2), ("end", .null)] = .ok v ∧ Dict.Same v.toDict [("start", .int 2)]) ∧
    ∃ v, SignedObjectReference.fromMapping contracts (signedWireDocument ["read_range", "get"]) = .ok v ∧
      Dict.Same v.toDict (signedWireDocument ["get", "read_range"]) := by
  obtain ⟨-, hrange, -, -, -, -, hsigned⟩ := wireValues_roundTrip Contracts.roundTrips
  obtain ⟨v, hv⟩ := exists_ok_of_isOk (show (ByteRange.new (.int 2) .null .null).isOk = true by decide +kernel)
  have hread : ByteRange.fromMapping [("start", .int 2), ("end", .null)] = .ok v := hv
  have hreads : (SignedObjectReference.fromMapping contracts (signedWireDocument ["read_range", "get"])).isOk = true := by
    decide +kernel
  obtain ⟨w, hw⟩ := exists_ok_of_isOk hreads
  exact ⟨⟨v, hv, hrange.read_write v ⟨_, _, _, hv⟩, hread, hrange.write_read _ _ hread⟩,
    w, hw, hsigned.write_read _ _ hw⟩

end ObjectCommon
