import ObjectCommon.Packages
import ObjectCommon.Validation.Mappings

/-!
# Object references and content identity

* `parseObjectReference` : an Object reference, rebuilt, or parsed from its document;
* `parseObjectReference_toDict` : the document that a reference writes parses to it;
* `ContentIdentity`, `ContentIdentity.fromMapping_eq_ok` : a digest and a byte length, and their documents.
-/

namespace ObjectCommon

open Outcome PyError

variable (P : Packages)

/-- What `parse_object_reference` is given. -/
inductive ReferenceValue where
  | reference (r : P.ObjectReference)
  | document (value : Object)

/-- The reference inside `parse_object_reference`, before the check of its digest. -/
def readObjectReference : ReferenceValue P → Py P.ObjectReference
  | .reference r =>
    P.newObjectReference (P.resourceRef r) (.str (P.objectId r)) (Json.nullable .str (P.digest r))
  | .document value => do
    exactFields value ["resourceRef", "objectId"] ["digest"]
    let rawResource ← getItem value "resourceRef"
    let rawResource ← asMapping rawResource (typeError "Object resourceRef must be an object")
    let resource ← P.parseResourceReference rawResource
    let objectId ← getItem value "objectId"
    P.newObjectReference resource objectId ((Dict.get? value "digest").getD .null)

def parseObjectReference (value : ReferenceValue P) (requireDigest : Bool := false) :
    Py P.ObjectReference := do
  let result ← readObjectReference P value
  raiseIf (requireDigest ∧ P.digest result = none)
    (valueError "an exact Object reference requires a digest")
  return result

variable {P}

theorem parseObjectReference_eq_ok {value : ReferenceValue P} {requireDigest : Bool}
    {r : P.ObjectReference} : parseObjectReference P value requireDigest = .ok r ↔
      readObjectReference P value = .ok r ∧ (requireDigest → P.digest r ≠ none) := by
  simp only [parseObjectReference, bind_eq_ok, raiseIf_eq_ok, pure_eq_ok, not_and]
  constructor
  · rintro ⟨_, h, -, hd, rfl⟩
    exact ⟨h, hd⟩
  · rintro ⟨h, hd⟩
    exact ⟨r, h, (), hd, rfl⟩

theorem readObjectReference_document_eq_ok {value : Object} {r : P.ObjectReference} :
    readObjectReference P (.document value) = .ok r ↔
      exactFields value ["resourceRef", "objectId"] ["digest"] = .ok () ∧
      ∃ raw resource objectId, Dict.get? value "resourceRef" = some (.obj raw) ∧
        P.parseResourceReference raw = .ok resource ∧ Dict.get? value "objectId" = some objectId ∧
        P.newObjectReference resource objectId ((Dict.get? value "digest").getD .null) = .ok r := by
  simp only [readObjectReference, bind_eq_ok, getItem_eq_ok, asMapping_eq_ok]
  constructor
  · rintro ⟨_, hf, _, hr, raw, rfl, resource, hp, objectId, ho, h⟩
    exact ⟨hf, raw, resource, objectId, hr, hp, ho, h⟩
  · rintro ⟨hf, raw, resource, objectId, hr, hp, ho, h⟩
    exact ⟨(), hf, _, hr, raw, rfl, resource, hp, objectId, ho, h⟩

/-- A document with another field than those of an Object reference is not one. -/
theorem keys_of_readObjectReference {value : Object} {r : P.ObjectReference}
    (h : readObjectReference P (.document value) = .ok r) {k : Str} (hk : k ∈ Dict.keys value) :
    k = str "resourceRef" ∨ k = str "objectId" ∨ k = str "digest" := by
  have := (exactFields_eq_ok.mp (readObjectReference_document_eq_ok.mp h).1).2 k hk
  simpa [or_assoc] using this

section Raises

variable {E : PyError → Prop} (hP : P.RaisesOfReferences E) (hE : ∀ e, IsTypeOrValueError e → E e)

include hP hE

theorem readObjectReference_raises (value : ReferenceValue P) : RaisesOnly E (readObjectReference P value) := by
  cases value with
  | reference r => exact hP.newObjectReference _ _ _
  | document value =>
    exact ((exactFields_raises _ _ _).mono hE).bind fun _ hf =>
      (getItem_raises hf (by simp)).bind fun _ _ =>
      ((asMapping_raises _ _).mono hE).bind fun _ _ =>
      (hP.parseResourceReference _).bind fun _ _ =>
      (getItem_raises hf (by simp)).bind fun _ _ => hP.newObjectReference _ _ _

theorem parseObjectReference_raises (value : ReferenceValue P) (requireDigest : Bool) :
    RaisesOnly E (parseObjectReference P value requireDigest) :=
  (readObjectReference_raises hP hE value).bind fun _ _ =>
    ((raiseIf_raises _ _).mono hE).bind fun _ _ => RaisesOnly.pure _

end Raises

/-- A reference is read from its document. -/
theorem readObjectReference_of_document (hP : P.RoundTrips) {r : P.ObjectReference} {d : Object}
    (h : P.ReferenceDocument r d) : readObjectReference P (.document d) = .ok r := by
  obtain ⟨raw, hraw, hparse⟩ := h.resourceRef
  refine readObjectReference_document_eq_ok.mpr
    ⟨exactFields_eq_ok.mpr ⟨?_, ?_⟩, raw, _, _, hraw, hparse, h.objectId, ?_⟩
  · simp only [List.mem_cons, List.not_mem_nil, or_false, forall_eq_or_imp, forall_eq]
    exact ⟨Dict.mem_keys_of_get? hraw, Dict.mem_keys_of_get? h.objectId⟩
  · intro k hk
    simpa [or_assoc] using h.keys k hk
  · rw [h.digest]
    exact hP.newObjectReference r

/-- The document that a reference writes parses to it. -/
theorem readObjectReference_toDict (hP : P.RoundTrips) (r : P.ObjectReference) :
    readObjectReference P (.document (P.referenceToDict r)) = .ok r :=
  readObjectReference_of_document hP (hP.referenceToDict r)

theorem readObjectReference_reference (hP : P.RoundTrips) (r : P.ObjectReference) :
    readObjectReference P (.reference r) = .ok r :=
  hP.newObjectReference r

/-- A reference writes no field of a signed reference. -/
theorem get?_referenceToDict_formatVersion (hP : P.RoundTrips) (r : P.ObjectReference) :
    Dict.get? (P.referenceToDict r) (str "formatVersion") = none := by
  rw [Dict.get?_eq_none_iff]
  intro h
  simpa using (hP.referenceToDict r).keys _ h

/-! ## Content identity -/

structure ContentIdentity where
  digest : Digest
  byteLength : Nat
  deriving DecidableEq

/-- `ContentIdentity(digest, byte_length)` -/
def ContentIdentity.new (digest byteLength : Json) : Py ContentIdentity := do
  let digest ← ObjectCommon.digest digest
  let byteLength ← nonNegativeInt byteLength "byte length"
  return ⟨digest, byteLength⟩

theorem ContentIdentity.new_eq_ok {d n : Json} {i : ContentIdentity} :
    new d n = .ok i ↔ d = .str i.digest.val ∧ n = .int i.byteLength := by
  obtain ⟨d', n'⟩ := i
  simp only [new, bind_eq_ok, digest_eq_ok, nonNegativeInt_eq_ok, pure_eq_ok]
  constructor
  · rintro ⟨_, hd, _, hn, h⟩
    cases h
    exact ⟨hd, hn⟩
  · rintro ⟨hd, hn⟩
    exact ⟨d', hd, n', hn, rfl⟩

namespace ContentIdentity

def toDict (i : ContentIdentity) : Object := [("digest", .str i.digest.val), ("byteLength", .int i.byteLength)]

def fromMapping (value : Object) : Py ContentIdentity := do
  exactFields value ["digest", "byteLength"]
  let digest ← getItem value "digest"
  let byteLength ← getItem value "byteLength"
  new digest byteLength

/-- The documents an identity is read from are what it writes. -/
theorem fromMapping_eq_ok {value : Object} {i : ContentIdentity} :
    fromMapping value = .ok i ↔ Dict.Same value i.toDict := by
  rw [← exactFields_and_get?_iff (u := ()) ["digest", "byteLength"] rfl]
  simp only [fromMapping, bind_eq_ok, exists_unit, getItem_eq_ok, new_eq_ok]
  constructor
  · rintro ⟨hf, _, hd, _, hn, rfl, rfl⟩
    exact ⟨hf, by simp [toDict, hd, hn]⟩
  · rintro ⟨hf, h⟩
    simp [toDict] at h
    exact ⟨hf, _, h.1, _, h.2, rfl, rfl⟩

end ContentIdentity

end ObjectCommon
