import ObjectCommon.Ranges

/-!
# Payload references

* `PayloadReference` : the serialized handle of in-process bytes with its declared integrity inputs;
* `PayloadReference.fromMapping_eq_ok` : the documents of a reference are what it writes, up to the
  order of the fields.
-/

namespace ObjectCommon

open Outcome PyError

def payloadReferenceFormatVersion : Str := "meridian.object.payload-reference.v1"

structure PayloadReference where
  token : Token
  expectedLength : Option Nat
  expectedDigest : Option Digest
  replayable : Bool
  formatVersion : {v : Str // v = payloadReferenceFormatVersion}
  deriving DecidableEq

/-- The JSON value of an optional digest. -/
def wireDigest : Option Digest → Json := Json.nullable fun d => .str d.val

theorem unlessNone_digest {value : Json} {field : String} {r : Option Digest} :
    unlessNone value (digest · field) = .ok r ↔ value = wireDigest r :=
  unlessNone_eq_ok (fun _ _ => digest_eq_ok) (by simp)

/-- `formatVersion != version` raises. -/
def formatVersion (value : Json) (version : Str) : Py {v : Str // v = version} :=
  if value.isStr version then .ok ⟨version, rfl⟩
  else .error (valueError [.text "format_version must be ", .repr version])

theorem formatVersion_eq_ok {value : Json} {version : Str} {v : {v : Str // v = version}} :
    formatVersion value version = .ok v ↔ value = .str v.val := by
  obtain ⟨_, rfl⟩ := v
  unfold formatVersion
  split
  · next h => simpa using h
  · next h => simpa using h

theorem formatVersion_raises (value : Json) (version : Str) :
    RaisesValueErrors (formatVersion value version) := by
  unfold formatVersion
  split
  · exact RaisesOnly.ok _
  · exact RaisesOnly.error rfl

namespace PayloadReference

/-- `PayloadReference(token, expected_length, expected_digest, replayable, format_version)` -/
def new (token expectedLength expectedDigest replayable : Json)
    (formatVersion : Json := .str payloadReferenceFormatVersion) : Py PayloadReference := do
  let token ← ObjectCommon.token token "payload token"
  let expectedLength ← unlessNone expectedLength (nonNegativeInt · "expected payload length")
  let expectedDigest ← unlessNone expectedDigest (digest · "expected payload digest")
  let replayable ← asBool replayable (typeError "payload replayable must be boolean")
  let formatVersion ← ObjectCommon.formatVersion formatVersion payloadReferenceFormatVersion
  return ⟨token, expectedLength, expectedDigest, replayable, formatVersion⟩

def toDict (r : PayloadReference) : Object :=
  [("formatVersion", .str r.formatVersion.val), ("token", .str r.token.val),
    ("expectedLength", ByteRange.wireNat r.expectedLength),
    ("expectedDigest", wireDigest r.expectedDigest), ("replayable", .bool r.replayable)]

def fromMapping (value : Object) : Py PayloadReference := do
  exactFields value ["formatVersion", "token", "expectedLength", "expectedDigest", "replayable"]
  let token ← getItem value "token"
  let expectedLength ← getItem value "expectedLength"
  let expectedDigest ← getItem value "expectedDigest"
  let replayable ← getItem value "replayable"
  let formatVersion ← getItem value "formatVersion"
  new token expectedLength expectedDigest replayable formatVersion

theorem new_eq_ok {t l d b v : Json} {r : PayloadReference} :
    new t l d b v = .ok r ↔
      t = .str r.token.val ∧ l = ByteRange.wireNat r.expectedLength ∧ d = wireDigest r.expectedDigest ∧
        b = .bool r.replayable ∧ v = .str r.formatVersion.val := by
  obtain ⟨t', l', d', b', v'⟩ := r
  simp only [new, bind_eq_ok, token_eq_ok, ByteRange.unlessNone_nonNegativeInt, unlessNone_digest,
    asBool_eq_ok, formatVersion_eq_ok, pure_eq_ok]
  constructor
  · rintro ⟨_, ht, _, hl, _, hd, _, hb, _, hv, h⟩
    cases h
    exact ⟨ht, hl, hd, hb, hv⟩
  · rintro ⟨ht, hl, hd, hb, hv⟩
    exact ⟨t', ht, l', hl, d', hd, b', hb, v', hv, rfl⟩

theorem new_raises (t l d b v : Json) : RaisesValueErrors (new t l d b v) :=
  (token_raises t _).bind fun _ _ =>
    (unlessNone_raises (nonNegativeInt_raises l _)).bind fun _ _ =>
    (unlessNone_raises (digest_raises d _)).bind fun _ _ =>
    (asBool_raises b _).bind fun _ _ =>
    (formatVersion_raises v _).bind fun _ _ => RaisesOnly.pure _

/-- The documents a reference is read from are what it writes. -/
theorem fromMapping_eq_ok {value : Object} {r : PayloadReference} :
    fromMapping value = .ok r ↔ Dict.Same value r.toDict := by
  rw [← exactFields_and_get?_iff (u := ()) ["formatVersion", "token", "expectedLength", "expectedDigest", "replayable"] rfl]
  simp only [fromMapping, bind_eq_ok, exists_unit, getItem_eq_ok, new_eq_ok]
  constructor
  · rintro ⟨hf, _, ht, _, hl, _, hd, _, hb, _, hv, rfl, rfl, rfl, rfl, rfl⟩
    exact ⟨hf, by simp [toDict, ht, hl, hd, hb, hv]⟩
  · rintro ⟨hf, h⟩
    simp [toDict] at h
    obtain ⟨hv, ht, hl, hd, hb⟩ := h
    exact ⟨hf, _, ht, _, hl, _, hd, _, hb, _, hv, rfl, rfl, rfl, rfl, rfl⟩

theorem fromMapping_toDict (r : PayloadReference) : fromMapping r.toDict = .ok r :=
  fromMapping_eq_ok.mpr (Dict.Same.refl _)

theorem fromMapping_raises (value : Object) : RaisesValueErrors (fromMapping value) :=
  (exactFields_raises _ _ _).bind fun _ hf =>
    (getItem_raises hf (by simp)).bind fun _ _ =>
    (getItem_raises hf (by simp)).bind fun _ _ =>
    (getItem_raises hf (by simp)).bind fun _ _ =>
    (getItem_raises hf (by simp)).bind fun _ _ =>
    (getItem_raises hf (by simp)).bind fun _ _ => new_raises _ _ _ _ _

theorem toDict_wellFormed (r : PayloadReference) : Json.WellFormed (.obj r.toDict) := by
  have hl : Json.WellFormed (ByteRange.wireNat r.expectedLength) :=
    Json.wellFormed_nullable (fun _ => .int _) _
  have hd : Json.WellFormed (wireDigest r.expectedDigest) := Json.wellFormed_nullable (fun _ => .str _) _
  exact .obj (by simp [toDict]) (by simp [toDict, hl, hd, Json.WellFormed.bool, Json.WellFormed.str])

end PayloadReference

end ObjectCommon
