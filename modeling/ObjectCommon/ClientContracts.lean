import ObjectCommon.Contracts
import ObjectCommon.ObjectMetadata
import ObjectCommon.Payloads.Reference

/-!
# Object metadata that meets its contract

Semantics' `ObjectMetadata` as the published schema of a result describes its document: an instance of
`ClientPackages`.

* `Contracts.Metadata` : the record; its Object reference has a digest;
* `clientContracts`, `Contracts.client_raisesDocumented` : the packages, and the errors they document;
* `Contracts.parseObjectMetadata_toDict` : metadata is read from the document it writes;
* `storeContracts` : the packages of a store.
-/

namespace ObjectCommon

open Outcome PyError

namespace Contracts

/-! ## The record -/

def metadataFormatVersion : Str := "meridian.object.v1"

/-- An object whose values are strings. -/
abbrev StringMapping := {entries : Object // ∀ e ∈ entries, e.2.str?.isSome}

/-- Metadata of an exact version of an Object. -/
structure Metadata where
  objectRef : {r : Reference // r.digest.isSome}
  digest : Digest
  byteLength : Nat
  mediaType : Str
  createdAt : Str
  creationContext : Object
  userMetadata : StringMapping
  mutability : Choice mutabilities
  provenance : Object

def exactVersion (r : Reference) : Py {r : Reference // r.digest.isSome} :=
  if h : r.digest.isSome then .ok ⟨r, h⟩ else .error (valueError "Object metadata requires an exact reference")

def stringField (value : Json) (field : String) : Py Str :=
  match value with
  | .str s => .ok s
  | _ => .error (valueError (field ++ " must be a string" : String))

def stringValues (entries : Object) : Py StringMapping :=
  if h : ∀ e ∈ entries, e.2.str?.isSome then .ok ⟨entries, h⟩
  else .error (valueError "user metadata values must be strings")

def newObjectMetadata (objectRef : Reference) (digest byteLength mediaType createdAt : Json)
    (creationContext userMetadata : Object) (mutability : Json) (provenance : Object) (formatVersion : Json) :
    Py Metadata := do
  let objectRef ← exactVersion objectRef
  let digest ← ObjectCommon.digest digest
  let byteLength ← nonNegativeInt byteLength "byte length"
  let mediaType ← stringField mediaType "media type"
  let createdAt ← stringField createdAt "creation time"
  let userMetadata ← stringValues userMetadata
  let mutability ← choice mutability mutabilities
  let _ ← ObjectCommon.formatVersion formatVersion metadataFormatVersion
  return ⟨objectRef, digest, byteLength, mediaType, createdAt, creationContext, userMetadata, mutability, provenance⟩

/-- The document of metadata. -/
def metadataToDict (m : Metadata) : Object :=
  [("formatVersion", .str metadataFormatVersion), ("objectRef", .obj (referenceToDict m.objectRef)),
    ("digest", .str m.digest.val), ("byteLength", .int m.byteLength), ("mediaType", .str m.mediaType),
    ("createdAt", .str m.createdAt), ("creationContext", .obj m.creationContext),
    ("userMetadata", .obj m.userMetadata.val), ("mutability", .str m.mutability.val), ("provenance", .obj m.provenance)]

/-! ## What its constructor raises and accepts -/

theorem exactVersion_raises (r : Reference) : RaisesValueErrors (exactVersion r) := by
  unfold exactVersion
  split
  · exact RaisesOnly.ok _
  · exact RaisesOnly.error rfl

theorem exactVersion_val (r : {r : Reference // r.digest.isSome}) : exactVersion r.val = .ok r := dif_pos r.2

theorem stringField_raises (value : Json) (field : String) : RaisesValueErrors (stringField value field) := by
  unfold stringField
  split
  · exact RaisesOnly.ok _
  · exact RaisesOnly.error rfl

theorem stringValues_raises (entries : Object) : RaisesValueErrors (stringValues entries) := by
  unfold stringValues
  split
  · exact RaisesOnly.ok _
  · exact RaisesOnly.error rfl

theorem stringValues_val (m : StringMapping) : stringValues m.val = .ok m := dif_pos m.2

theorem newObjectMetadata_raises (r : Reference) (d n m c : Json) (context metadata : Object) (mutability : Json)
    (provenance : Object) (version : Json) :
    RaisesValueErrors (newObjectMetadata r d n m c context metadata mutability provenance version) :=
  (exactVersion_raises _).bind fun _ _ =>
    (digest_raises _ _).bind fun _ _ =>
    (nonNegativeInt_raises _ _).bind fun _ _ =>
    (stringField_raises _ _).bind fun _ _ =>
    (stringField_raises _ _).bind fun _ _ =>
    (stringValues_raises _).bind fun _ _ =>
    (choice_raises _ _).bind fun _ _ =>
    (formatVersion_raises _ _).bind fun _ _ => RaisesOnly.pure _

/-- Metadata is rebuilt from its own fields. -/
theorem newObjectMetadata_fields (m : Metadata) :
    newObjectMetadata m.objectRef (.str m.digest.val) (.int m.byteLength) (.str m.mediaType) (.str m.createdAt)
      m.creationContext m.userMetadata.val (.str m.mutability.val) m.provenance (.str metadataFormatVersion) = .ok m := by
  have hdigest : ObjectCommon.digest (.str m.digest.val) = .ok m.digest := digest_eq_ok.mpr rfl
  have hlength : nonNegativeInt (.int m.byteLength) "byte length" = .ok m.byteLength := nonNegativeInt_eq_ok.mpr rfl
  have hmutability : choice (.str m.mutability.val) mutabilities = .ok m.mutability := choice_eq_ok.mpr rfl
  have hversion : ObjectCommon.formatVersion (.str metadataFormatVersion) metadataFormatVersion =
      .ok ⟨metadataFormatVersion, rfl⟩ := formatVersion_eq_ok.mpr rfl
  unfold newObjectMetadata
  rw [exactVersion_val, hdigest, hlength, stringValues_val, hmutability, hversion]
  rfl

end Contracts

/-! ## The packages -/

open Contracts in
/-- Core and Semantics as the published schemas describe their documents, metadata included. -/
def clientContracts : ClientPackages where
  toPackages := contracts
  checkExpression _ := .ok ()
  ObjectMetadata := Metadata
  newObjectMetadata := newObjectMetadata
  metadataObjectRef m := m.objectRef.val
  metadataDigest m := m.digest.val
  metadataByteLength := Metadata.byteLength
  metadataToDict := metadataToDict

namespace Contracts

theorem client_raisesDocumented : clientContracts.RaisesDocumented IsTypeOrValueError where
  packages := raisesDocumented
  checkRequirement _ := RaisesOnly.ok _
  checkOperation _ := RaisesOnly.ok _
  checkExpression _ := RaisesOnly.ok _
  newObjectMetadata := newObjectMetadata_raises

/-- **Metadata is read from the document it writes.** -/
theorem parseObjectMetadata_toDict (m : Metadata) :
    parseObjectMetadata clientContracts (.obj (metadataToDict m)) = .ok m := by
  have hfields : exactFields (metadataToDict m) metadataFields = .ok () := by
    rw [exactFields_eq_ok]
    simp [metadataToDict, metadataFields]
  have hreference : parseObjectReference contracts (.document (referenceToDict m.objectRef)) = .ok m.objectRef.val :=
    parseObjectReference_eq_ok.mpr ⟨readObjectReference_toDict roundTrips m.objectRef.val, by simp⟩
  refine parseMetadataDocument_eq_ok.mpr ⟨hfields, _, _, _, _, _, _, _, _, _, _, _, ?_, ?_, ?_, ?_, hreference, ?_, ?_, ?_,
    ?_, ?_, ?_, newObjectMetadata_fields m⟩
  all_goals simp [metadataToDict]

/-- Metadata has the reference, the digest and the length it was built from. -/
theorem newObjectMetadata_stores {r : Reference} {d n mt c : Json} {context metadata : Object} {mutability : Json}
    {provenance : Object} {version : Json} {m : Metadata}
    (h : newObjectMetadata r d n mt c context metadata mutability provenance version = .ok m) :
    m.objectRef.val = r ∧ d = .str m.digest.val ∧ n = .int m.byteLength := by
  simp only [newObjectMetadata, bind_eq_ok, digest_eq_ok, nonNegativeInt_eq_ok, pure_eq_ok] at h
  obtain ⟨exact, hexact, digest, hd, length, hn, _, -, _, -, _, -, _, -, _, -, rfl⟩ := h
  refine ⟨?_, hd, hn⟩
  unfold exactVersion at hexact
  split at hexact
  · cases hexact
    rfl
  · cases hexact

/-! ## A store's packages -/

/-- Metadata whose document has distinct keys. -/
abbrev StoredMetadata := {m : Metadata // Json.WellFormed (.obj (metadataToDict m))}

def storedMetadata (m : Metadata) : Py StoredMetadata :=
  if h : Json.WellFormed (.obj (metadataToDict m)) then .ok ⟨m, h⟩
  else .error (valueError "Object metadata must be a JSON document")

theorem storedMetadata_eq_ok {m : Metadata} {x : StoredMetadata} : storedMetadata m = .ok x ↔ x.val = m := by
  unfold storedMetadata
  split
  · rw [Except.ok.injEq, Subtype.ext_iff, eq_comm]
  · next h =>
    simp only [reduceCtorEq, false_iff]
    rintro rfl
    exact h x.2

end Contracts

open Contracts in
/-- `clientContracts`, with metadata whose document has distinct keys. -/
def storeContracts : StorePackages where
  toClientPackages :=
    { clientContracts with
      ObjectMetadata := StoredMetadata
      newObjectMetadata := fun r d n mt c context metadata mutability provenance version => do
        let m ← newObjectMetadata r d n mt c context metadata mutability provenance version
        storedMetadata m
      metadataObjectRef := fun m => m.val.objectRef.val
      metadataDigest := fun m => m.val.digest.val
      metadataByteLength := fun m => m.val.byteLength
      metadataToDict := fun m => metadataToDict m.val }
  metadataToDict_wellFormed m := m.2

namespace Contracts

theorem storesMetadata : storeContracts.StoresMetadata where
  newObjectMetadata r d n mt c context metadata mutability provenance version m h := by
    obtain ⟨m', hm', hm⟩ := bind_eq_ok.mp h
    obtain rfl := storedMetadata_eq_ok.mp hm
    exact newObjectMetadata_stores hm'

theorem readsMetadata : storeContracts.ReadsMetadata where
  parseObjectMetadata m := by
    obtain ⟨hfields, rawRef, creationContext, userMetadata, provenance, objectRef, digest, byteLength, mediaType, createdAt,
      mutability, formatVersion, hr, hc, hu, hp, href, hd, hn, hm, ht, hmut, hv, hnew⟩ :=
      parseMetadataDocument_eq_ok.mp (parseObjectMetadata_toDict m.val)
    refine parseMetadataDocument_eq_ok.mpr ⟨hfields, _, _, _, _, _, _, _, _, _, _, _, hr, hc, hu, hp, href, hd, hn, hm, ht,
      hmut, hv, bind_eq_ok.mpr ⟨m.val, hnew, storedMetadata_eq_ok.mpr rfl⟩⟩

end Contracts

end ObjectCommon
