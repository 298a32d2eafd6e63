import ObjectCommon.Metadata
import ObjectCommon.Python.Equality

/-!
# Object metadata documents

Semantics' `ObjectMetadata` is a parameter, as its other records are; this package reads its documents.

* `ClientPackages` : what a consumer of the surface calls in Core and Semantics besides `Packages`;
* `parseObjectMetadata` : `parse_object_metadata`;
* `parseObjectMetadata_raises` : it raises only `TypeError` and `ValueError`;
* `StorePackages`, `StoresMetadata`, `ReadsMetadata` : what an Object store relies on.
-/

namespace ObjectCommon

open Outcome PyError

/-- The functions of `Packages`, the checks of Core's `Expression` and Semantics' `ObjectMetadata`. -/
structure ClientPackages extends Packages where
  checkExpression : Expression → Py Unit
  ObjectMetadata : Type
  newObjectMetadata : (objectRef : ObjectReference) → (digest byteLength mediaType createdAt : Json) →
    (creationContext userMetadata : Object) → (mutability : Json) → (provenance : Object) → (formatVersion : Json) →
    Py ObjectMetadata
  metadataObjectRef : ObjectMetadata → ObjectReference
  metadataDigest : ObjectMetadata → Str
  metadataByteLength : ObjectMetadata → Nat
  metadataToDict : ObjectMetadata → Object

/-- The packages raise exceptions of `E` only, the checks of their records among them. -/
structure ClientPackages.RaisesDocumented (T : ClientPackages) (E : PyError → Prop) : Prop where
  packages : T.toPackages.RaisesDocumented E
  checkRequirement : ∀ r, RaisesOnly E (T.checkRequirement r)
  checkOperation : ∀ o, RaisesOnly E (T.checkOperation o)
  checkExpression : ∀ e, RaisesOnly E (T.checkExpression e)
  newObjectMetadata : ∀ reference d n m c context metadata mutability provenance version,
    RaisesOnly E (T.newObjectMetadata reference d n m c context metadata mutability provenance version)

theorem ClientPackages.RaisesDocumented.mono {T : ClientPackages} {E E' : PyError → Prop} (h : T.RaisesDocumented E)
    (hE : ∀ e, E e → E' e) : T.RaisesDocumented E' where
  packages := h.packages.mono hE
  checkRequirement r := (h.checkRequirement r).mono hE
  checkOperation o := (h.checkOperation o).mono hE
  checkExpression e := (h.checkExpression e).mono hE
  newObjectMetadata r d n m c context metadata mutability provenance version :=
    (h.newObjectMetadata r d n m c context metadata mutability provenance version).mono hE

/-- Client packages whose metadata documents have distinct keys. -/
structure StorePackages extends ClientPackages where
  metadataToDict_wellFormed : ∀ m, Json.WellFormed (.obj (metadataToDict m))

variable (T : ClientPackages)

def metadataFields : List String :=
  ["formatVersion", "objectRef", "digest", "byteLength", "mediaType", "createdAt", "creationContext", "userMetadata",
    "mutability", "provenance"]

/-- The string that a value is. -/
def Json.str? : Json → Option Str
  | .str s => some s
  | _ => none

/-- A value that a set cannot hold. -/
def Json.isUnhashable : Json → Bool
  | .arr _ => true
  | .obj _ => true
  | _ => false

/-- What `exact_fields` raises on a list in the place of a mapping, or the list's own `TypeError` when its items
are the field names. The unknown items are sorted for the message, and those of two kinds have no order. -/
def sequenceFieldsError (items : List Json) : PyError :=
  let strings := items.filterMap Json.str?
  let missing := (metadataFields.map str).filter (· ∉ strings)
  let unknown := strings.filter (· ∉ metadataFields.map str)
  let kinds : List Bool := [unknown ≠ [], items.any Json.isNull, items.any fun v => v.number?.isSome]
  if items.any Json.isUnhashable then typeError [.foreign]
  else if missing = [] ∧ true ∉ kinds then typeError [.foreign]
  else if 2 ≤ kinds.count true then typeError [.foreign]
  else valueError [.text "missing fields ", .reprs (sorted missing), .text "; unknown fields ", .foreign]

/-- `parse_object_metadata` of a mapping -/
def parseMetadataDocument (value : Object) : Py T.ObjectMetadata := do
  exactFields value metadataFields
  let rawRef ← getItem value "objectRef"
  let rawRef ← asMapping rawRef (typeError "Object objectRef must be an object")
  let creationContext ← getItem value "creationContext"
  let creationContext ← asMapping creationContext (typeError "Object creationContext must be an object")
  let userMetadata ← getItem value "userMetadata"
  let userMetadata ← asMapping userMetadata (typeError "Object userMetadata must be an object")
  let provenance ← getItem value "provenance"
  let provenance ← asMapping provenance (typeError "Object provenance must be an object")
  let objectRef ← parseObjectReference T.toPackages (.document rawRef)
  let digest ← getItem value "digest"
  let byteLength ← getItem value "byteLength"
  let mediaType ← getItem value "mediaType"
  let createdAt ← getItem value "createdAt"
  let mutability ← getItem value "mutability"
  let formatVersion ← getItem value "formatVersion"
  T.newObjectMetadata objectRef digest byteLength mediaType createdAt creationContext userMetadata mutability
    provenance formatVersion

/-- `parse_object_metadata` of a JSON value -/
def parseObjectMetadata (value : Json) : Py T.ObjectMetadata :=
  match value with
  | .obj value => parseMetadataDocument T value
  | .arr items => .error (sequenceFieldsError items)
  | .str s => .error (valueError [.text "missing fields ", .reprs (sorted (metadataFields.map str)),
      .text "; unknown fields ", .reprs (sorted (s.map fun c => [c]).dedup)])
  | _ => .error (typeError [.foreign])

variable {T}

/-- The fields that are mappings are read before the reference, the others after it. -/
theorem parseMetadataDocument_eq_ok {value : Object} {m : T.ObjectMetadata} :
    parseMetadataDocument T value = .ok m ↔
      exactFields value metadataFields = .ok () ∧
      ∃ rawRef creationContext userMetadata provenance objectRef digest byteLength mediaType createdAt mutability
          formatVersion,
        Dict.get? value "objectRef" = some (.obj rawRef) ∧
        Dict.get? value "creationContext" = some (.obj creationContext) ∧
        Dict.get? value "userMetadata" = some (.obj userMetadata) ∧
        Dict.get? value "provenance" = some (.obj provenance) ∧
        parseObjectReference T.toPackages (.document rawRef) = .ok objectRef ∧
        Dict.get? value "digest" = some digest ∧ Dict.get? value "byteLength" = some byteLength ∧
        Dict.get? value "mediaType" = some mediaType ∧ Dict.get? value "createdAt" = some createdAt ∧
        Dict.get? value "mutability" = some mutability ∧ Dict.get? value "formatVersion" = some formatVersion ∧
        T.newObjectMetadata objectRef digest byteLength mediaType createdAt creationContext userMetadata mutability
          provenance formatVersion = .ok m := by
  simp only [parseMetadataDocument, bind_eq_ok, exists_unit, getItem_eq_ok, asMapping_eq_ok]
  constructor
  · rintro ⟨hf, _, hr, _, rfl, _, hc, _, rfl, _, hu, _, rfl, _, hp, _, rfl, _, hreference, _, hd, _, hn, _, hm, _, ht, _,
      hmut, _, hv, hnew⟩
    exact ⟨hf, _, _, _, _, _, _, _, _, _, _, _, hr, hc, hu, hp, hreference, hd, hn, hm, ht, hmut, hv, hnew⟩
  · rintro ⟨hf, _, _, _, _, _, _, _, _, _, _, _, hr, hc, hu, hp, hreference, hd, hn, hm, ht, hmut, hv, hnew⟩
    exact ⟨hf, _, hr, _, rfl, _, hc, _, rfl, _, hu, _, rfl, _, hp, _, rfl, _, hreference, _, hd, _, hn, _, hm, _, ht, _,
      hmut, _, hv, hnew⟩

theorem sequenceFieldsError_isTypeOrValueError (items : List Json) :
    IsTypeOrValueError (sequenceFieldsError items) := by
  unfold sequenceFieldsError
  dsimp only
  split
  · rfl
  split
  · rfl
  split
  · rfl
  · rfl

section Raises

variable {E : PyError → Prop} (hT : T.RaisesDocumented E) (hE : ∀ e, IsTypeOrValueError e → E e)

include hT hE

theorem parseMetadataDocument_raises (value : Object) : RaisesOnly E (parseMetadataDocument T value) :=
  ((exactFields_raises _ _ _).mono hE).bind fun _ hf =>
    (getItem_raises hf (by simp [metadataFields])).bind fun _ _ =>
    ((asMapping_raises _ _).mono hE).bind fun _ _ =>
    (getItem_raises hf (by simp [metadataFields])).bind fun _ _ =>
    ((asMapping_raises _ _).mono hE).bind fun _ _ =>
    (getItem_raises hf (by simp [metadataFields])).bind fun _ _ =>
    ((asMapping_raises _ _).mono hE).bind fun _ _ =>
    (getItem_raises hf (by simp [metadataFields])).bind fun _ _ =>
    ((asMapping_raises _ _).mono hE).bind fun _ _ =>
    (parseObjectReference_raises hT.packages.toRaisesOfReferences hE _ _).bind fun _ _ =>
    (getItem_raises hf (by simp [metadataFields])).bind fun _ _ =>
    (getItem_raises hf (by simp [metadataFields])).bind fun _ _ =>
    (getItem_raises hf (by simp [metadataFields])).bind fun _ _ =>
    (getItem_raises hf (by simp [metadataFields])).bind fun _ _ =>
    (getItem_raises hf (by simp [metadataFields])).bind fun _ _ =>
    (getItem_raises hf (by simp [metadataFields])).bind fun _ _ => hT.newObjectMetadata _ _ _ _ _ _ _ _ _ _

theorem parseObjectMetadata_raises (value : Json) : RaisesOnly E (parseObjectMetadata T value) := by
  cases value with
  | obj value => exact parseMetadataDocument_raises hT hE value
  | arr items => exact RaisesOnly.error (hE _ (sequenceFieldsError_isTypeOrValueError items))
  | _ => exact RaisesOnly.error (hE _ rfl)

end Raises

/-! ## What a store relies on -/

/-- Metadata has the reference, the digest and the length it was built from. -/
structure StorePackages.StoresMetadata (T : StorePackages) : Prop where
  newObjectMetadata : ∀ r digest byteLength mediaType createdAt context metadata mutability provenance version m,
    T.newObjectMetadata r digest byteLength mediaType createdAt context metadata mutability provenance version = .ok m →
      T.metadataObjectRef m = r ∧ digest = .str (T.metadataDigest m) ∧ byteLength = .int (T.metadataByteLength m)

/-- Metadata is read from the document it writes. -/
structure StorePackages.ReadsMetadata (T : StorePackages) : Prop where
  parseObjectMetadata : ∀ m, ObjectCommon.parseObjectMetadata T.toClientPackages (.obj (T.metadataToDict m)) = .ok m

end ObjectCommon
