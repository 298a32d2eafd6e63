import ObjectCommon.Catalog.Canonical

/-!
# The consumer surface

`ObjectCatalogSurface` builds Expressions from keyword arguments. A Resource, a reference or an intent is
given here as `_wire` leaves it, as JSON.

* `Given` : an argument that is a record, or a mapping it is read from;
* `PutArguments` : the keyword arguments of `put`, with their defaults;
* `ObjectCatalogSurface.put`, `stat`, `get`, `readRange`, `list`, `delete`, `publishSchema`, `createResource` : the
  Expressions; a payload or a range given as a mapping is read first, and may be rejected.
-/

namespace ObjectCommon

open Outcome

namespace ObjectCatalogSurface

/-- A Resource or a reference: a JSON value that is one. -/
abbrev Wire := {v : Json // v.WellFormed}

/-- A JSON mapping. -/
abbrev Document := {d : Object // Json.WellFormed (.obj d)}

/-- An argument that is a record, or a mapping in its place. -/
inductive Given (α : Type) where
  | record (a : α)
  | mapping (d : Document)

namespace Given

variable {α : Type}

/-- `a if isinstance(a, T) else T.from_mapping(a)` -/
def read (fromMapping : Object → Py α) : Given α → Py α
  | record a => .ok a
  | mapping d => fromMapping d.val

/-- `_wire` -/
def wire (toDict : α → Document) : Given α → Document
  | record a => toDict a
  | mapping d => d

end Given

end ObjectCatalogSurface

open ObjectCatalogSurface in
/-- The keyword arguments of `put`. -/
structure PutArguments where
  resource : Json
  objectId : Str
  payload : Given PayloadReference
  mediaType : Str
  expectedDigest : Option Str := none
  expectedLength : Option Int := none
  userMetadata : Dict Str Str := []
  creationContext : Object := []
  provenance : Object := []
  immutability : Json := .null
  retention : Json := .null
  createOnly : Bool := false
  resource_wellFormed : resource.WellFormed
  userMetadata_nodup : (Dict.keys userMetadata).Nodup := by exact List.nodup_nil
  creationContext_wellFormed : Json.WellFormed (.obj creationContext) := by exact .obj List.nodup_nil (by simp)
  provenance_wellFormed : Json.WellFormed (.obj provenance) := by exact .obj List.nodup_nil (by simp)
  immutability_wellFormed : immutability.WellFormed := by exact .null
  retention_wellFormed : retention.WellFormed := by exact .null

namespace ObjectCatalogSurface

/-- `_expression` -/
def expression (method : String) (arguments : Object) (h : Json.WellFormed (.obj arguments)) : Expression :=
  ⟨"object", method, arguments, h⟩

/-- The arguments of a put; without a digest or a length of its own it has those of the payload. -/
def putArguments (payload : PayloadReference) (a : PutArguments) : Object :=
  [("resource", a.resource), ("objectId", .str a.objectId), ("payload", .obj payload.toDict),
    ("mediaType", .str a.mediaType),
    ("expectedDigest", .nullable .str (a.expectedDigest.or (payload.expectedDigest.map Subtype.val))),
    ("expectedLength", .nullable .int (a.expectedLength.or (payload.expectedLength.map Int.ofNat))),
    ("userMetadata", .obj (wireStrings a.userMetadata)), ("creationContext", .obj a.creationContext),
    ("provenance", .obj a.provenance), ("immutability", a.immutability), ("retention", a.retention),
    ("createOnly", .bool a.createOnly)]

theorem putArguments_wellFormed (payload : PayloadReference) (a : PutArguments) :
    Json.WellFormed (.obj (putArguments payload a)) := by
  have hmetadata := wireStrings_wellFormed a.userMetadata_nodup
  have hdigest : ∀ d : Option Str, Json.WellFormed (.nullable .str d) := Json.wellFormed_nullable .str
  have hlength : ∀ l : Option Int, Json.WellFormed (.nullable .int l) := Json.wellFormed_nullable .int
  refine .obj (by simp [putArguments]) ?_
  simp [putArguments, a.resource_wellFormed, payload.toDict_wellFormed, hdigest, hlength, hmetadata,
    a.creationContext_wellFormed, a.provenance_wellFormed, a.immutability_wellFormed, a.retention_wellFormed,
    Json.WellFormed.str, Json.WellFormed.bool]

/-- The put of a payload reference. -/
def putOf (payload : PayloadReference) (a : PutArguments) : Expression :=
  expression "put" (putArguments payload a) (putArguments_wellFormed payload a)

def put (a : PutArguments) : Py Expression := do
  let payload ← a.payload.read PayloadReference.fromMapping
  return putOf payload a

theorem put_eq_ok {a : PutArguments} {e : Expression} :
    put a = .ok e ↔ ∃ payload, a.payload.read PayloadReference.fromMapping = .ok payload ∧ putOf payload a = e := by
  simp only [put, bind_eq_ok, pure_eq_ok]

/-- `_reference_expression` -/
def referenceExpression (method : String) (resource reference : Wire) : Expression :=
  expression method [("resource", resource.val), ("reference", reference.val)]
    (.obj (by simp) (by simp [resource.2, reference.2]))

def get (resource reference : Wire) : Expression := referenceExpression "get" resource reference

def stat (resource reference : Wire) : Expression := referenceExpression "stat" resource reference

/-- The read of a byte range. -/
def readRangeOf (resource reference : Wire) (selectedRange : ByteRange) : Expression :=
  expression "read_range"
    [("resource", resource.val), ("reference", reference.val), ("range", .obj selectedRange.toDict)]
    (.obj (by simp) (by simp [resource.2, reference.2, selectedRange.toDict_wellFormed]))

def readRange (resource reference : Wire) (byteRange : Given ByteRange) : Py Expression := do
  let selectedRange ← byteRange.read ByteRange.fromMapping
  return readRangeOf resource reference selectedRange

theorem readRange_eq_ok {resource reference : Wire} {byteRange : Given ByteRange} {e : Expression} :
    readRange resource reference byteRange = .ok e ↔ ∃ selectedRange,
      byteRange.read ByteRange.fromMapping = .ok selectedRange ∧ readRangeOf resource reference selectedRange = e := by
  simp only [readRange, bind_eq_ok, pure_eq_ok]

def list (resource : Wire) (listPrefix : Str := []) (limit : Int := 100) (cursor : Option Str := none)
    (purpose : Str := "maintenance") : Expression :=
  expression "list"
    [("resource", resource.val), ("prefix", .str listPrefix), ("limit", .int limit), ("cursor", .nullable .str cursor),
      ("purpose", .str purpose)]
    (.obj (by simp) (by
      have hcursor : Json.WellFormed (.nullable .str cursor) := Json.wellFormed_nullable .str _
      simp [resource.2, hcursor, Json.WellFormed.str, Json.WellFormed.int]))

def delete (resource reference : Wire) (reason : Option Str := none) : Expression :=
  expression "delete"
    [("resource", resource.val), ("reference", reference.val), ("reason", .nullable .str reason)]
    (.obj (by simp) (by
      have hreason : Json.WellFormed (.nullable .str reason) := Json.wellFormed_nullable .str _
      simp [resource.2, reference.2, hreason]))

def publishSchema (namespaceName name version : Str) (definition : Document)
    (expectedRegistryRevision : Option Int := none) (allowBreaking : Bool := false) : Expression :=
  expression "publish_schema"
    [("namespace", .str namespaceName), ("name", .str name), ("version", .str version), ("definition", .obj definition.val),
      ("allowBreaking", .bool allowBreaking), ("expectedRegistryRevision", .nullable .int expectedRegistryRevision)]
    (.obj (by simp) (by
      have hrevision : Json.WellFormed (.nullable .int expectedRegistryRevision) := Json.wellFormed_nullable .int _
      simp [definition.2, hrevision, Json.WellFormed.str, Json.WellFormed.bool]))

variable (P : Packages)

/-- `selected_profile`: without one, the document of `ObjectProfile()`. -/
def selectedProfile (profile : Option (Given P.ObjectProfile)) : Document :=
  (profile.getD (.record P.defaultObjectProfile)).wire fun p => ⟨P.profileToDict p, P.profileToDict_wellFormed p⟩

def createResource (namespaceName name : Str) (profile : Option (Given P.ObjectProfile) := none)
    (options : Document := ⟨[], .obj List.nodup_nil (by simp)⟩) : Expression :=
  expression "create_resource"
    [("namespace", .str namespaceName), ("name", .str name), ("profile", .obj (selectedProfile P profile).val),
      ("options", .obj options.val)]
    (.obj (by simp) (by simp [(selectedProfile P profile).2, options.2, Json.WellFormed.str]))

end ObjectCatalogSurface

end ObjectCommon
