import ObjectCommon.Capabilities
import ObjectCommon.Codec.Signed
import ObjectCommon.Contracts
import ObjectCommon.Immutability
import ObjectCommon.Validation.Private

/-!
# Normalization of Object Catalog Expressions

`normalize` checks the arguments of an Expression, rewrites some of them in place and derives what
the Operation requires. Each validator takes the arguments as they stand and returns them as it
leaves them.

* `objectOperations` : the eight methods;
* `validateRegistryArguments`, `validateDataArguments`, `validatePut`, `normalizeReference` : the
  validators;
* `normalize` : from an Expression to an Operation.
-/

namespace ObjectCommon

open Outcome PyError

def objectRegistryRef : ResourceRef := ⟨"object", "meridian", "registry"⟩

/-- The contract of one row of `_OBJECT_OPERATIONS`. -/
def operationContract (method : String) (readOnly : Bool) (idempotency : String)
    (guarantees : List Str) : OperationContract where
  method := method
  operationContract := "meridian.object." ++ method
  operationVersion := objectOperationVersion
  readOnly := readOnly
  idempotency := idempotency
  guarantees := guarantees

/-- `_OBJECT_OPERATIONS` -/
def objectOperations : List OperationContract :=
  [operationContract "create_resource" false "always" [],
    operationContract "delete" false "always" [guaranteeExactVersionDelete],
    operationContract "get" true "always" [guaranteeDigestVerification, guaranteeStreaming],
    operationContract "list" true "always" [guaranteeBoundedPrefixList],
    operationContract "publish_schema" false "always" [],
    operationContract "put" false "conditional"
      [guaranteeDigestSha256, guaranteeMetadataAfterCommit, guaranteeStreaming],
    operationContract "read_range" true "always" [guaranteeDigestVerification, guaranteeRangeRead],
    operationContract "stat" true "always" []]

/-- What a validator derives: the guarantees, the limits and the idempotence of a request. -/
structure Demands where
  guarantees : List Str := []
  limits : Dict Str Nat := []
  idempotent : Bool := true
  deriving DecidableEq

/-- `guarantees.add(guarantee)` -/
def setAdd (guarantees : List Str) (guarantee : Str) : List Str :=
  if guarantee ∈ guarantees then guarantees else guarantees ++ [guarantee]

variable (P : Packages)

/-! ## References -/

/-- `_require_same_resource` -/
def requireSameResource (reference : P.ObjectReference) (resource : ResourceRef) : Py Unit :=
  let selected := P.resourceRef reference
  raiseIf ((selected.catalog, selected.namespaceName, selected.name) ≠
      (resource.catalog, resource.namespaceName, resource.name))
    (valueError "Object reference does not belong to the target Resource")

/-- `_normalize_reference` -/
def normalizeReference (value : Object) (resource : ResourceRef) (method : Str)
    (requireDigest : Bool := false) : Py (Object × Bool) := do
  let raw ← getItem value "reference"
  let raw ← asMapping raw (typeError "reference must be an object")
  let parsed ← parseLogicalReference P raw
  match parsed with
  | .signed s =>
    raiseIf (method ∉ s.allowedOperations)
      (valueError "signed Object reference does not permit this method")
    let value := Dict.set value "reference" (.obj s.toDict)
    requireSameResource P s.objectRef resource
    return (value, true)
  | .object r =>
    raiseIf (requireDigest ∧ P.digest r = none)
      (valueError "delete requires an exact Object reference with digest")
    let value := Dict.set value "reference" (.obj (P.referenceToDict r))
    requireSameResource P r resource
    return (value, false)

/-- `_parse_resource` -/
def parseResource (value : Json) : Py ResourceRef :=
  (P.parseResourceRef value "object").mapError
    (translate fun e => valueError (.text "invalid logical Object Resource reference: " :: e.message))

/-! ## Registry operations -/

/-- `_validate_registry_arguments("publish_schema", value)` -/
def validatePublishSchema (value : Object) : Py Object := do
  exactFields value
    ["namespace", "name", "version", "definition", "allowBreaking", "expectedRegistryRevision"]
  let namespaceName ← getItem value "namespace"
  let name ← getItem value "name"
  let _ ← P.newResourceRef "object" namespaceName name
  let version ← getItem value "version"
  P.newSchemaRef "object" namespaceName name version
  let definition ← getItem value "definition"
  let _ ← jsonMapping definition "definition"
  let allowBreaking ← getItem value "allowBreaking"
  let _ ← asBool allowBreaking (typeError "allowBreaking must be boolean")
  let revision ← getItem value "expectedRegistryRevision"
  let _ ← unlessNone revision (nonNegativeInt · "expected registry revision")
  return value

/-- `_validate_registry_arguments("create_resource", value)` -/
def validateCreateResource (value : Object) : Py Object := do
  exactFields value ["namespace", "name", "profile", "options"]
  let namespaceName ← getItem value "namespace"
  let name ← getItem value "name"
  let _ ← P.newResourceRef "object" namespaceName name
  let profileValue ← getItem value "profile"
  let profileValue ← asMapping profileValue (typeError "profile must be an object")
  let profile ← parseObjectProfile P profileValue
  let value := Dict.set value "profile" (.obj (P.profileToDict profile))
  let options ← getItem value "options"
  let options ← jsonMapping options "options"
  return Dict.set value "options" (.obj options)

def validateRegistryArguments (method : Str) (value : Object) : Py Object :=
  if method = str "publish_schema" then validatePublishSchema P value
  else validateCreateResource P value

/-! ## Put -/

def putFields : List String :=
  ["resource", "objectId", "payload", "mediaType", "expectedDigest", "expectedLength", "userMetadata",
    "creationContext", "provenance", "immutability", "retention", "createOnly"]

/-- The payload of a put takes on the put's own digest and length; it may declare no others. -/
def putPayload (value : Object) : Py (Object × Option Digest × Option Nat) := do
  let rawPayload ← getItem value "payload"
  let rawPayload ← asMapping rawPayload (typeError "payload must be a serialized PayloadReference")
  let payload ← PayloadReference.fromMapping rawPayload
  let expectedDigest ← getItem value "expectedDigest"
  let expectedDigest ← unlessNone expectedDigest (digest · "expected digest")
  let expectedLength ← getItem value "expectedLength"
  let expectedLength ← unlessNone expectedLength (nonNegativeInt · "expected length")
  raiseIf (payload.expectedDigest ≠ none ∧ payload.expectedDigest ≠ expectedDigest)
    (valueError "payload and put expected digests do not match")
  raiseIf (payload.expectedLength ≠ none ∧ payload.expectedLength ≠ expectedLength)
    (valueError "payload and put expected lengths do not match")
  let payload ← PayloadReference.new (.str payload.token.val) (ByteRange.wireNat expectedLength)
    (wireDigest expectedDigest) (.bool payload.replayable)
  let value := Dict.set value "payload" (.obj payload.toDict)
  let value := Dict.set value "expectedDigest" (wireDigest expectedDigest)
  let value := Dict.set value "expectedLength" (ByteRange.wireNat expectedLength)
  return (value, expectedDigest, expectedLength)

/-- The media type and the identity of the Object that is put. -/
def putIdentity (value : Object) (resource : ResourceRef) (expectedDigest : Option Digest) :
    Py Unit := do
  let media ← getItem value "mediaType"
  let _ ← mediaType media
  let objectId ← getItem value "objectId"
  let objectId ← boundedString objectId "Object id" 1024
  let semanticResource ← P.newResourceReference resource.namespaceName resource.name
  let _ ← P.newObjectReference semanticResource (.str objectId.val) (wireDigest expectedDigest)

/-- The metadata of a put, with its number of entries. -/
def putMetadata (value : Object) : Py (Object × Nat) := do
  let userMetadata ← getItem value "userMetadata"
  let userMetadata ← stringMapping userMetadata "user metadata" 128 128 2048
  let value := Dict.set value "userMetadata" (.obj (wireStrings userMetadata))
  let creationContext ← getItem value "creationContext"
  let creationContext ← jsonMapping creationContext "creationContext"
  let value := Dict.set value "creationContext" (.obj creationContext)
  let provenance ← getItem value "provenance"
  let provenance ← jsonMapping provenance "provenance"
  let value := Dict.set value "provenance" (.obj provenance)
  return (value, userMetadata.length)

/-- The immutability intent of a put. -/
def putImmutability (value : Object) (guarantees : List Str) : Py (Object × List Str) := do
  let rawImmutability ← getItem value "immutability"
  let immutability ← unlessNone rawImmutability fun raw => do
    let raw ← asMapping raw (typeError "immutability must be an object or null")
    ImmutabilityRequest.fromMapping raw
  match immutability with
  | none => return (value, guarantees)
  | some selected =>
    return (Dict.set value "immutability" (.obj selected.toDict),
      if selected.mutability = .immutable then setAdd guarantees guaranteeImmutabilityIntent else guarantees)

/-- The retention intent of a put. -/
def putRetention (value : Object) (guarantees : List Str) : Py (Object × List Str) := do
  let rawRetention ← getItem value "retention"
  let retention ← unlessNone rawRetention fun raw => do
    let raw ← asMapping raw (typeError "retention must be an object or null")
    RetentionRequest.fromMapping raw
  match retention with
  | none => return (value, guarantees)
  | some selected =>
    let guarantees := setAdd guarantees guaranteeRetentionIntent
    return (Dict.set value "retention" (.obj selected.toDict),
      if selected.requireEnforcement then setAdd guarantees guaranteeRetentionEnforcement else guarantees)

/-- `_validate_put` -/
def validatePut (value : Object) (resource : ResourceRef) : Py (Object × Demands) := do
  exactFields value putFields
  let (value, expectedDigest, expectedLength) ← putPayload value
  putIdentity P value resource expectedDigest
  let (value, entries) ← putMetadata value
  let (value, guarantees) ← putImmutability value []
  let (value, guarantees) ← putRetention value guarantees
  let createOnly ← getItem value "createOnly"
  let createOnly ← asBool createOnly (typeError "createOnly must be boolean")
  let guarantees := if createOnly then setAdd guarantees guaranteeConditionalCreate else guarantees
  let limits : Dict Str Nat := [(limitMaxUserMetadataEntries, entries)]
  let limits := match expectedLength with
    | none => limits
    | some length => Dict.set limits limitMaxObjectBytes length
  return (value, ⟨guarantees, limits, createOnly || expectedDigest.isSome⟩)

/-! ## Data operations -/

/-- The guarantees of a request through a reference. -/
def referenceGuarantees (signed : Bool) : List Str := if signed then [guaranteeSignedReference] else []

/-- The limits of a range read. -/
def rangeLimits (requestedLength : Option Nat) : Dict Str Nat :=
  match requestedLength with
  | none => []
  | some length => [(limitMaxRangeBytes, length)]

def validateRead (method : Str) (value : Object) (resource : ResourceRef) : Py (Object × Demands) := do
  exactFields value ["resource", "reference"]
  let (value, signed) ← normalizeReference P value resource method
  return (value, { guarantees := referenceGuarantees signed })

def validateReadRange (method : Str) (value : Object) (resource : ResourceRef) :
    Py (Object × Demands) := do
  exactFields value ["resource", "reference", "range"]
  let (value, signed) ← normalizeReference P value resource method
  let rawRange ← getItem value "range"
  let rawRange ← asMapping rawRange (typeError "range must be an object")
  let selectedRange ← ByteRange.fromMapping rawRange
  let value := Dict.set value "range" (.obj selectedRange.toDict)
  let requestedLength ← selectedRange.requestedLength
  return (value, { guarantees := referenceGuarantees signed, limits := rangeLimits requestedLength })

/-- A list prefix of at most 1024 UTF-8 bytes. -/
def listPrefix (value : Json) : Py Str :=
  match value with
  | .str s =>
    match utf8Length s with
    | none => .error (.builtin .unicodeEncodeError [.foreign])
    | some n => do
      raiseIf (1024 < n) (valueError "list prefix must be a UTF-8 string no larger than 1024 bytes")
      raiseIf (s.any isControl = true) (valueError "list prefix contains a control character")
      return s
  | _ => .error (valueError "list prefix must be a UTF-8 string no larger than 1024 bytes")

def validateList (value : Object) : Py (Object × Demands) := do
  exactFields value ["resource", "prefix", "limit", "cursor", "purpose"]
  let listPrefixValue ← getItem value "prefix"
  let _ ← listPrefix listPrefixValue
  let limit ← getItem value "limit"
  let limit ← positiveInt limit "list limit"
  raiseIf (1000 < limit.val) (valueError "list limit must not exceed 1000")
  let cursor ← getItem value "cursor"
  let _ ← unlessNone cursor (boundedString · "list cursor" 2048)
  let purpose ← getItem value "purpose"
  raiseIf (purpose.isStr "maintenance" = false)
    (valueError "bounded-prefix listing is restricted to maintenance use")
  return (value, { limits := [(limitMaxListPageSize, limit.val)] })

def validateDelete (method : Str) (value : Object) (resource : ResourceRef) : Py (Object × Demands) := do
  exactFields value ["resource", "reference", "reason"]
  let (value, _) ← normalizeReference P value resource method true
  let reason ← getItem value "reason"
  let _ ← unlessNone reason (boundedString · "delete reason" 1024)
  return (value, {})

/-- `_validate_data_arguments` -/
def validateDataArguments (method : Str) (value : Object) (resource : ResourceRef) :
    Py (Object × Demands) :=
  if method = str "put" then validatePut P value resource
  else if method = str "get" ∨ method = str "stat" then validateRead P method value resource
  else if method = str "read_range" then validateReadRange P method value resource
  else if method = str "list" then validateList value
  else if method = str "delete" then validateDelete P method value resource
  else .error (valueError [.text "unsupported Object operation ", .repr method])

/-! ## Normalization -/

/-- The arguments as they are emitted, the Resource and what the request requires. -/
def normalizeArguments (method : Str) (arguments : Object) : Py (Object × ResourceRef × Demands) := do
  rejectPrivateConfiguration (.obj arguments)
  if method = str "publish_schema" ∨ method = str "create_resource" then
    let value ← validateRegistryArguments P method arguments
    return (value, objectRegistryRef, {})
  else
    let resource ← parseResource P ((Dict.get? arguments "resource").getD .null)
    let (value, demands) ← validateDataArguments P method arguments resource
    return (value, resource, demands)

/-- The requirements of an Operation: none when nothing is demanded. -/
def requirements (method : Str) (demands : Demands) : Py (List CapabilityRequirement) :=
  if demands.guarantees ≠ [] ∨ demands.limits ≠ [] then do
    let requirement ← objectRequirement P method demands.guarantees demands.limits
    return [requirement]
  else return []

/-- `ObjectCatalogProvider.normalize` -/
def normalize (expression : Expression) : Py Operation := do
  raiseIf (expression.catalog ≠ str "object")
    (ObjectInvalidRequest "Expression Catalog does not match the Object provider")
  let contract ← (P.operationFor objectOperations expression.method).mapError fun e =>
    if e.isKeyError then
      ObjectInvalidRequest [.text "unsupported object Expression method ", .repr expression.method]
    else e
  let (input, resource, demands) ← (normalizeArguments P expression.method expression.arguments).mapError
    (translate fun e => ObjectInvalidRequest
      (.text (str "invalid object." ++ expression.method ++ str " arguments: ") :: e.message)
      (some contract.operationContract))
  let requirements ← requirements P expression.method demands
  let operation : Operation :=
    { catalog := "object"
      operationContract := contract.operationContract
      operationVersion := contract.operationVersion
      resources := [resource]
      input := input
      requirements := requirements
      readOnly := contract.readOnly
      idempotent := demands.idempotent }
  P.checkOperation operation
  return operation

/-! ## Accepted requests -/

theorem normalize_getFixture : ∃ o, normalize contracts Contracts.getFixture = .ok o :=
  exists_ok_of_isOk (by decide +kernel)

theorem normalize_readRangeFixture : ∃ o, normalize contracts Contracts.readRangeFixture = .ok o :=
  exists_ok_of_isOk (by decide +kernel)

theorem normalize_putFixture : ∃ o, normalize contracts Contracts.putFixture = .ok o :=
  exists_ok_of_isOk (by decide +kernel)

end ObjectCommon
