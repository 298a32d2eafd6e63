import ObjectCommon.Packages

/-!
# Object capabilities

* `guarantee…`, `limit…` : the names of guarantees and limits;
* `objectRequirement` : a requirement on one operation of the Object Catalog;
* `CapabilitySpi` : the manifests of Adapters, as Core compares requirements with them;
* `negotiateObjectCapabilities`, `requireObjectCapabilities` : whether an Adapter can serve requirements.
-/

namespace ObjectCommon

open PyError

def objectOperationVersion : Str := "1.0.0"

def guaranteeStreaming : Str := "object.streaming"
def guaranteeDigestSha256 : Str := "object.digest-sha256"
def guaranteeDigestVerification : Str := "object.digest-verification"
def guaranteeMetadataAfterCommit : Str := "object.metadata-after-commit"
def guaranteeRangeRead : Str := "object.range-read"
def guaranteeConditionalCreate : Str := "object.conditional-create"
def guaranteeBoundedPrefixList : Str := "object.bounded-prefix-list"
def guaranteeExactVersionDelete : Str := "object.exact-version-delete"
def guaranteeImmutabilityIntent : Str := "object.immutability-intent"
def guaranteeRetentionIntent : Str := "object.retention-intent"
def guaranteeRetentionEnforcement : Str := "object.retention-enforcement"
def guaranteeSignedReference : Str := "object.signed-reference"

def limitMaxObjectBytes : Str := "object.max-object-bytes"
def limitMaxRangeBytes : Str := "object.max-range-bytes"
def limitMaxListPageSize : Str := "object.max-list-page-size"
def limitMaxUserMetadataEntries : Str := "object.max-user-metadata-entries"

/-- `object_requirement(method, guarantees=guarantees, minimum_limits=minimum_limits)` for a set of
guarantees -/
def objectRequirement (P : Packages) (method : Str) (guarantees : List Str)
    (minimumLimits : Dict Str Nat) : Py CapabilityRequirement := do
  let requirement : CapabilityRequirement :=
    { operationContract := str "meridian.object." ++ method
      operationVersion := objectOperationVersion
      guarantees := P.tupleOfSet guarantees
      minimumLimits := minimumLimits }
  P.checkRequirement requirement
  return requirement

/-! ## Negotiation -/

structure CapabilityViolation where
  requirement : CapabilityRequirement
  reason : Str

/-- What is used of `meridian_storage.spi`. -/
structure CapabilitySpi where
  CapabilityManifest : Type
  adapterId : CapabilityManifest → Str
  fingerprint : CapabilityManifest → Str
  capabilityViolations : CapabilityManifest → List CapabilityRequirement → List CapabilityViolation

structure ObjectCapabilityReport where
  supported : Bool
  violations : List CapabilityViolation
  capabilityFingerprint : Str

/-- `ObjectCapabilityMismatch`, with its `adapter_provenance` -/
structure ObjectCapabilityMismatch where
  message : Message
  operationContract : Str
  adapterId : Str
  capabilityFingerprint : Str

def ObjectCapabilityMismatch.error (m : ObjectCapabilityMismatch) : PyError :=
  .meridian .capabilityMismatch m.message (some m.operationContract)

variable {S : CapabilitySpi}

def negotiateObjectCapabilities (manifest : S.CapabilityManifest) (requirements : List CapabilityRequirement) :
    Py ObjectCapabilityReport :=
  if requirements.any fun item => !(str "meridian.object.").isPrefixOf item.operationContract then
    .error (valueError "Object capability negotiation accepts only Object operation contracts")
  else
    let violations := S.capabilityViolations manifest requirements
    .ok ⟨violations.isEmpty, violations, S.fingerprint manifest⟩

/-- What `require_object_capabilities` returns or raises; a mismatch carries its provenance. -/
inductive RequireResult where
  | fingerprint (f : Str)
  | mismatch (m : ObjectCapabilityMismatch)
  | raises (e : PyError)

def requireObjectCapabilities (manifest : S.CapabilityManifest) (requirements : List CapabilityRequirement) :
    RequireResult :=
  match negotiateObjectCapabilities manifest requirements with
  | .error e => .raises e
  | .ok report =>
    if report.supported then .fingerprint report.capabilityFingerprint
    else
      match report.violations with
      | first :: _ => .mismatch
        { message := [.text "Object capability requirement is unsatisfied: ", .text first.reason]
          operationContract := first.requirement.operationContract
          adapterId := S.adapterId manifest
          capabilityFingerprint := report.capabilityFingerprint }
      | [] => .raises (.builtin (.other "IndexError") [.foreign])

end ObjectCommon
