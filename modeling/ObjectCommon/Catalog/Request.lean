import ObjectCommon.Catalog.Normalize

/-!
# What an accepted Expression asks for

* `Request` : the typed content of the arguments, one constructor for each shape;
* `Request.updates` : the arguments that normalization rewrites, and their new values;
* `Request.demands` : what the request requires;
* `Request.Reads` : the arguments of a method denote a request;
* `LogicalReference`, `PutRequest` : its parts.
-/

namespace ObjectCommon

open Outcome PyError

/-! ## Shapes -/

/-- A member that is null or a document. -/
def NullableDocument {α : Type} (parse : Object → Py α) (j : Json) : Option α → Prop
  | none => j = .null
  | some a => ∃ raw, j = .obj raw ∧ parse raw = .ok a

theorem unlessNone_document_eq_ok {α : Type} {parse : Object → Py α} {j : Json} {e : PyError}
    {r : Option α} :
    (unlessNone j fun raw => do
      let raw ← asMapping raw e
      parse raw) = .ok r ↔ NullableDocument parse j r := by
  cases j with
  | null => cases r <;> simp [unlessNone, NullableDocument]
  | _ => cases r <;> simp [unlessNone, NullableDocument, map_eq_ok, bind_eq_ok]

/-- The names that are switched on. -/
def selected (l : List (Str × Bool)) : List Str := (l.filter Prod.snd).map Prod.fst

theorem mem_selected {l : List (Str × Bool)} {g : Str} : g ∈ selected l ↔ (g, true) ∈ l := by
  simp [selected]

theorem selected_nodup {l : List (Str × Bool)} (h : (l.map Prod.fst).Nodup) : (selected l).Nodup :=
  h.sublist ((List.filter_sublist).map Prod.fst)

/-- Add the names that are switched on to a set. -/
def addSelected (gs : List Str) (l : List (Str × Bool)) : List Str :=
  l.foldl (fun gs e => if e.2 then setAdd gs e.1 else gs) gs

/-- Adding names that are new appends them. -/
theorem addSelected_selected {l l' : List (Str × Bool)} (h : ((l ++ l').map Prod.fst).Nodup) :
    addSelected (selected l) l' = selected (l ++ l') := by
  induction l' generalizing l with
  | nil => simp [addSelected]
  | cons e l' ih =>
    obtain ⟨g, b⟩ := e
    have h' : ((l ++ [(g, b)] ++ l').map Prod.fst).Nodup := by simpa using h
    have hstep : (if b then setAdd (selected l) g else selected l) = selected (l ++ [(g, b)]) := by
      cases b with
      | false => simp [selected]
      | true =>
        have hg : g ∉ selected l := by
          intro hg
          have hmem : g ∈ l.map Prod.fst := List.mem_map_of_mem (mem_selected.mp hg)
          rw [List.map_append, List.map_cons] at h
          exact (List.disjoint_of_nodup_append h) hmem List.mem_cons_self
        rw [if_pos rfl, setAdd, if_neg hg]
        simp [selected]
    calc addSelected (selected l) ((g, b) :: l')
        = addSelected (if b then setAdd (selected l) g else selected l) l' := rfl
      _ = selected (l ++ [(g, b)] ++ l') := by rw [hstep, ih h']
      _ = selected (l ++ (g, b) :: l') := by simp

variable (P : Packages)

/-- The arguments of a put. -/
structure PutRequest where
  payload : PayloadReference
  expectedDigest : Option Digest
  expectedLength : Option Nat
  mediaType : MediaType
  objectId : BoundedString 1024
  userMetadata : Dict Str Str
  creationContext : Object
  provenance : Object
  immutability : Option ImmutabilityRequest
  retention : Option RetentionRequest
  createOnly : Bool

/-- What the arguments of an accepted Expression denote. -/
inductive Request where
  | publishSchema
  | createResource (profile : P.ObjectProfile) (options : Object)
  | put (p : PutRequest)
  | read (reference : LogicalReference P)
  | readRange (reference : LogicalReference P) (range : ByteRange)
  | list (limit : Positive)
  | delete (reference : LogicalReference P)

variable {P}

/-! ## References -/

namespace LogicalReference

def objectRef : LogicalReference P → P.ObjectReference
  | .object r => r
  | .signed s => s.objectRef

def toDict : LogicalReference P → Object
  | .object r => P.referenceToDict r
  | .signed s => s.toDict

def isSigned : LogicalReference P → Bool
  | .object _ => false
  | .signed _ => true

/-- A signed reference permits its own operations; an unsigned one has a digest where it must. -/
def Permits (method : Str) (requireDigest : Bool) : LogicalReference P → Prop
  | .object r => requireDigest = true → P.digest r ≠ none
  | .signed s => method ∈ s.allowedOperations

end LogicalReference

/-- The reference is to an Object of the Resource. -/
def SameResource (r : P.ObjectReference) (resource : ResourceRef) : Prop :=
  (P.resourceRef r).catalog = resource.catalog ∧ (P.resourceRef r).namespaceName = resource.namespaceName ∧
    (P.resourceRef r).name = resource.name

theorem requireSameResource_eq_ok {r : P.ObjectReference} {resource : ResourceRef} {u : Unit} :
    requireSameResource P r resource = .ok u ↔ SameResource r resource := by
  simp [requireSameResource, raiseIf_eq_ok, SameResource]

/-- The reference argument denotes a reference that the method may use. -/
structure ReadsReference (value : Object) (resource : ResourceRef) (method : Str) (requireDigest : Bool)
    (reference : LogicalReference P) : Prop where
  document : ∃ raw, Dict.get? value "reference" = some (.obj raw) ∧
    parseLogicalReference P raw = .ok reference
  permits : reference.Permits method requireDigest
  sameResource : SameResource reference.objectRef resource

theorem normalizeReference_eq_ok {value value' : Object} {resource : ResourceRef} {method : Str}
    {requireDigest signed : Bool} :
    normalizeReference P value resource method requireDigest = .ok (value', signed) ↔
      ∃ reference, ReadsReference (P := P) value resource method requireDigest reference ∧
        value' = Dict.set value "reference" (.obj reference.toDict) ∧ signed = reference.isSigned := by
  simp only [normalizeReference, bind_eq_ok, getItem_eq_ok, asMapping_eq_ok]
  constructor
  · rintro ⟨_, hget, raw, rfl, reference, hparse, h⟩
    cases reference with
    | signed s =>
      simp only [bind_eq_ok, exists_unit, raiseIf_eq_ok, not_not, requireSameResource_eq_ok,
        pure_eq_ok, Prod.mk.injEq] at h
      obtain ⟨hm, hsame, rfl, rfl⟩ := h
      exact ⟨.signed s, ⟨⟨raw, hget, hparse⟩, hm, hsame⟩, rfl, rfl⟩
    | object r =>
      simp only [bind_eq_ok, exists_unit, raiseIf_eq_ok, not_and, requireSameResource_eq_ok,
        pure_eq_ok, Prod.mk.injEq] at h
      obtain ⟨hd, hsame, rfl, rfl⟩ := h
      exact ⟨.object r, ⟨⟨raw, hget, hparse⟩, hd, hsame⟩, rfl, rfl⟩
  · rintro ⟨reference, ⟨⟨raw, hget, hparse⟩, hp, hsame⟩, rfl, rfl⟩
    refine ⟨_, hget, raw, rfl, reference, hparse, ?_⟩
    cases reference with
    | signed s =>
      simp only [bind_eq_ok, exists_unit, raiseIf_eq_ok, not_not, requireSameResource_eq_ok, pure_eq_ok]
      exact ⟨hp, hsame, rfl⟩
    | object r =>
      simp only [bind_eq_ok, exists_unit, raiseIf_eq_ok, not_and, requireSameResource_eq_ok, pure_eq_ok]
      exact ⟨hp, hsame, rfl⟩

/-! ## Puts -/

def immutabilityUpdates (immutability : Option ImmutabilityRequest) : Object :=
  (immutability.map fun i => (str "immutability", Json.obj i.toDict)).toList

def retentionUpdates (retention : Option RetentionRequest) : Object :=
  (retention.map fun r => (str "retention", Json.obj r.toDict)).toList

/-- The guarantees of an immutability intent, each with whether it is needed. -/
def immutabilityGuarantees (immutability : Option ImmutabilityRequest) : List (Str × Bool) :=
  [(guaranteeImmutabilityIntent, immutability.any fun i => i.mutability = .immutable)]

/-- The guarantees of a retention intent, each with whether it is needed. -/
def retentionGuarantees (retention : Option RetentionRequest) : List (Str × Bool) :=
  [(guaranteeRetentionIntent, retention.isSome),
    (guaranteeRetentionEnforcement, retention.any fun r => r.requireEnforcement)]

namespace PutRequest

/-- The payload with the put's own digest and length. -/
def merged (p : PutRequest) : PayloadReference :=
  { p.payload with expectedDigest := p.expectedDigest, expectedLength := p.expectedLength }

def integrityUpdates (p : PutRequest) : Object :=
  [("payload", .obj p.merged.toDict), ("expectedDigest", wireDigest p.expectedDigest),
    ("expectedLength", ByteRange.wireNat p.expectedLength)]

def metadataUpdates (p : PutRequest) : Object :=
  [("userMetadata", .obj (wireStrings p.userMetadata)), ("creationContext", .obj p.creationContext),
    ("provenance", .obj p.provenance)]

def updates (p : PutRequest) : Object :=
  p.integrityUpdates ++ (p.metadataUpdates ++
    (immutabilityUpdates p.immutability ++ retentionUpdates p.retention))

def guarantees (p : PutRequest) : List Str :=
  selected (immutabilityGuarantees p.immutability ++ retentionGuarantees p.retention ++
    [(guaranteeConditionalCreate, p.createOnly)])

def limits (p : PutRequest) : Dict Str Nat :=
  (limitMaxUserMetadataEntries, p.userMetadata.length) ::
    (p.expectedLength.map fun n => (limitMaxObjectBytes, n)).toList

def demands (p : PutRequest) : Demands where
  guarantees := p.guarantees
  limits := p.limits
  idempotent := p.createOnly || p.expectedDigest.isSome

/-- The digest and length inputs of a put denote those of `p`. -/
structure ReadsIntegrity (p : PutRequest) (value : Object) : Prop where
  payload : ∃ raw, Dict.get? value "payload" = some (.obj raw) ∧
    PayloadReference.fromMapping raw = .ok p.payload
  expectedDigest : Dict.get? value "expectedDigest" = some (wireDigest p.expectedDigest)
  expectedLength : Dict.get? value "expectedLength" = some (ByteRange.wireNat p.expectedLength)
  digest_agrees : p.payload.expectedDigest ≠ none → p.payload.expectedDigest = p.expectedDigest
  length_agrees : p.payload.expectedLength ≠ none → p.payload.expectedLength = p.expectedLength

/-- The media type and the Object id of a put denote those of `p`, and Semantics accepts the id. -/
structure ReadsIdentity (P : Packages) (p : PutRequest) (value : Object) (resource : ResourceRef) :
    Prop where
  mediaType : Dict.get? value "mediaType" = some (.str p.mediaType.val.val)
  objectId : Dict.get? value "objectId" = some (.str p.objectId.val)
  reference : ∃ semanticResource r, P.newResourceReference resource.namespaceName resource.name = .ok semanticResource ∧
    P.newObjectReference semanticResource (.str p.objectId.val) (wireDigest p.expectedDigest) = .ok r

/-- The metadata of a put denotes that of `p`. -/
structure ReadsMetadata (p : PutRequest) (value : Object) : Prop where
  userMetadata : ∃ raw, Dict.get? value "userMetadata" = some (.obj raw) ∧
    stringMapping (.obj raw) "user metadata" 128 128 2048 = .ok p.userMetadata
  creationContext : Dict.get? value "creationContext" = some (.obj p.creationContext)
  provenance : Dict.get? value "provenance" = some (.obj p.provenance)

/-- The intents of a put denote those of `p`. -/
structure ReadsIntents (p : PutRequest) (value : Object) : Prop where
  immutability : ∃ j, Dict.get? value "immutability" = some j ∧
    NullableDocument ImmutabilityRequest.fromMapping j p.immutability
  retention : ∃ j, Dict.get? value "retention" = some j ∧
    NullableDocument RetentionRequest.fromMapping j p.retention

/-- The arguments of a put denote `p`. -/
structure Reads (P : Packages) (p : PutRequest) (value : Object) (resource : ResourceRef) : Prop where
  fields : exactFields value putFields = .ok ()
  integrity : p.ReadsIntegrity value
  identity : p.ReadsIdentity P value resource
  metadata : p.ReadsMetadata value
  intents : p.ReadsIntents value
  createOnly : Dict.get? value "createOnly" = some (.bool p.createOnly)

end PutRequest

/-! ## Requests -/

/-- The arguments of a `publish_schema`. -/
structure ReadsPublishSchema (P : Packages) (value : Object) : Prop where
  fields : exactFields value
    ["namespace", "name", "version", "definition", "allowBreaking", "expectedRegistryRevision"] = .ok ()
  names : ∃ namespaceName name version ref, Dict.get? value "namespace" = some namespaceName ∧
    Dict.get? value "name" = some name ∧ P.newResourceRef "object" namespaceName name = .ok ref ∧
    Dict.get? value "version" = some version ∧ P.newSchemaRef "object" namespaceName name version = .ok ()
  definition : ∃ d, Dict.get? value "definition" = some (.obj d)
  allowBreaking : ∃ b, Dict.get? value "allowBreaking" = some (.bool b)
  expectedRegistryRevision : ∃ n, Dict.get? value "expectedRegistryRevision" = some (ByteRange.wireNat n)

/-- The arguments of a `create_resource`. -/
structure ReadsCreateResource (P : Packages) (value : Object) (profile : P.ObjectProfile)
    (options : Object) : Prop where
  fields : exactFields value ["namespace", "name", "profile", "options"] = .ok ()
  names : ∃ namespaceName name ref, Dict.get? value "namespace" = some namespaceName ∧
    Dict.get? value "name" = some name ∧ P.newResourceRef "object" namespaceName name = .ok ref
  profile : ∃ raw, Dict.get? value "profile" = some (.obj raw) ∧ parseObjectProfile P raw = .ok profile
  options : Dict.get? value "options" = some (.obj options)

/-- The range argument denotes a byte range. -/
def ReadsRange (value : Object) (range : ByteRange) : Prop :=
  ∃ raw, Dict.get? value "range" = some (.obj raw) ∧ ByteRange.fromMapping raw = .ok range

/-- The JSON value of an optional bounded string. -/
def wireString {maximum : Nat} : Option (BoundedString maximum) → Json := Json.nullable fun s => .str s.val

/-- The arguments of a `list`. -/
structure ReadsList (value : Object) (limit : Positive) : Prop where
  fields : exactFields value ["resource", "prefix", "limit", "cursor", "purpose"] = .ok ()
  listPrefix : ∃ s n, Dict.get? value "prefix" = some (.str s) ∧ utf8Length s = some n ∧ n ≤ 1024 ∧
    s.any isControl = false
  page : Dict.get? value "limit" = some (.int limit.val)
  page_le : limit.val ≤ 1000
  cursor : ∃ c : Option (BoundedString 2048), Dict.get? value "cursor" = some (wireString c)
  purpose : Dict.get? value "purpose" = some (.str "maintenance")

/-- The resource argument denotes a Resource. -/
def ReadsResource (P : Packages) (value : Object) (resource : ResourceRef) : Prop :=
  parseResource P ((Dict.get? value "resource").getD .null) = .ok resource

/-- The reason argument of a `delete`. -/
def ReadsReason (value : Object) : Prop :=
  ∃ c : Option (BoundedString 1024), Dict.get? value "reason" = some (wireString c)

namespace Request

/-- The arguments of a method denote a request on a Resource. -/
def Reads (method : Str) (value : Object) (resource : ResourceRef) : Request P → Prop
  | .publishSchema =>
    method = str "publish_schema" ∧ resource = objectRegistryRef ∧ ReadsPublishSchema P value
  | .createResource profile options =>
    method = str "create_resource" ∧ resource = objectRegistryRef ∧ ReadsCreateResource P value profile options
  | .put p => method = str "put" ∧ ReadsResource P value resource ∧ p.Reads P value resource
  | .read reference =>
    (method = str "get" ∨ method = str "stat") ∧ ReadsResource P value resource ∧
      exactFields value ["resource", "reference"] = .ok () ∧
      ReadsReference value resource method false reference
  | .readRange reference range =>
    method = str "read_range" ∧ ReadsResource P value resource ∧
      exactFields value ["resource", "reference", "range"] = .ok () ∧
      ReadsReference value resource method false reference ∧ ReadsRange value range
  | .list limit => method = str "list" ∧ ReadsResource P value resource ∧ ReadsList value limit
  | .delete reference =>
    method = str "delete" ∧ ReadsResource P value resource ∧
      exactFields value ["resource", "reference", "reason"] = .ok () ∧
      ReadsReference value resource method true reference ∧ ReadsReason value

/-- The arguments that normalization rewrites, with their new values. -/
def updates : Request P → Object
  | .publishSchema => []
  | .createResource profile options =>
    [("profile", .obj (P.profileToDict profile)), ("options", .obj options)]
  | .put p => p.updates
  | .read reference => [("reference", .obj reference.toDict)]
  | .readRange reference range => [("reference", .obj reference.toDict), ("range", .obj range.toDict)]
  | .list _ => []
  | .delete reference => [("reference", .obj reference.toDict)]

def demands : Request P → Demands
  | .publishSchema => {}
  | .createResource _ _ => {}
  | .put p => p.demands
  | .read reference => { guarantees := referenceGuarantees reference.isSigned }
  | .readRange reference range =>
    { guarantees := referenceGuarantees reference.isSigned
      limits := rangeLimits range.length? }
  | .list limit => { limits := [(limitMaxListPageSize, limit.val)] }
  | .delete _ => {}

end Request

end ObjectCommon
