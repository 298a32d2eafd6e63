import ObjectCommon.Catalog.Addressing
import ObjectCommon.Catalog.Surface

/-!
# What a call of the surface stands for

* `Asks` : the request that a normalized Operation carries (`normalized_asks`, `Request.Reads.normalized`);
* `SurfaceCall` : a call of one of the eight methods, with the records and mappings it was given;
* `SurfaceCall.Means` : the Resource and the request that a call stands for, on its own arguments;
* `SurfaceCall.means_iff` : they are what its document denotes;
* `surface_exact` : a call is accepted exactly when it stands for a request, and as this request.
-/

namespace ObjectCommon

open Outcome PyError

variable {P : Packages}

/-! ## Normalized Operations -/

/-- The Operation carries a request on a Resource. -/
structure Asks (operation : Operation) (method : Str) (resource : ResourceRef) (r : Request P) : Prop where
  contract : operation.operationContract = str "meridian.object." ++ method
  resources : operation.resources = [resource]
  reads : r.Reads method operation.input resource

/-- A method that a request is read for is one of the Catalog. -/
theorem Request.Reads.contract {method : Str} {value : Object} {resource : ResourceRef} {r : Request P}
    (h : r.Reads method value resource) :
    ∃ contract, objectOperations.find? (fun c => c.method = method) = some contract ∧
      contract.operationContract = str "meridian.object." ++ method := by
  cases r with
  | publishSchema =>
    obtain ⟨rfl, -⟩ := h
    exact ⟨_, rfl, rfl⟩
  | createResource profile options =>
    obtain ⟨rfl, -⟩ := h
    exact ⟨_, rfl, rfl⟩
  | put p =>
    obtain ⟨rfl, -⟩ := h
    exact ⟨_, rfl, rfl⟩
  | read reference =>
    obtain ⟨rfl | rfl, -⟩ := h
    · exact ⟨_, rfl, rfl⟩
    · exact ⟨_, rfl, rfl⟩
  | readRange reference range =>
    obtain ⟨rfl, -⟩ := h
    exact ⟨_, rfl, rfl⟩
  | list limit =>
    obtain ⟨rfl, -⟩ := h
    exact ⟨_, rfl, rfl⟩
  | delete reference =>
    obtain ⟨rfl, -⟩ := h
    exact ⟨_, rfl, rfl⟩

/-- The request of a put. -/
theorem Request.Reads.exists_put {value : Object} {resource : ResourceRef} {r : Request P}
    (h : r.Reads "put" value resource) : ∃ p, r = .put p ∧ p.Reads P value resource := by
  cases r with
  | put p => exact ⟨p, rfl, h.2.2⟩
  | _ => simp [Request.Reads] at h

/-- The request of a stat or of a get. -/
theorem Request.Reads.exists_read {value : Object} {resource : ResourceRef} {r : Request P} {method : Str}
    (h : r.Reads method value resource) (hm : method = str "get" ∨ method = str "stat") :
    ∃ reference, r = .read reference := by
  obtain rfl | rfl := hm
  all_goals
    cases r with
    | read reference => exact ⟨reference, rfl⟩
    | _ => simp [Request.Reads] at h

/-- The request of a range read. -/
theorem Request.Reads.exists_readRange {value : Object} {resource : ResourceRef} {r : Request P}
    (h : r.Reads "read_range" value resource) :
    ∃ reference range, r = .readRange reference range ∧ ReadsRange value range := by
  cases r with
  | readRange reference range => exact ⟨reference, range, rfl, h.2.2.2.2⟩
  | _ => simp [Request.Reads] at h

/-- The request of a delete. -/
theorem Request.Reads.exists_delete {value : Object} {resource : ResourceRef} {r : Request P}
    (h : r.Reads "delete" value resource) :
    ∃ reference, r = .delete reference ∧ ReadsReference value resource "delete" true reference := by
  cases r with
  | delete reference => exact ⟨reference, rfl, h.2.2.2.1⟩
  | _ => simp [Request.Reads] at h

/-- The request of a list. -/
theorem Request.Reads.exists_list {value : Object} {resource : ResourceRef} {r : Request P}
    (h : r.Reads "list" value resource) : ∃ limit, r = .list limit := by
  cases r with
  | list limit => exact ⟨limit, rfl⟩
  | _ => simp [Request.Reads] at h

/-- **What normalization returns carries a request.** -/
theorem normalized_asks (hP : P.RoundTrips) (hF : P.FindsOperations) {e : Expression} {operation : Operation}
    (h : normalize P e = .ok operation) :
    ∃ resource, ∃ r : Request P, r.Reads e.method e.arguments resource ∧ Asks operation e.method resource r.canonical := by
  obtain ⟨contract, resource, r, haccepts, rfl⟩ := normalize_eq_ok.mp h
  obtain ⟨contract', hfind, hcontract⟩ := haccepts.reads.contract
  obtain rfl : contract = contract' :=
    Except.ok.inj (haccepts.method.symm.trans (hF.operationFor _ _ _ hfind))
  exact ⟨resource, r, haccepts.reads, hcontract, rfl, Request.reads_canonical hP e.wellFormed haccepts.reads⟩

/-- **A request that public arguments denote is normalized**, and the Operation carries it. -/
theorem Request.Reads.normalized (hP : P.RoundTrips) (hF : P.FindsOperations) (hA : P.Admits) {e : Expression}
    {resource : ResourceRef} {r : Request P} (hcatalog : e.catalog = str "object")
    (hpublic : ¬ HasPrivateKey (.obj e.arguments)) (hr : r.Reads e.method e.arguments resource) :
    ∃ operation, normalize P e = .ok operation ∧ Asks operation e.method resource r.canonical ∧
      operation.input = Dict.update e.arguments r.updates := by
  obtain ⟨contract, hfind, hcontract⟩ := hr.contract
  have hread : ReadAs P e contract resource r := ⟨hcatalog, hF.operationFor _ _ _ hfind, hpublic, hr⟩
  exact ⟨operationOf P e contract resource r, normalize_eq_ok.mpr ⟨contract, resource, r, hread.accepts hA, rfl⟩,
    ⟨hcontract, rfl, Request.reads_canonical hP e.wellFormed hr⟩, rfl⟩

/-! ## References -/

namespace LogicalReference

/-- A reference whose document can be read: the deadline of a signed one is a timestamp. -/
def IsReadable : LogicalReference P → Prop
  | .object _ => True
  | .signed s => IsTimestamp s.expiresAt

/-- **The document of a reference is read as this reference**, or not at all. -/
theorem parse_toDict_iff (hP : P.RoundTrips) {reference parsed : LogicalReference P} :
    parseLogicalReference P reference.toDict = .ok parsed ↔ parsed = reference ∧ reference.IsReadable := by
  cases reference with
  | object r =>
    have hread : parseLogicalReference P (LogicalReference.toDict (.object r)) = .ok (.object r) := by
      refine parseLogicalReference_object_eq_ok.mpr ⟨fun hformat => ?_, readObjectReference_toDict hP r⟩
      rw [HasSignedFormat, LogicalReference.toDict, get?_referenceToDict_formatVersion hP r] at hformat
      cases hformat
    rw [hread, Except.ok.injEq, eq_comm]
    simp [IsReadable]
  | signed s =>
    have hformat : HasSignedFormat (LogicalReference.toDict (.signed s)) := hasSignedFormat_documentOver s _ _
    constructor
    · intro h
      cases parsed with
      | object r =>
        exact absurd hformat (parseLogicalReference_object_eq_ok.mp h).1
      | signed s' =>
        obtain ⟨-, hs⟩ := parseLogicalReference_signed_eq_ok.mp h
        obtain ⟨raw, ops, hsame, -, -, ht⟩ := (SignedObjectReference.fromMapping_eq_ok hP).mp hs
        have hexpiry : s.expiresAt = s'.expiresAt := by
          simpa [toDict, SignedObjectReference.toDict, SignedObjectReference.documentOver,
            SignedObjectReference.claimsOver] using hsame "expiresAt"
        rw [← hexpiry] at ht
        have hs' := SignedObjectReference.fromMapping_toDict hP ht
        exact ⟨congrArg _ (Except.ok.inj (hs.symm.trans hs')), ht⟩
    · rintro ⟨rfl, ht⟩
      exact parseLogicalReference_signed_eq_ok.mpr ⟨hformat, SignedObjectReference.fromMapping_toDict hP ht⟩

end LogicalReference

/-! ## Calls -/

open ObjectCatalogSurface in
/-- A call of the surface. -/
inductive SurfaceCall (P : Packages) where
  | publishSchema (namespaceName name version : Str) (definition : Document) (expectedRegistryRevision : Option Int)
      (allowBreaking : Bool)
  | createResource (namespaceName name : Str) (profile : Option (Given P.ObjectProfile)) (options : Document)
  | put (a : PutArguments)
  | get (resource : Wire) (reference : Given (LogicalReference P))
  | stat (resource : Wire) (reference : Given (LogicalReference P))
  | readRange (resource : Wire) (reference : Given (LogicalReference P)) (byteRange : Given ByteRange)
  | list (resource : Wire) (listPrefix : Str) (limit : Int) (cursor : Option Str) (purpose : Str)
  | delete (resource : Wire) (reference : Given (LogicalReference P)) (reason : Option Str)

/-- The Resource that an argument names, without private configuration. -/
structure NamesResource (P : Packages) (value : ObjectCatalogSurface.Wire) (resource : ResourceRef) : Prop where
  parses : P.parseResourceRef value.val "object" = .ok resource
  isPublic : ¬ HasPrivateKey value.val

namespace ObjectCatalogSurface.Given

/-- The document of a reference. -/
def referenceDocument (given : Given (LogicalReference P)) : Document :=
  given.wire fun reference => ⟨reference.toDict, reference.toDict_wellFormed⟩

/-- A reference, as `_wire` leaves it. -/
def referenceWire (given : Given (LogicalReference P)) : Wire :=
  ⟨.obj given.referenceDocument.val, given.referenceDocument.2⟩

/-- The reference that is given: a record whose document can be read, or the one that a public mapping denotes. -/
def IsReference : Given (LogicalReference P) → LogicalReference P → Prop
  | record given, reference => reference = given ∧ given.IsReadable
  | mapping d, reference => parseLogicalReference P d.val = .ok reference ∧ ¬ HasPrivateKey (.obj d.val)

/-- The profile that is given: a record, the default one, or the one that a mapping denotes. -/
def IsProfile (P : Packages) : Option (Given P.ObjectProfile) → P.ObjectProfile → Prop
  | none, profile => profile = P.defaultObjectProfile
  | some (record given), profile => profile = given
  | some (mapping d), profile => parseObjectProfile P d.val = .ok profile

end ObjectCatalogSurface.Given

open ObjectCatalogSurface in
/-- A reference that a method may use on a Resource. -/
structure MayUse (method : Str) (requireDigest : Bool) (resource : ResourceRef) (given : Given (LogicalReference P))
    (reference : LogicalReference P) : Prop where
  isReference : given.IsReference reference
  permits : reference.Permits method requireDigest
  sameResource : SameResource reference.objectRef resource

/-- The arguments of a put as a request. -/
structure PutArguments.Means (P : Packages) (a : PutArguments) (resource : ResourceRef) (p : PutRequest) : Prop where
  names : NamesResource P ⟨a.resource, a.resource_wellFormed⟩ resource
  payload : a.payload.read PayloadReference.fromMapping = .ok p.payload
  objectId : p.objectId.val = a.objectId
  mediaType : p.mediaType.val.val = a.mediaType
  digest : p.expectedDigest.map Subtype.val = a.expectedDigest.or (p.payload.expectedDigest.map Subtype.val)
  digest_agrees : p.payload.expectedDigest ≠ none → p.payload.expectedDigest = p.expectedDigest
  length : p.expectedLength.map Int.ofNat = a.expectedLength.or (p.payload.expectedLength.map Int.ofNat)
  length_agrees : p.payload.expectedLength ≠ none → p.payload.expectedLength = p.expectedLength
  reference : ∃ semanticResource r, P.newResourceReference resource.namespaceName resource.name = .ok semanticResource ∧
    P.newObjectReference semanticResource (.str p.objectId.val) (wireDigest p.expectedDigest) = .ok r
  userMetadata : p.userMetadata = sortedItems a.userMetadata
  userMetadata_bounded : a.userMetadata.length ≤ 128 ∧ BoundedItems 128 2048 a.userMetadata
  creationContext : p.creationContext = a.creationContext
  provenance : p.provenance = a.provenance
  immutability : NullableDocument ImmutabilityRequest.fromMapping a.immutability p.immutability
  retention : NullableDocument RetentionRequest.fromMapping a.retention p.retention
  createOnly : p.createOnly = a.createOnly
  isPublic : ∀ v ∈ [Json.obj (wireStrings a.userMetadata), .obj a.creationContext, .obj a.provenance, a.immutability,
    a.retention], ¬ HasPrivateKey v

namespace SurfaceCall

/-- The Expression that the surface builds. -/
def expression : SurfaceCall P → Py Expression
  | publishSchema namespaceName name version definition expectedRegistryRevision allowBreaking =>
    .ok (ObjectCatalogSurface.publishSchema namespaceName name version definition expectedRegistryRevision allowBreaking)
  | createResource namespaceName name profile options =>
    .ok (ObjectCatalogSurface.createResource P namespaceName name profile options)
  | put a => ObjectCatalogSurface.put a
  | get resource reference => .ok (ObjectCatalogSurface.get resource reference.referenceWire)
  | stat resource reference => .ok (ObjectCatalogSurface.stat resource reference.referenceWire)
  | readRange resource reference byteRange => ObjectCatalogSurface.readRange resource reference.referenceWire byteRange
  | list resource listPrefix limit cursor purpose =>
    .ok (ObjectCatalogSurface.list resource listPrefix limit cursor purpose)
  | delete resource reference reason => .ok (ObjectCatalogSurface.delete resource reference.referenceWire reason)

open ObjectCatalogSurface.Given in
/-- **What a call stands for**: a Resource and a request. -/
def Means : SurfaceCall P → ResourceRef → Request P → Prop
  | publishSchema namespaceName name version definition expectedRegistryRevision _, resource, r =>
    resource = objectRegistryRef ∧ r = .publishSchema ∧ ¬ HasPrivateKey (.obj definition.val) ∧
      (∃ ref, P.newResourceRef "object" (.str namespaceName) (.str name) = .ok ref) ∧
      P.newSchemaRef "object" (.str namespaceName) (.str name) (.str version) = .ok () ∧
      ∀ revision ∈ expectedRegistryRevision, 0 ≤ revision
  | createResource namespaceName name profile options, resource, r =>
    resource = objectRegistryRef ∧ (∃ selected, IsProfile P profile selected ∧ r = .createResource selected options.val) ∧
      ¬ HasPrivateKey (.obj (ObjectCatalogSurface.selectedProfile P profile).val) ∧ ¬ HasPrivateKey (.obj options.val) ∧
      ∃ ref, P.newResourceRef "object" (.str namespaceName) (.str name) = .ok ref
  | put a, resource, r => ∃ p, a.Means P resource p ∧ r = .put p
  | get value given, resource, r =>
    NamesResource P value resource ∧ ∃ reference, MayUse "get" false resource given reference ∧ r = .read reference
  | stat value given, resource, r =>
    NamesResource P value resource ∧ ∃ reference, MayUse "stat" false resource given reference ∧ r = .read reference
  | readRange value given byteRange, resource, r =>
    NamesResource P value resource ∧ ∃ reference selectedRange, MayUse "read_range" false resource given reference ∧
      byteRange.read ByteRange.fromMapping = .ok selectedRange ∧ r = .readRange reference selectedRange
  | list value listPrefix limit cursor purpose, resource, r =>
    NamesResource P value resource ∧ (∃ n, utf8Length listPrefix = some n ∧ n ≤ 1024) ∧
      listPrefix.any isControl = false ∧ (∃ page : Positive, limit = page.val ∧ page.val ≤ 1000 ∧ r = .list page) ∧
      (∀ c ∈ cursor, IsBounded 2048 c) ∧ purpose = str "maintenance"
  | delete value given reason, resource, r =>
    NamesResource P value resource ∧ (∀ t ∈ reason, IsBounded 1024 t) ∧
      ∃ reference, MayUse "delete" true resource given reference ∧ r = .delete reference

end SurfaceCall

/-! ## What a document denotes -/

variable {value : Object} {resource : ResourceRef} {r : Request P} {method : Str}

/-- Under public field names a document is public when its members are. -/
theorem not_hasPrivateKey_iff {d : Object} (fields : List String) (hd : Dict.keys d = fields.map str)
    (hf : ∀ f ∈ fields, ¬ IsPrivate (str f)) : ¬ HasPrivateKey (.obj d) ↔ ∀ e ∈ d, ¬ HasPrivateKey e.2 := by
  constructor
  · intro h e he hprivate
    exact h (hasPrivateKey_obj.mpr ⟨e, he, Or.inr hprivate⟩)
  · exact not_hasPrivateKey_fields fields hd hf

theorem wireStrings_injective : Function.Injective wireStrings := by
  refine List.map_injective_iff.mpr fun a b h => ?_
  obtain ⟨hk, hv⟩ := Prod.mk.inj h
  exact Prod.ext hk (Json.str.inj hv)

theorem readsResource_iff {v : ObjectCatalogSurface.Wire} (hget : Dict.get? value "resource" = some v.val) :
    ReadsResource P value resource ∧ ¬ HasPrivateKey v.val ↔ NamesResource P v resource := by
  rw [ReadsResource, hget, Option.getD_some, parseResource, mapError_eq_ok]
  exact ⟨fun h => ⟨h.1, h.2⟩, fun h => ⟨h.parses, h.isPublic⟩⟩

/-- What a public document of a reference denotes. -/
theorem readsReference_iff (hP : P.RoundTrips) (hK : P.AddsNoPrivateKey)
    {given : ObjectCatalogSurface.Given (LogicalReference P)} {reference : LogicalReference P} {requireDigest : Bool}
    (hget : Dict.get? value "reference" = some given.referenceWire.val) :
    ReadsReference value resource method requireDigest reference ∧ ¬ HasPrivateKey given.referenceWire.val ↔
      MayUse method requireDigest resource given reference := by
  have hgiven : (∃ raw, Dict.get? value "reference" = some (.obj raw) ∧ parseLogicalReference P raw = .ok reference) ∧
      ¬ HasPrivateKey given.referenceWire.val ↔ given.IsReference reference := by
    cases given with
    | record r =>
      have hparse : parseLogicalReference P r.toDict = .ok reference ↔ reference = r ∧ r.IsReadable :=
        LogicalReference.parse_toDict_iff hP
      constructor
      · rintro ⟨⟨raw, hraw, h⟩, -⟩
        obtain rfl := Json.obj.inj (Option.some.inj (hget.symm.trans hraw))
        exact hparse.mp h
      · intro h
        exact ⟨⟨_, hget, hparse.mpr h⟩, r.toDict_public hK⟩
    | mapping d =>
      constructor
      · rintro ⟨⟨raw, hraw, h⟩, hpublic⟩
        obtain rfl := Json.obj.inj (Option.some.inj (hget.symm.trans hraw))
        exact ⟨h, hpublic⟩
      · rintro ⟨h, hpublic⟩
        exact ⟨⟨_, hget, h⟩, hpublic⟩
  constructor
  · rintro ⟨⟨hdocument, hpermits, hsame⟩, hpublic⟩
    exact ⟨hgiven.mp ⟨hdocument, hpublic⟩, hpermits, hsame⟩
  · rintro ⟨hreference, hpermits, hsame⟩
    obtain ⟨hdocument, hpublic⟩ := hgiven.mpr hreference
    exact ⟨⟨hdocument, hpermits, hsame⟩, hpublic⟩

/-- The value of an optional bounded string is one within its bound. -/
theorem exists_wireString {maximum : Nat} {text : Option Str} :
    (∃ c : Option (BoundedString maximum), Json.nullable .str text = wireString c) ↔
      ∀ t ∈ text, IsBounded maximum t := by
  cases text with
  | none => exact iff_of_true ⟨none, rfl⟩ nofun
  | some t =>
    constructor
    · rintro ⟨c, hc⟩ t' ht'
      obtain rfl := Option.some.inj ht'
      cases c with
      | none => cases hc
      | some c =>
        obtain rfl := Json.str.inj hc
        exact c.2
    · intro h
      exact ⟨some ⟨t, h t rfl⟩, rfl⟩

theorem nullable_eq_wireDigest {text : Option Str} {d : Option Digest} :
    Json.nullable .str text = wireDigest d ↔ d.map Subtype.val = text := by
  cases text <;> cases d <;> simp [wireDigest, eq_comm]

/-- The value of an optional number is one that is not negative. -/
theorem exists_wireNat {number : Option Int} :
    (∃ n, Json.nullable .int number = ByteRange.wireNat n) ↔ ∀ i ∈ number, 0 ≤ i := by
  cases number with
  | none => exact iff_of_true ⟨none, rfl⟩ nofun
  | some i =>
    constructor
    · rintro ⟨n, hn⟩ i' hi'
      obtain rfl := Option.some.inj hi'
      cases n with
      | none => cases hn
      | some n =>
        obtain rfl := Json.int.inj hn
        exact Int.natCast_nonneg n
    · intro h
      obtain ⟨n, rfl⟩ := Int.eq_ofNat_of_zero_le (h i rfl)
      exact ⟨some n, rfl⟩

theorem reads_get_iff (hm : method = str "get" ∨ method = str "stat") :
    r.Reads method value resource ↔ ∃ reference, r = .read reference ∧ ReadsResource P value resource ∧
      exactFields value ["resource", "reference"] = .ok () ∧ ReadsReference value resource method false reference := by
  constructor
  · intro h
    obtain ⟨reference, rfl⟩ := h.exists_read hm
    exact ⟨reference, rfl, h.2⟩
  · rintro ⟨reference, rfl, h⟩
    exact ⟨hm, h⟩

theorem reads_readRange_iff :
    r.Reads "read_range" value resource ↔ ∃ reference range, r = .readRange reference range ∧
      ReadsResource P value resource ∧ exactFields value ["resource", "reference", "range"] = .ok () ∧
      ReadsReference value resource "read_range" false reference ∧ ReadsRange value range := by
  cases r <;> simp [Request.Reads]

theorem reads_list_iff :
    r.Reads "list" value resource ↔ ∃ limit, r = .list limit ∧ ReadsResource P value resource ∧ ReadsList value limit := by
  cases r <;> simp [Request.Reads]

theorem reads_delete_iff :
    r.Reads "delete" value resource ↔ ∃ reference, r = .delete reference ∧ ReadsResource P value resource ∧
      exactFields value ["resource", "reference", "reason"] = .ok () ∧
      ReadsReference value resource "delete" true reference ∧ ReadsReason value := by
  cases r <;> simp [Request.Reads]

theorem reads_put_iff :
    r.Reads "put" value resource ↔ ∃ p, r = .put p ∧ ReadsResource P value resource ∧ p.Reads P value resource := by
  cases r <;> simp [Request.Reads]

theorem reads_publishSchema_iff :
    r.Reads "publish_schema" value resource ↔
      r = .publishSchema ∧ resource = objectRegistryRef ∧ ReadsPublishSchema P value := by
  cases r <;> simp [Request.Reads]

theorem reads_createResource_iff :
    r.Reads "create_resource" value resource ↔ ∃ profile options, r = .createResource profile options ∧
      resource = objectRegistryRef ∧ ReadsCreateResource P value profile options := by
  cases r <;> simp [Request.Reads]

namespace SurfaceCall

open ObjectCatalogSurface

variable {resource' : Wire} {given : Given (LogicalReference P)}

theorem means_read (hP : P.RoundTrips) (hK : P.AddsNoPrivateKey) (hm : method = str "get" ∨ method = str "stat") :
    (¬ HasPrivateKey (.obj [("resource", resource'.val), ("reference", given.referenceWire.val)]) ∧
      r.Reads method [("resource", resource'.val), ("reference", given.referenceWire.val)] resource) ↔
      NamesResource P resource' resource ∧
        ∃ reference, MayUse method false resource given reference ∧ r = .read reference := by
  have hnames : ReadsResource P [("resource", resource'.val), ("reference", given.referenceWire.val)] resource ∧
      ¬ HasPrivateKey resource'.val ↔ NamesResource P resource' resource := readsResource_iff rfl
  have huses : ∀ reference, ReadsReference [("resource", resource'.val), ("reference", given.referenceWire.val)] resource
      method false reference ∧ ¬ HasPrivateKey given.referenceWire.val ↔ MayUse method false resource given reference :=
    fun _ => readsReference_iff hP hK rfl
  rw [not_hasPrivateKey_iff ["resource", "reference"] rfl (by decide), reads_get_iff hm]
  simp only [List.forall_mem_cons, List.not_mem_nil, false_imp_iff, implies_true, and_true]
  constructor
  · rintro ⟨⟨hresource, hreference⟩, reference, rfl, hres, -, hreads⟩
    exact ⟨hnames.mp ⟨hres, hresource⟩, reference, (huses reference).mp ⟨hreads, hreference⟩, rfl⟩
  · rintro ⟨hnamed, reference, huse, rfl⟩
    obtain ⟨hres, hresource⟩ := hnames.mpr hnamed
    obtain ⟨hreads, hreference⟩ := (huses reference).mpr huse
    exact ⟨⟨hresource, hreference⟩, reference, rfl, hres, exactFields_eq_ok.mpr (by simp), hreads⟩

theorem means_readRange (hP : P.RoundTrips) (hK : P.AddsNoPrivateKey) {selectedRange : ByteRange} :
    (¬ HasPrivateKey (.obj (readRangeOf resource' given.referenceWire selectedRange).arguments) ∧
      r.Reads "read_range" (readRangeOf resource' given.referenceWire selectedRange).arguments resource) ↔
      NamesResource P resource' resource ∧ ∃ reference, MayUse "read_range" false resource given reference ∧
        r = .readRange reference selectedRange := by
  unfold readRangeOf ObjectCatalogSurface.expression
  have hnames : ReadsResource P [("resource", resource'.val), ("reference", given.referenceWire.val),
      ("range", .obj selectedRange.toDict)] resource ∧ ¬ HasPrivateKey resource'.val ↔
        NamesResource P resource' resource := readsResource_iff rfl
  have huses : ∀ reference, ReadsReference [("resource", resource'.val), ("reference", given.referenceWire.val),
      ("range", .obj selectedRange.toDict)] resource "read_range" false reference ∧
        ¬ HasPrivateKey given.referenceWire.val ↔ MayUse "read_range" false resource given reference :=
    fun _ => readsReference_iff hP hK rfl
  rw [not_hasPrivateKey_iff ["resource", "reference", "range"] rfl (by decide), reads_readRange_iff]
  simp only [List.forall_mem_cons, List.not_mem_nil, false_imp_iff, implies_true, and_true]
  constructor
  · rintro ⟨⟨hresource, hreference, -⟩, reference, range, rfl, hres, -, hreads, raw, hraw, hparse⟩
    obtain rfl : selectedRange.toDict = raw := Json.obj.inj (Option.some.inj hraw)
    obtain rfl := Except.ok.inj (hparse.symm.trans selectedRange.fromMapping_toDict)
    exact ⟨hnames.mp ⟨hres, hresource⟩, reference, (huses reference).mp ⟨hreads, hreference⟩, rfl⟩
  · rintro ⟨hnamed, reference, huse, rfl⟩
    obtain ⟨hres, hresource⟩ := hnames.mpr hnamed
    obtain ⟨hreads, hreference⟩ := (huses reference).mpr huse
    exact ⟨⟨hresource, hreference, selectedRange.toDict_public⟩, reference, selectedRange, rfl, hres,
      exactFields_eq_ok.mpr (by simp), hreads, _, rfl, selectedRange.fromMapping_toDict⟩

theorem means_list {first : Str} {limit : Int} {cursor : Option Str} {purpose : Str} :
    (¬ HasPrivateKey (.obj (ObjectCatalogSurface.list resource' first limit cursor purpose).arguments) ∧
      r.Reads "list" (ObjectCatalogSurface.list resource' first limit cursor purpose).arguments resource) ↔
      (SurfaceCall.list resource' first limit cursor purpose).Means resource r := by
  unfold ObjectCatalogSurface.list ObjectCatalogSurface.expression
  have hcursor : ¬ HasPrivateKey (.nullable .str cursor) := not_hasPrivateKey_nullable not_hasPrivateKey_str cursor
  have hnames : ReadsResource P [("resource", resource'.val), ("prefix", .str first), ("limit", .int limit),
      ("cursor", .nullable .str cursor), ("purpose", .str purpose)] resource ∧ ¬ HasPrivateKey resource'.val ↔
        NamesResource P resource' resource := readsResource_iff rfl
  rw [not_hasPrivateKey_iff ["resource", "prefix", "limit", "cursor", "purpose"] rfl (by decide), reads_list_iff]
  show _ ↔ NamesResource P resource' resource ∧ _
  rw [← hnames]
  constructor
  · rintro ⟨hpublic, page, rfl, hres, -, ⟨s, n, hs, hn, hle, hcontrol⟩, hpage, hmax, ⟨c, hc⟩, hpurpose⟩
    obtain rfl : first = s := Json.str.inj (Option.some.inj hs)
    have hlimit : limit = page.val := Json.int.inj (Option.some.inj hpage)
    have hbounded := exists_wireString.mp ⟨c, Option.some.inj hc⟩
    exact ⟨⟨hres, hpublic _ List.mem_cons_self⟩, ⟨n, hn, hle⟩, hcontrol, ⟨page, hlimit, hmax, rfl⟩, hbounded,
      Json.str.inj (Option.some.inj hpurpose)⟩
  · rintro ⟨⟨hres, hpublic⟩, ⟨n, hn, hle⟩, hcontrol, ⟨page, rfl, hmax, rfl⟩, hbounded, rfl⟩
    obtain ⟨c, hc⟩ := exists_wireString.mpr hbounded
    refine ⟨?_, page, rfl, hres, exactFields_eq_ok.mpr (by simp), ⟨first, n, rfl, hn, hle, hcontrol⟩, rfl, hmax,
      ⟨c, congrArg some hc⟩, rfl⟩
    simpa using ⟨hpublic, hcursor⟩

theorem means_delete (hP : P.RoundTrips) (hK : P.AddsNoPrivateKey) {reason : Option Str} :
    (¬ HasPrivateKey (.obj (ObjectCatalogSurface.delete resource' given.referenceWire reason).arguments) ∧
      r.Reads "delete" (ObjectCatalogSurface.delete resource' given.referenceWire reason).arguments resource) ↔
      (SurfaceCall.delete resource' given reason).Means resource r := by
  unfold ObjectCatalogSurface.delete ObjectCatalogSurface.expression
  have hreason : ¬ HasPrivateKey (.nullable .str reason) := not_hasPrivateKey_nullable not_hasPrivateKey_str reason
  have hnames : ReadsResource P [("resource", resource'.val), ("reference", given.referenceWire.val),
      ("reason", .nullable .str reason)] resource ∧ ¬ HasPrivateKey resource'.val ↔ NamesResource P resource' resource :=
    readsResource_iff rfl
  have huses : ∀ reference, ReadsReference [("resource", resource'.val), ("reference", given.referenceWire.val),
      ("reason", .nullable .str reason)] resource "delete" true reference ∧ ¬ HasPrivateKey given.referenceWire.val ↔
        MayUse "delete" true resource given reference := fun _ => readsReference_iff hP hK rfl
  rw [not_hasPrivateKey_iff ["resource", "reference", "reason"] rfl (by decide), reads_delete_iff]
  simp only [List.forall_mem_cons, List.not_mem_nil, false_imp_iff, implies_true, and_true]
  constructor
  · rintro ⟨⟨hresource, hreference, -⟩, reference, rfl, hres, -, hreads, c, hc⟩
    have hbounded := exists_wireString.mp ⟨c, Option.some.inj hc⟩
    exact ⟨hnames.mp ⟨hres, hresource⟩, hbounded, reference, (huses reference).mp ⟨hreads, hreference⟩, rfl⟩
  · rintro ⟨hnamed, hbounded, reference, huse, rfl⟩
    obtain ⟨hres, hresource⟩ := hnames.mpr hnamed
    obtain ⟨hreads, hreference⟩ := (huses reference).mpr huse
    obtain ⟨c, hc⟩ := exists_wireString.mpr hbounded
    exact ⟨⟨hresource, hreference, hreason⟩, reference, rfl, hres, exactFields_eq_ok.mpr (by simp), hreads, c,
      congrArg some hc⟩

theorem means_publishSchema {namespaceName name version : Str} {definition : Document} {revision : Option Int}
    {allowBreaking : Bool} :
    (¬ HasPrivateKey (.obj (ObjectCatalogSurface.publishSchema namespaceName name version definition revision
        allowBreaking).arguments) ∧
      r.Reads "publish_schema" (ObjectCatalogSurface.publishSchema namespaceName name version definition revision
        allowBreaking).arguments resource) ↔
      (SurfaceCall.publishSchema namespaceName name version definition revision allowBreaking).Means resource r := by
  unfold ObjectCatalogSurface.publishSchema ObjectCatalogSurface.expression
  have hrevision : ¬ HasPrivateKey (.nullable .int revision) := not_hasPrivateKey_nullable not_hasPrivateKey_int revision
  rw [not_hasPrivateKey_iff ["namespace", "name", "version", "definition", "allowBreaking", "expectedRegistryRevision"] rfl
    (by decide), reads_publishSchema_iff]
  constructor
  · rintro ⟨hpublic, rfl, rfl, -, ⟨n, m, v, ref, hn, hm, href, hv, hschema⟩, -, -, count, hcount⟩
    obtain rfl : Json.str namespaceName = n := Option.some.inj hn
    obtain rfl : Json.str name = m := Option.some.inj hm
    obtain rfl : Json.str version = v := Option.some.inj hv
    have hdefinition : ¬ HasPrivateKey (.obj definition.val) := hpublic ("definition", .obj definition.val) (by simp)
    exact ⟨rfl, rfl, hdefinition, ⟨ref, href⟩, hschema, exists_wireNat.mp ⟨count, Option.some.inj hcount⟩⟩
  · rintro ⟨rfl, rfl, hdefinition, ⟨ref, href⟩, hschema, hnonneg⟩
    obtain ⟨count, hcount⟩ := exists_wireNat.mpr hnonneg
    refine ⟨?_, rfl, rfl, exactFields_eq_ok.mpr (by simp), ⟨_, _, _, ref, rfl, rfl, href, rfl, hschema⟩, ⟨_, rfl⟩, ⟨_, rfl⟩,
      count, congrArg some hcount⟩
    simpa using ⟨hdefinition, hrevision⟩

/-- What the document of the selected profile denotes is the profile that is given. -/
theorem parseObjectProfile_selectedProfile (hP : P.RoundTrips) {profile : Option (Given P.ObjectProfile)}
    {selected : P.ObjectProfile} :
    parseObjectProfile P (selectedProfile P profile).val = .ok selected ↔ Given.IsProfile P profile selected := by
  have hrecord : ∀ profile, parseObjectProfile P (P.profileToDict profile) = .ok selected ↔ selected = profile := by
    intro profile
    rw [parseObjectProfile_toDict hP, Except.ok.injEq, eq_comm]
  cases profile with
  | none => exact hrecord _
  | some profile =>
    cases profile with
    | record profile => exact hrecord profile
    | mapping d => exact Iff.rfl

theorem means_createResource (hP : P.RoundTrips) {namespaceName name : Str} {profile : Option (Given P.ObjectProfile)}
    {options : Document} :
    (¬ HasPrivateKey (.obj (ObjectCatalogSurface.createResource P namespaceName name profile options).arguments) ∧
      r.Reads "create_resource" (ObjectCatalogSurface.createResource P namespaceName name profile options).arguments
        resource) ↔
      (SurfaceCall.createResource namespaceName name profile options).Means resource r := by
  unfold ObjectCatalogSurface.createResource ObjectCatalogSurface.expression
  have hprofile : ∀ selected, parseObjectProfile P (selectedProfile P profile).val = .ok selected ↔
      Given.IsProfile P profile selected := fun _ => parseObjectProfile_selectedProfile hP
  rw [not_hasPrivateKey_iff ["namespace", "name", "profile", "options"] rfl (by decide), reads_createResource_iff]
  constructor
  · rintro ⟨hpublic, selected, chosen, rfl, rfl, -, ⟨n, m, ref, hn, hm, href⟩, ⟨raw, hraw, hparse⟩, hoptions⟩
    obtain rfl : Json.str namespaceName = n := Option.some.inj hn
    obtain rfl : Json.str name = m := Option.some.inj hm
    obtain rfl : (selectedProfile P profile).val = raw := Json.obj.inj (Option.some.inj hraw)
    obtain rfl : options.val = chosen := Json.obj.inj (Option.some.inj hoptions)
    exact ⟨rfl, ⟨selected, (hprofile selected).mp hparse, rfl⟩,
      hpublic ("profile", .obj (selectedProfile P profile).val) (by simp), hpublic ("options", .obj options.val) (by simp),
      ref, href⟩
  · rintro ⟨rfl, ⟨selected, hselected, rfl⟩, hdocument, hoptions, ref, href⟩
    refine ⟨?_, selected, _, rfl, rfl, exactFields_eq_ok.mpr (by simp), ⟨_, _, ref, rfl, rfl, href⟩,
      ⟨_, rfl, (hprofile selected).mpr hselected⟩, rfl⟩
    simpa using ⟨hdocument, hoptions⟩

/-- A length of its own or of the payload, as the number it is. -/
theorem nullable_eq_wireNat {number : Option Int} {n : Option Nat} :
    Json.nullable .int number = ByteRange.wireNat n ↔ n.map Int.ofNat = number := by
  cases number <;> cases n <;> simp [ByteRange.wireNat, eq_comm]

theorem means_put {a : PutArguments} {payload : PayloadReference}
    (hread : a.payload.read PayloadReference.fromMapping = .ok payload) :
    (¬ HasPrivateKey (.obj (putArguments payload a)) ∧ r.Reads "put" (putArguments payload a) resource) ↔
      (SurfaceCall.put a).Means resource r := by
  have hpayload := payload.toDict_public
  have hdigest : ∀ d : Option Str, ¬ HasPrivateKey (.nullable .str d) := not_hasPrivateKey_nullable not_hasPrivateKey_str
  have hlength : ∀ l : Option Int, ¬ HasPrivateKey (.nullable .int l) := not_hasPrivateKey_nullable not_hasPrivateKey_int
  have hnames : ReadsResource P (putArguments payload a) resource ∧ ¬ HasPrivateKey a.resource ↔
      NamesResource P ⟨a.resource, a.resource_wellFormed⟩ resource :=
    readsResource_iff (v := ⟨a.resource, a.resource_wellFormed⟩) rfl
  rw [not_hasPrivateKey_iff putFields rfl (by decide), reads_put_iff]
  constructor
  · rintro ⟨hpublic, p, rfl, hres, hp⟩
    obtain ⟨⟨raw, hraw, hparse⟩, hd, hl, hda, hla⟩ := hp.integrity
    obtain ⟨hmedia, hid, href⟩ := hp.identity
    obtain ⟨⟨entries, hentries, hstrings⟩, hcontext, hprovenance⟩ := hp.metadata
    obtain ⟨⟨i, hi, himmutability⟩, t, ht, hretention⟩ := hp.intents
    obtain rfl : payload.toDict = raw := Json.obj.inj (Option.some.inj hraw)
    obtain rfl : payload = p.payload := Except.ok.inj (payload.fromMapping_toDict.symm.trans hparse)
    obtain rfl : wireStrings a.userMetadata = entries := Json.obj.inj (Option.some.inj hentries)
    have hnodup : (Dict.keys (wireStrings a.userMetadata)).Nodup := by
      rw [keys_wireStrings]
      exact a.userMetadata_nodup
    obtain ⟨items, hitems, hcount, hbounded, hsorted⟩ := (stringMapping_eq_ok hnodup).mp hstrings
    obtain rfl := wireStrings_injective hitems
    have hmembers : ∀ v ∈ [Json.obj (wireStrings a.userMetadata), .obj a.creationContext, .obj a.provenance, a.immutability,
        a.retention], ¬ HasPrivateKey v := by
      simp only [putArguments, List.forall_mem_cons] at hpublic
      obtain ⟨-, -, -, -, -, -, hstrings, hcontext, hprovenance, hi, hr, -⟩ := hpublic
      simpa using ⟨hstrings, hcontext, hprovenance, hi, hr⟩
    exact ⟨p,
      { names := hnames.mp ⟨hres, hpublic _ List.mem_cons_self⟩
        payload := hread
        objectId := (Json.str.inj (Option.some.inj hid)).symm
        mediaType := (Json.str.inj (Option.some.inj hmedia)).symm
        digest := nullable_eq_wireDigest.mp (Option.some.inj hd)
        digest_agrees := hda
        length := nullable_eq_wireNat.mp (Option.some.inj hl)
        length_agrees := hla
        reference := href
        userMetadata := hsorted
        userMetadata_bounded := ⟨hcount, hbounded⟩
        creationContext := (Json.obj.inj (Option.some.inj hcontext)).symm
        provenance := (Json.obj.inj (Option.some.inj hprovenance)).symm
        immutability := (Option.some.inj hi).symm ▸ himmutability
        retention := (Option.some.inj ht).symm ▸ hretention
        createOnly := (Json.bool.inj (Option.some.inj hp.createOnly)).symm
        isPublic := hmembers }, rfl⟩
  · rintro ⟨p, h, rfl⟩
    obtain ⟨hres, hpublic⟩ := hnames.mpr h.names
    obtain rfl : payload = p.payload := Except.ok.inj (hread.symm.trans h.payload)
    have hnodup : (Dict.keys (wireStrings a.userMetadata)).Nodup := by
      rw [keys_wireStrings]
      exact a.userMetadata_nodup
    have hd : Json.nullable .str (a.expectedDigest.or (p.payload.expectedDigest.map Subtype.val)) =
        wireDigest p.expectedDigest := nullable_eq_wireDigest.mpr h.digest
    have hl : Json.nullable .int (a.expectedLength.or (p.payload.expectedLength.map Int.ofNat)) =
        ByteRange.wireNat p.expectedLength := nullable_eq_wireNat.mpr h.length
    refine ⟨?_, p, rfl, hres, exactFields_eq_ok.mpr (by simp [putArguments, putFields]), ?_, ?_, ?_, ?_, ?_⟩
    · have hmembers := h.isPublic
      simp only [List.forall_mem_cons] at hmembers
      obtain ⟨hstrings, hcontext, hprovenance, hi, hr, -⟩ := hmembers
      simpa [putArguments, hdigest, hlength] using ⟨hpublic, hpayload, hstrings, hcontext, hprovenance, hi, hr⟩
    · exact ⟨⟨_, rfl, p.payload.fromMapping_toDict⟩, congrArg some hd, congrArg some hl, h.digest_agrees, h.length_agrees⟩
    · refine ⟨?_, ?_, h.reference⟩
      · rw [h.mediaType]
        rfl
      · rw [h.objectId]
        rfl
    · refine ⟨⟨_, rfl, (stringMapping_eq_ok hnodup).mpr ?_⟩, ?_, ?_⟩
      · exact ⟨_, rfl, h.userMetadata_bounded.1, h.userMetadata_bounded.2, h.userMetadata⟩
      · rw [h.creationContext]
        rfl
      · rw [h.provenance]
        rfl
    · exact ⟨⟨_, rfl, h.immutability⟩, _, rfl, h.retention⟩
    · rw [h.createOnly]
      rfl

/-- **What a call stands for is what its document denotes**, without private configuration. -/
theorem means_iff (hP : P.RoundTrips) (hK : P.AddsNoPrivateKey) (call : SurfaceCall P) :
    (∃ e, call.expression = .ok e ∧ ¬ HasPrivateKey (.obj e.arguments) ∧ r.Reads e.method e.arguments resource) ↔
      call.Means resource r := by
  have hbuilt : ∀ built : Expression, (∃ e, (.ok built : Py Expression) = .ok e ∧ ¬ HasPrivateKey (.obj e.arguments) ∧
      r.Reads e.method e.arguments resource) ↔
        ¬ HasPrivateKey (.obj built.arguments) ∧ r.Reads built.method built.arguments resource := by simp
  cases call with
  | publishSchema => exact (hbuilt _).trans means_publishSchema
  | createResource => exact (hbuilt _).trans (means_createResource hP)
  | put a =>
    constructor
    · rintro ⟨e, he, h⟩
      obtain ⟨payload, hread, rfl⟩ := put_eq_ok.mp he
      exact (means_put hread).mp h
    · intro hmeans
      obtain ⟨p, h, -⟩ := id hmeans
      exact ⟨_, put_eq_ok.mpr ⟨_, h.payload, rfl⟩, (means_put h.payload).mpr hmeans⟩
  | get => exact (hbuilt _).trans (means_read hP hK (Or.inl rfl))
  | stat => exact (hbuilt _).trans (means_read hP hK (Or.inr rfl))
  | readRange value given byteRange =>
    constructor
    · rintro ⟨e, he, h⟩
      obtain ⟨selectedRange, hread, rfl⟩ := readRange_eq_ok.mp he
      obtain ⟨hnamed, reference, huse, rfl⟩ := (means_readRange hP hK).mp h
      exact ⟨hnamed, reference, selectedRange, huse, hread, rfl⟩
    · rintro ⟨hnamed, reference, selectedRange, huse, hread, rfl⟩
      exact ⟨_, readRange_eq_ok.mpr ⟨_, hread, rfl⟩, (means_readRange hP hK).mpr ⟨hnamed, reference, huse, rfl⟩⟩
  | list => exact (hbuilt _).trans means_list
  | delete => exact (hbuilt _).trans (means_delete hP hK)

/-- What a call builds is an Object Expression. -/
theorem catalog_expression {call : SurfaceCall P} {e : Expression} (h : call.expression = .ok e) :
    e.catalog = str "object" := by
  cases call with
  | put a =>
    obtain ⟨payload, -, rfl⟩ := put_eq_ok.mp h
    rfl
  | readRange value given byteRange =>
    obtain ⟨selectedRange, -, rfl⟩ := readRange_eq_ok.mp h
    rfl
  | _ =>
    cases h
    rfl

/-- A call that stands for a request is normalized, and the Operation carries the request. -/
theorem Means.normalized (hP : P.RoundTrips) (hF : P.FindsOperations) (hA : P.Admits) (hK : P.AddsNoPrivateKey)
    {call : SurfaceCall P} (h : call.Means resource r) :
    ∃ e operation, call.expression = .ok e ∧ normalize P e = .ok operation ∧
      Asks operation e.method resource r.canonical ∧ operation.input = Dict.update e.arguments r.updates := by
  obtain ⟨e, he, hpublic, hreads⟩ := (means_iff hP hK call).mpr h
  obtain ⟨operation, hoperation⟩ := hreads.normalized hP hF hA (catalog_expression he) hpublic
  exact ⟨e, operation, he, hoperation⟩

end SurfaceCall

/-- **The surface is exact.** A call of any of the eight methods is accepted exactly when its arguments stand for a
request on a Resource, and the Operation is that of this request. -/
theorem surface_exact (hP : P.RoundTrips) (hF : P.FindsOperations) (hA : P.Admits) (hK : P.AddsNoPrivateKey)
    (call : SurfaceCall P) {operation : Operation} :
    (call.expression >>= normalize P) = .ok operation ↔
      ∃ e contract resource r, call.expression = .ok e ∧
        objectOperations.find? (fun c => c.method = e.method) = some contract ∧
        call.Means resource r ∧ operation = operationOf P e contract resource r := by
  simp only [bind_eq_ok, normalize_eq_ok]
  constructor
  · rintro ⟨e, he, contract, resource, r, haccepts, rfl⟩
    obtain ⟨contract', hfind, -⟩ := haccepts.reads.contract
    obtain rfl : contract = contract' := Except.ok.inj (haccepts.method.symm.trans (hF.operationFor _ _ _ hfind))
    have hmeans : call.Means resource r :=
      (SurfaceCall.means_iff hP hK call).mp ⟨e, he, haccepts.noPrivateKey, haccepts.reads⟩
    exact ⟨e, contract, resource, r, he, hfind, hmeans, rfl⟩
  · rintro ⟨e, contract, resource, r, he, hfind, hmeans, rfl⟩
    obtain ⟨e', he', hpublic, hreads⟩ := (SurfaceCall.means_iff hP hK call).mpr hmeans
    obtain rfl := Except.ok.inj (he.symm.trans he')
    have hread : ReadAs P e contract resource r :=
      ⟨SurfaceCall.catalog_expression he, hF.operationFor _ _ _ hfind, hpublic, hreads⟩
    exact ⟨e, he, contract, resource, r, hread.accepts hA, rfl⟩

/-- The last four bytes of the fixture; the reference and the range are given as mappings. -/
def suffixCall : SurfaceCall contracts :=
  .readRange ⟨.str "object:fixtures.objects", .str _⟩
    (.mapping ⟨contracts.referenceToDict Contracts.fixture, contracts.referenceToDict_wellFormed _⟩)
    (.mapping ⟨[("suffixLength", .int 4)], .obj (by simp) (by simp [Json.WellFormed.int])⟩)

theorem surface_exact_suffixCall : ∃ operation, (suffixCall.expression >>= normalize contracts) = .ok operation ∧
    operation.resources = [⟨"object", "fixtures", "objects"⟩] := by
  have hnames : NamesResource contracts ⟨.str "object:fixtures.objects", .str _⟩ ⟨"object", "fixtures", "objects"⟩ :=
    ⟨by decide +kernel, not_hasPrivateKey_str _⟩
  have hparse : parseLogicalReference contracts (LogicalReference.toDict (.object Contracts.fixture)) =
      .ok (.object Contracts.fixture) := (LogicalReference.parse_toDict_iff Contracts.roundTrips).mpr ⟨rfl, trivial⟩
  have hreference : MayUse "read_range" false ⟨"object", "fixtures", "objects"⟩
      (.mapping ⟨contracts.referenceToDict Contracts.fixture, contracts.referenceToDict_wellFormed _⟩)
      (.object Contracts.fixture : LogicalReference contracts) :=
    ⟨⟨hparse, Contracts.addsNoPrivateKey.referenceToDict _⟩, nofun, rfl, rfl, rfl⟩
  have hmeans : suffixCall.Means ⟨"object", "fixtures", "objects"⟩
      (.readRange (.object Contracts.fixture) ⟨none, none, some 4, rfl, rfl, by decide⟩) :=
    ⟨hnames, _, _, hreference, rfl, rfl⟩
  exact ⟨_, (surface_exact Contracts.roundTrips Contracts.findsOperations Contracts.admits Contracts.addsNoPrivateKey
    suffixCall).mpr ⟨_, _, _, _, rfl, rfl, hmeans, rfl⟩, rfl⟩

end ObjectCommon
