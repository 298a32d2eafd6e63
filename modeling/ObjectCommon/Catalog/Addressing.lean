import ObjectCommon.Catalog.Boundary

/-!
# Every Object that can be put can be addressed

The operations check an Object id in their own ways: `bounded_string` in a put, the constructor of Semantics
in a reference, and the checks of a list prefix.

* `Packages.ResolvesResources`, `Packages.AcceptsEveryDigest` : what is relied on of Semantics;
* `exactReference` : the document of an exact reference to an Object;
* `Addressable` : the Expressions that address an Object are accepted, for its Resource;
* `put_addressable` : they are for every Object whose put is.
-/

namespace ObjectCommon

open Outcome PyError

variable {P : Packages}

/-! ## References -/

/-- The canonical mapping of an Object Resource. -/
def resourceRefDocument (namespaceName name : Str) : Object :=
  [("catalog", .str "object"), ("namespace", .str namespaceName), ("name", .str name)]

/-- The document of the reference to the content with a digest of an Object in a Resource. -/
def exactReference (resource : ResourceRef) (objectId : Str) (d : Digest) : Object :=
  [("resourceRef", .obj (resourceRefDocument resource.namespaceName resource.name)), ("objectId", .str objectId),
    ("digest", .str d.val)]

/-- An Object Resource is read under its Catalog. The Resource that Semantics constructs from its names stores them, and
is what their canonical mapping parses as. -/
structure Packages.ResolvesResources (P : Packages) : Prop where
  parseResourceRef : ∀ value r, P.parseResourceRef value "object" = .ok r → r.catalog = str "object"
  newResourceReference : ∀ value r s, P.parseResourceRef value "object" = .ok r →
    P.newResourceReference r.namespaceName r.name = .ok s →
      s = ⟨"object", r.namespaceName, r.name⟩ ∧
        P.parseResourceReference (resourceRefDocument r.namespaceName r.name) = .ok s

/-- An Object reference is accepted whatever well-formed digest it has, or none. -/
structure Packages.AcceptsEveryDigest (P : Packages) : Prop where
  newObjectReference : ∀ resource objectId (d d' : Option Digest) r,
    P.newObjectReference resource objectId (wireDigest d) = .ok r →
      ∃ r', P.newObjectReference resource objectId (wireDigest d') = .ok r'

theorem resourceRefDocument_public (n m : Str) : ¬ HasPrivateKey (.obj (resourceRefDocument n m)) :=
  not_hasPrivateKey_fields ["catalog", "namespace", "name"] rfl (by decide) (by simp [resourceRefDocument])

theorem exactReference_public (resource : ResourceRef) (objectId : Str) (d : Digest) :
    ¬ HasPrivateKey (.obj (exactReference resource objectId d)) := by
  have hresource := resourceRefDocument_public resource.namespaceName resource.name
  exact not_hasPrivateKey_fields ["resourceRef", "objectId", "digest"] rfl (by decide)
    (by simp [exactReference, hresource])

/-- The Object that a put names: its Resource, and its id as Semantics accepts it. -/
structure Names (P : Packages) (resource : ResourceRef) (objectId : BoundedString 1024) : Prop where
  parsed : ∃ value, P.parseResourceRef value "object" = .ok resource
  reference : ∃ (semanticResource : ResourceReference) (d : Option Digest) (r : P.ObjectReference),
    P.newResourceReference resource.namespaceName resource.name = .ok semanticResource ∧
      P.newObjectReference semanticResource (.str objectId.val) (wireDigest d) = .ok r

/-- A reference to the Object parses, with the digest given. -/
theorem Names.exactReference (hV : P.ResolvesResources) (hD : P.AcceptsEveryDigest) (hS : P.StoresReference)
    {resource : ResourceRef} {objectId : BoundedString 1024} (h : Names P resource objectId) (d : Digest) :
    ∃ r, parseLogicalReference P (exactReference resource objectId.val d) = .ok (.object r) ∧
      P.digest r = some d.val ∧ SameResource r resource := by
  obtain ⟨value, hvalue⟩ := h.parsed
  obtain ⟨semanticResource, d₀, r₀, hresource, hr₀⟩ := h.reference
  obtain ⟨r, hr⟩ := hD.newObjectReference _ _ d₀ (some d) _ hr₀
  obtain ⟨hres, hdigest⟩ := hS.newObjectReference _ _ _ _ hr
  obtain ⟨rfl, hparse⟩ := hV.newResourceReference _ _ _ hvalue hresource
  refine ⟨r, ?_, ?_, ?_⟩
  · refine parseLogicalReference_object_eq_ok.mpr ⟨?_, ?_⟩
    · simp [HasSignedFormat, ObjectCommon.exactReference]
    · refine readObjectReference_document_eq_ok.mpr ⟨rfl, _, _, _, rfl, hparse, rfl, ?_⟩
      exact hr
  · cases hd : P.digest r with
    | none => simp [hd, wireDigest, Json.nullable] at hdigest
    | some d' => simpa [hd, wireDigest, Json.nullable, eq_comm] using hdigest
  · rw [SameResource, hres]
    exact ⟨(hV.parseResourceRef _ _ hvalue).symm, rfl, rfl⟩

/-! ## Expressions -/

/-- A request to the Object Catalog with the given arguments, in any order. -/
structure Expression.Asks (e : Expression) (method : String) (arguments : Object) : Prop where
  catalog : e.catalog = str "object"
  method : e.method = str method
  arguments : Dict.Same e.arguments arguments

/-- Normalization accepts the Expression, for one Resource. -/
def AcceptedFor (P : Packages) (e : Expression) (resource : ResourceRef) : Prop :=
  ∃ o, normalize P e = .ok o ∧ o.resources = [resource]

/-- The Object is addressed by every operation, `value` being the resource argument. -/
structure Addressable (P : Packages) (value : Json) (resource : ResourceRef) (objectId : Str) : Prop where
  read : ∀ (e : Expression) (d : Digest) (method : String), method = "get" ∨ method = "stat" →
    e.Asks method [("resource", value), ("reference", .obj (exactReference resource objectId d))] →
    AcceptedFor P e resource
  readRange : ∀ (e : Expression) (d : Digest) (range : ByteRange),
    e.Asks "read_range" [("resource", value), ("reference", .obj (exactReference resource objectId d)),
      ("range", .obj range.toDict)] → AcceptedFor P e resource
  delete : ∀ (e : Expression) (d : Digest),
    e.Asks "delete" [("resource", value), ("reference", .obj (exactReference resource objectId d)), ("reason", .null)] →
    AcceptedFor P e resource
  list : ∀ (e : Expression) (first : Str) (limit : Nat), first <+: objectId → 1 ≤ limit → limit ≤ 1000 →
    e.Asks "list" [("resource", value), ("prefix", .str first), ("limit", .int limit), ("cursor", .null),
      ("purpose", .str "maintenance")] → AcceptedFor P e resource

namespace Expression.Asks

variable {e : Expression} {method : String} {arguments : Object} {resource : ResourceRef}

/-- The fields of the arguments, and their values. -/
theorem fields (h : e.Asks method arguments) (fields : List String) (hk : Dict.keys arguments = fields.map str) :
    exactFields e.arguments fields = .ok () ∧
      ∀ k ∈ fields, Dict.get? e.arguments (str k) = Dict.get? arguments (str k) :=
  (exactFields_and_get?_iff fields hk).mpr h.arguments

/-- A request that its arguments denote is accepted, if none of them is private. -/
theorem accepted (hF : P.FindsOperations) (hA : P.Admits) (h : e.Asks method arguments) (fields : List String)
    (hk : Dict.keys arguments = fields.map str) (hfields : ∀ f ∈ fields, ¬ IsPrivate (str f))
    (hvalues : ∀ entry ∈ arguments, ¬ HasPrivateKey entry.2) {contract : OperationContract}
    (hcontract : objectOperations.find? (fun c => c.method = str method) = some contract) {r : Request P}
    (hr : r.Reads e.method e.arguments resource) : AcceptedFor P e resource := by
  have hpublic : ¬ HasPrivateKey (.obj e.arguments) :=
    not_hasPrivateKey_same e.wellFormed.keys_nodup h.arguments (not_hasPrivateKey_fields fields hk hfields hvalues)
  have hfound : P.operationFor objectOperations e.method = .ok contract := by
    rw [h.method]
    exact hF.operationFor _ _ _ hcontract
  have hread : ReadAs P e contract resource r := ⟨h.catalog, hfound, hpublic, hr⟩
  exact ⟨operationOf P e contract resource r, normalize_eq_ok.mpr ⟨contract, resource, r, hread.accepts hA, rfl⟩, rfl⟩

end Expression.Asks

/-- A part of a bounded string is a list prefix. -/
theorem IsBounded.listPrefix {s first : Str} (h : IsBounded 1024 s) (hp : first <+: s) :
    ∃ n, utf8Length first = some n ∧ n ≤ 1024 ∧ first.any isControl = false := by
  obtain ⟨rest, rfl⟩ := hp
  obtain ⟨-, ⟨n, hn, hle⟩, hc⟩ := h
  obtain ⟨m, hm, hmn⟩ := utf8Length_append hn
  rw [List.any_append, Bool.or_eq_false_iff] at hc
  exact ⟨m, hm, hmn.trans hle, hc.1⟩

/-! ## Addressing -/

section

variable {resource : ResourceRef} {objectId : BoundedString 1024} {value : Json}

/-- An Object that is named is addressable, by every value that denotes its Resource. -/
theorem Names.addressable (hV : P.ResolvesResources) (hD : P.AcceptsEveryDigest) (hS : P.StoresReference)
    (hF : P.FindsOperations) (hA : P.Admits) (h : Names P resource objectId)
    (hvalue : P.parseResourceRef value "object" = .ok resource) (hpublic : ¬ HasPrivateKey value) :
    Addressable P value resource objectId.val := by
  have hresource : ∀ {arguments : Object}, Dict.get? arguments "resource" = some value →
      ReadsResource P arguments resource := by
    intro arguments hget
    rw [ReadsResource, hget, parseResource, mapError_eq_ok]
    exact hvalue
  have hreference : ∀ {arguments : Object} (d : Digest) (method : Str) (require : Bool),
      Dict.get? arguments "reference" = some (.obj (ObjectCommon.exactReference resource objectId.val d)) →
      ∃ r, ReadsReference (P := P) arguments resource method require (.object r) := by
    intro arguments d method require hget
    obtain ⟨r, hparse, hdigest, hsame⟩ := h.exactReference hV hD hS d
    exact ⟨r, ⟨_, hget, hparse⟩, fun _ => by simp [hdigest], hsame⟩
  have hexact := exactReference_public resource objectId.val
  refine ⟨?_, ?_, ?_, ?_⟩
  · intro e d method hm hasks
    obtain ⟨hf, hget⟩ := hasks.fields ["resource", "reference"] rfl
    obtain ⟨r, href⟩ := hreference d e.method false (hget "reference" (by simp))
    have hr : (Request.read (.object r)).Reads e.method e.arguments resource := by
      refine ⟨?_, hresource (hget "resource" (by simp)), hf, href⟩
      rw [hasks.method]
      rcases hm with rfl | rfl <;> simp
    rcases hm with rfl | rfl
    · exact hasks.accepted hF hA ["resource", "reference"] rfl (by decide) (by simp [hpublic, hexact]) rfl hr
    · exact hasks.accepted hF hA ["resource", "reference"] rfl (by decide) (by simp [hpublic, hexact]) rfl hr
  · intro e d range hasks
    obtain ⟨hf, hget⟩ := hasks.fields ["resource", "reference", "range"] rfl
    obtain ⟨r, href⟩ := hreference d e.method false (hget "reference" (by simp))
    have hrange := range.toDict_public
    exact hasks.accepted hF hA ["resource", "reference", "range"] rfl (by decide) (by simp [hpublic, hexact, hrange]) rfl
      (r := .readRange (.object r) range)
      ⟨hasks.method, hresource (hget "resource" (by simp)), hf, href, _, hget "range" (by simp),
        ByteRange.fromMapping_toDict range⟩
  · intro e d hasks
    obtain ⟨hf, hget⟩ := hasks.fields ["resource", "reference", "reason"] rfl
    obtain ⟨r, href⟩ := hreference d e.method true (hget "reference" (by simp))
    exact hasks.accepted hF hA ["resource", "reference", "reason"] rfl (by decide) (by simp [hpublic, hexact]) rfl
      (r := .delete (.object r))
      ⟨hasks.method, hresource (hget "resource" (by simp)), hf, href, none, hget "reason" (by simp)⟩
  · intro e first limit hfirst hpos hle hasks
    obtain ⟨hf, hget⟩ := hasks.fields ["resource", "prefix", "limit", "cursor", "purpose"] rfl
    obtain ⟨n, hn, hn', hcontrol⟩ := objectId.property.listPrefix hfirst
    exact hasks.accepted hF hA ["resource", "prefix", "limit", "cursor", "purpose"] rfl (by decide) (by simp [hpublic]) rfl
      (r := .list ⟨limit, hpos⟩)
      ⟨hasks.method, hresource (hget "resource" (by simp)), hf, ⟨first, n, hget "prefix" (by simp), hn, hn', hcontrol⟩,
        hget "limit" (by simp), hle, ⟨none, hget "cursor" (by simp)⟩, hget "purpose" (by simp)⟩

end

namespace Contracts

theorem newResourceReference_eq_ok {n m : Str} {r : ResourceReference} :
    newResourceReference n m = .ok r ↔
      ∃ n' m' : LogicalName, n = n'.val ∧ m = m'.val ∧ r = ⟨"object", n'.val, m'.val⟩ := by
  simp only [newResourceReference, bind_eq_ok, logicalName_eq_ok, Json.str.injEq, pure_eq_ok]
  constructor
  · rintro ⟨n', hn, m', hm, rfl⟩
    exact ⟨n', m', hn, hm, rfl⟩
  · rintro ⟨n', m', hn, hm, rfl⟩
    exact ⟨n', hn, m', hm, rfl⟩

theorem catalog_newResourceRef {n m : Json} {r : ResourceRef} (h : newResourceRef "object" n m = .ok r) :
    r.catalog = str "object" := by
  simp only [newResourceRef, bind_eq_ok, pure_eq_ok] at h
  obtain ⟨_, -, _, -, rfl⟩ := h
  rfl

theorem resolvesResources : contracts.ResolvesResources where
  parseResourceRef value r h := by
    change parseResourceRef value "object" = .ok r at h
    unfold parseResourceRef at h
    split at h
    · exact catalog_newResourceRef h
    · simp only [bind_eq_ok, pure_eq_ok] at h
      obtain ⟨_, -, rfl⟩ := h
      rfl
    · cases h
  newResourceReference _ r s _ h := by
    obtain ⟨n, m, hn, hm, rfl⟩ := newResourceReference_eq_ok.mp h
    rw [hn, hm]
    exact ⟨rfl, parseResourceReference_toDict n m⟩

theorem acceptsEveryDigest : contracts.AcceptsEveryDigest where
  newObjectReference resource objectId d d' r h := by
    obtain ⟨hres, hid, -⟩ := newObjectReference_eq_ok.mp h
    refine ⟨{ r with digest := d' }, newObjectReference_eq_ok.mpr ⟨hres, hid, ?_⟩⟩
    exact nullable_digestText d'

end Contracts

/-- **Every Object that can be put can be addressed**: the Expressions that name it by an exact reference, or
by a prefix of its id, are accepted for the Resource of the put. -/
theorem put_addressable (hV : P.ResolvesResources) (hD : P.AcceptsEveryDigest) (hS : P.StoresReference)
    (hF : P.FindsOperations) (hA : P.Admits) {e : Expression} {o : Operation} (hm : e.method = str "put")
    (h : normalize P e = .ok o) :
    ∃ value resource objectId, Dict.get? e.arguments "resource" = some value ∧
      Dict.get? e.arguments "objectId" = some (.str objectId) ∧ o.resources = [resource] ∧
      Addressable P value resource objectId ∧
      ∀ value', P.parseResourceRef value' "object" = .ok resource → ¬ HasPrivateKey value' →
        Addressable P value' resource objectId := by
  obtain ⟨contract, resource, r, hacc, rfl⟩ := normalize_eq_ok.mp h
  have hreads := hacc.reads
  rw [hm] at hreads
  cases r with
  | put p =>
    obtain ⟨-, hresource, hp⟩ := hreads
    have hkey : str "resource" ∈ Dict.keys e.arguments := (exactFields_eq_ok.mp hp.fields).1 _ (by simp [putFields])
    obtain ⟨value, hvalue⟩ := Dict.mem_keys_iff.mp hkey
    rw [ReadsResource, hvalue, parseResource, mapError_eq_ok] at hresource
    have hpublic : ¬ HasPrivateKey value := by
      intro hprivate
      exact hacc.noPrivateKey (hasPrivateKey_obj.mpr ⟨_, Dict.mem_of_get? hvalue, Or.inr hprivate⟩)
    obtain ⟨semanticResource, r, hsemantic, hr⟩ := hp.identity.reference
    have hnames : Names P resource p.objectId :=
      ⟨⟨value, hresource⟩, semanticResource, p.expectedDigest, r, hsemantic, hr⟩
    exact ⟨value, resource, p.objectId.val, hvalue, hp.identity.objectId, rfl,
      hnames.addressable hV hD hS hF hA hresource hpublic,
      fun value' hvalue' hpublic' => hnames.addressable hV hD hS hF hA hvalue' hpublic'⟩
  | _ => simp [Request.Reads] at hreads

theorem put_addressable_putFixture :
    ∃ value resource objectId, Dict.get? Contracts.putFixture.arguments "resource" = some value ∧
      Dict.get? Contracts.putFixture.arguments "objectId" = some (.str objectId) ∧
      Addressable contracts value resource objectId := by
  obtain ⟨o, ho⟩ := normalize_putFixture
  obtain ⟨value, resource, objectId, hvalue, hid, -, haddress, -⟩ := put_addressable Contracts.resolvesResources
    Contracts.acceptsEveryDigest Contracts.storesReference Contracts.findsOperations Contracts.admits rfl ho
  exact ⟨value, resource, objectId, hvalue, hid, haddress⟩

end ObjectCommon
