import ObjectCommon.Packages
import ObjectCommon.Schemas.Documents

/-!
# Packages that meet their contracts

Core and Semantics as the published schemas describe their documents, and canonical JSON by its text:
an instance of `Packages` that has every property the development asks of them.

* `Reference`, `Profile` : the records, with what their documents may hold;
* `contracts` : the packages;
* `Contracts.raisesDocumented`, `Contracts.roundTrips`, ... : what they document.
-/

namespace ObjectCommon

open Outcome PyError

namespace Contracts

/-! ## Names -/

abbrev LogicalName := {s : Str // logicalNameRe s = true}

def logicalName (value : Json) (field : String) : Py LogicalName :=
  match value with
  | .str s => if h : logicalNameRe s then .ok ⟨s, h⟩ else .error (valueError (field ++ " is no logical name" : String))
  | _ => .error (valueError (field ++ " is no logical name" : String))

theorem logicalName_eq_ok {value : Json} {field : String} {n : LogicalName} :
    logicalName value field = .ok n ↔ value = .str n.val := by
  obtain ⟨n, hn⟩ := n
  unfold logicalName
  split
  · split
    · simp
    · next s h =>
      simp only [reduceCtorEq, Json.str.injEq, false_iff]
      rintro rfl
      exact h hn
  · next h => simpa using h n

theorem logicalName_raises (value : Json) (field : String) : RaisesValueErrors (logicalName value field) := by
  unfold logicalName
  split
  · split
    · exact RaisesOnly.ok _
    · exact RaisesOnly.error rfl
  · exact RaisesOnly.error rfl

theorem LogicalName.encodable (n : LogicalName) : Encodable n.val :=
  encodable_ascii fun c hc => lt_trans (logicalNameRe_ascii n.2 c hc).2 (by decide)

/-- The text of a Resource, split at its first dot. -/
def splitName (s : Str) : Str × Str :=
  let s := if s.take 7 = str "object:" then s.drop 7 else s
  (s.takeWhile (· ≠ codePoint '.'), (s.dropWhile (· ≠ codePoint '.')).drop 1)

def newResourceRef (catalog : Str) (namespaceName name : Json) : Py ResourceRef := do
  let namespaceName ← logicalName namespaceName "namespace"
  let name ← logicalName name "name"
  return ⟨catalog, namespaceName.val, name.val⟩

/-- A Resource document of a Catalog. -/
def resourceDocument (value : Object) (catalog : Str) : Py (LogicalName × LogicalName) := do
  exactFields value ["catalog", "namespace", "name"]
  let rawCatalog ← getItem value "catalog"
  raiseIf (rawCatalog.isStr catalog = false) (valueError "the Resource is of another Catalog")
  let namespaceName ← getItem value "namespace"
  let namespaceName ← logicalName namespaceName "namespace"
  let name ← getItem value "name"
  let name ← logicalName name "name"
  return (namespaceName, name)

def parseResourceRef (value : Json) (catalog : Str) : Py ResourceRef :=
  match value with
  | .str s => newResourceRef catalog (.str (splitName s).1) (.str (splitName s).2)
  | .obj value => do
    let (namespaceName, name) ← resourceDocument value catalog
    return ⟨catalog, namespaceName.val, name.val⟩
  | _ => .error (typeError "a Resource is a text or an object")

theorem newResourceRef_raises (catalog : Str) (n m : Json) : RaisesValueErrors (newResourceRef catalog n m) :=
  (logicalName_raises _ _).bind fun _ _ => (logicalName_raises _ _).bind fun _ _ => RaisesOnly.pure _

theorem resourceDocument_raises (value : Object) (catalog : Str) : RaisesValueErrors (resourceDocument value catalog) :=
  (exactFields_raises _ _ _).bind fun _ hf =>
    (getItem_raises hf (by simp)).bind fun _ _ =>
    (raiseIf_raises _ _).bind fun _ _ =>
    (getItem_raises hf (by simp)).bind fun _ _ =>
    (logicalName_raises _ _).bind fun _ _ =>
    (getItem_raises hf (by simp)).bind fun _ _ =>
    (logicalName_raises _ _).bind fun _ _ => RaisesOnly.pure _

theorem parseResourceRef_raises (value : Json) (catalog : Str) : RaisesValueErrors (parseResourceRef value catalog) := by
  unfold parseResourceRef
  split
  · exact newResourceRef_raises _ _ _
  · exact (resourceDocument_raises _ _).bind fun _ _ => RaisesOnly.pure _
  · exact RaisesOnly.error rfl

/-- The document of a Resource. -/
def resourceToDict (catalog namespaceName name : Str) : Object :=
  [("catalog", .str catalog), ("namespace", .str namespaceName), ("name", .str name)]

theorem resourceDocument_eq_ok {value : Object} {catalog : Str} {n m : LogicalName} :
    resourceDocument value catalog = .ok (n, m) ↔ Dict.Same value (resourceToDict catalog n.val m.val) := by
  rw [← exactFields_and_get?_iff (u := ()) ["catalog", "namespace", "name"] rfl]
  simp only [resourceDocument, bind_eq_ok, exists_unit, getItem_eq_ok, raiseIf_eq_ok, logicalName_eq_ok,
    Bool.not_eq_false, Json.isStr_iff, pure_eq_ok, Prod.mk.injEq]
  constructor
  · rintro ⟨hf, _, hc, rfl, _, hn, _, rfl, _, hm, _, rfl, rfl, rfl⟩
    exact ⟨hf, by simp [resourceToDict, hc, hn, hm]⟩
  · rintro ⟨hf, h⟩
    simp [resourceToDict] at h
    obtain ⟨hc, hn, hm⟩ := h
    exact ⟨hf, _, hc, rfl, _, hn, _, rfl, _, hm, _, rfl, rfl, rfl⟩

/-! ## References -/

/-- A logical Object reference. -/
structure Reference where
  namespaceName : LogicalName
  name : LogicalName
  objectId : BoundedString 1024
  digest : Option Digest
  deriving DecidableEq

def Reference.resourceRef (r : Reference) : ResourceReference := ⟨"object", r.namespaceName.val, r.name.val⟩

def newResourceReference (namespaceName name : Str) : Py ResourceReference := do
  let namespaceName ← logicalName (.str namespaceName) "namespace"
  let name ← logicalName (.str name) "name"
  return ⟨"object", namespaceName.val, name.val⟩

def parseResourceReference (value : Object) : Py ResourceReference := do
  let (namespaceName, name) ← resourceDocument value "object"
  return ⟨"object", namespaceName.val, name.val⟩

def newObjectReference (resource : ResourceReference) (objectId digest : Json) : Py Reference := do
  raiseIf (resource.catalog ≠ str "object") (valueError "an Object reference needs an Object Resource")
  let namespaceName ← logicalName (.str resource.namespaceName) "namespace"
  let name ← logicalName (.str resource.name) "name"
  let objectId ← boundedString objectId "object id" 1024
  let digest ← unlessNone digest (ObjectCommon.digest ·)
  return ⟨namespaceName, name, objectId, digest⟩

/-- The digest of a reference as text. -/
def Reference.digestText (r : Reference) : Option Str := r.digest.map Subtype.val

theorem nullable_digestText (d : Option Digest) :
    Json.nullable (fun d : Digest => .str d.val) d = Json.nullable .str (d.map Subtype.val) := by
  cases d <;> rfl

theorem newObjectReference_eq_ok {resource : ResourceReference} {o d : Json} {r : Reference} :
    newObjectReference resource o d = .ok r ↔
      r.resourceRef = resource ∧ o = .str r.objectId.val ∧ d = Json.nullable .str r.digestText := by
  obtain ⟨n, m, objectId, digest⟩ := r
  obtain ⟨catalog, namespaceName, name⟩ := resource
  have hd : unlessNone d (ObjectCommon.digest ·) = .ok digest ↔ d = Json.nullable .str (digest.map Subtype.val) := by
    rw [← nullable_digestText]
    exact unlessNone_eq_ok (fun _ _ => digest_eq_ok) (by simp)
  simp only [newObjectReference, bind_eq_ok, exists_unit, raiseIf_eq_ok, not_not, logicalName_eq_ok, Json.str.injEq,
    boundedString_eq_ok, pure_eq_ok, Reference.resourceRef, Reference.digestText, ResourceReference.mk.injEq]
  constructor
  · rintro ⟨rfl, _, rfl, _, rfl, _, rfl, _, hdig, h⟩
    cases h
    exact ⟨⟨rfl, rfl, rfl⟩, rfl, hd.mp hdig⟩
  · rintro ⟨⟨rfl, rfl, rfl⟩, rfl, hdig⟩
    exact ⟨rfl, n, rfl, m, rfl, objectId, rfl, digest, hd.mpr hdig, rfl⟩

theorem newObjectReference_raises (resource : ResourceReference) (o d : Json) :
    RaisesValueErrors (newObjectReference resource o d) :=
  (raiseIf_raises _ _).bind fun _ _ =>
    (logicalName_raises _ _).bind fun _ _ =>
    (logicalName_raises _ _).bind fun _ _ =>
    (boundedString_raises _ _ _).bind fun _ _ =>
    (unlessNone_raises (digest_raises _ _)).bind fun _ _ => RaisesOnly.pure _

/-- The document of a reference; a digest that is not there is left out. -/
def referenceToDict (r : Reference) : Object :=
  (str "resourceRef", Json.obj (resourceToDict "object" r.namespaceName.val r.name.val)) ::
    (str "objectId", Json.str r.objectId.val) :: (r.digestText.map fun d => (str "digest", Json.str d)).toList

theorem resourceToDict_wellFormed (c n m : Str) : Json.WellFormed (.obj (resourceToDict c n m)) :=
  .obj (by simp [resourceToDict]) (by simp [resourceToDict, Json.WellFormed.str])

theorem referenceToDict_wellFormed (r : Reference) : Json.WellFormed (.obj (referenceToDict r)) := by
  have hr := resourceToDict_wellFormed "object" r.namespaceName.val r.name.val
  unfold referenceToDict
  cases r.digestText <;> exact .obj (by simp) (by simp [hr, Json.WellFormed.str])

/-! ## Profiles -/

/-- One of some texts. -/
abbrev Choice (l : List Str) := {s : Str // s ∈ l}

def choice (value : Json) (l : List Str) : Py (Choice l) :=
  match value with
  | .str s => if h : s ∈ l then .ok ⟨s, h⟩ else .error (valueError "an unknown choice")
  | _ => .error (valueError "an unknown choice")

theorem choice_eq_ok {value : Json} {l : List Str} {c : Choice l} : choice value l = .ok c ↔ value = .str c.val := by
  obtain ⟨c, hc⟩ := c
  unfold choice
  split
  · split
    · simp
    · next s h =>
      simp only [reduceCtorEq, Json.str.injEq, false_iff]
      rintro rfl
      exact h hc
  · next h => simpa using h c

theorem choice_raises (value : Json) (l : List Str) : RaisesValueErrors (choice value l) := by
  unfold choice
  split
  · split
    · exact RaisesOnly.ok _
    · exact RaisesOnly.error rfl
  · exact RaisesOnly.error rfl

def profileKinds : List Str := ["object", "artifact", "media"]

def mutabilities : List Str := ["immutable", "mutable"]

/-- A storage profile that carries no metadata. -/
structure Profile where
  kind : Choice profileKinds
  profile : Choice profileKinds
  mutability : Choice mutabilities
  rangeReads : Bool
  conditionalCreate : Bool
  boundedPrefixList : Bool
  deriving DecidableEq

def profileToDict (p : Profile) : Object :=
  [("kind", .str p.kind.val), ("profile", .str p.profile.val), ("mutability", .str p.mutability.val),
    ("rangeReads", .bool p.rangeReads), ("conditionalCreate", .bool p.conditionalCreate),
    ("boundedPrefixList", .bool p.boundedPrefixList), ("metadata", .obj [])]

/-- Nothing but the empty object. -/
def emptyMapping (value : Json) : Py Unit :=
  match value with
  | .obj [] => .ok ()
  | _ => .error (valueError "a profile with metadata")

def profileFromMapping (value : Object) : Py Profile := do
  exactFields value
    ["kind", "profile", "mutability", "rangeReads", "conditionalCreate", "boundedPrefixList", "metadata"]
  let kind ← getItem value "kind"
  let kind ← choice kind profileKinds
  let profile ← getItem value "profile"
  let profile ← choice profile profileKinds
  let mutability ← getItem value "mutability"
  let mutability ← choice mutability mutabilities
  let rangeReads ← getItem value "rangeReads"
  let rangeReads ← asBool rangeReads (typeError "rangeReads must be boolean")
  let conditionalCreate ← getItem value "conditionalCreate"
  let conditionalCreate ← asBool conditionalCreate (typeError "conditionalCreate must be boolean")
  let boundedPrefixList ← getItem value "boundedPrefixList"
  let boundedPrefixList ← asBool boundedPrefixList (typeError "boundedPrefixList must be boolean")
  let metadata ← getItem value "metadata"
  emptyMapping metadata
  return ⟨kind, profile, mutability, rangeReads, conditionalCreate, boundedPrefixList⟩

theorem emptyMapping_eq_ok {value : Json} {u : Unit} : emptyMapping value = .ok u ↔ value = .obj [] := by
  unfold emptyMapping
  split
  · simp
  · next h => simpa using h

theorem emptyMapping_raises (value : Json) : RaisesValueErrors (emptyMapping value) := by
  unfold emptyMapping
  split
  · exact RaisesOnly.ok _
  · exact RaisesOnly.error rfl

theorem profileFromMapping_raises (value : Object) : RaisesValueErrors (profileFromMapping value) :=
  (exactFields_raises _ _ _).bind fun _ hf =>
    (getItem_raises hf (by simp)).bind fun _ _ =>
    (choice_raises _ _).bind fun _ _ =>
    (getItem_raises hf (by simp)).bind fun _ _ =>
    (choice_raises _ _).bind fun _ _ =>
    (getItem_raises hf (by simp)).bind fun _ _ =>
    (choice_raises _ _).bind fun _ _ =>
    (getItem_raises hf (by simp)).bind fun _ _ =>
    (asBool_raises _ _).bind fun _ _ =>
    (getItem_raises hf (by simp)).bind fun _ _ =>
    (asBool_raises _ _).bind fun _ _ =>
    (getItem_raises hf (by simp)).bind fun _ _ =>
    (asBool_raises _ _).bind fun _ _ =>
    (getItem_raises hf (by simp)).bind fun _ _ =>
    (emptyMapping_raises _).bind fun _ _ => RaisesOnly.pure _

/-- A profile is read from the documents it writes, in any order of the fields. -/
theorem profileFromMapping_eq_ok {value : Object} {p : Profile} :
    profileFromMapping value = .ok p ↔ Dict.Same value (profileToDict p) := by
  rw [← exactFields_and_get?_iff (u := ()) ["kind", "profile", "mutability", "rangeReads", "conditionalCreate",
    "boundedPrefixList", "metadata"] rfl]
  obtain ⟨kind, profile, mutability, rangeReads, conditionalCreate, boundedPrefixList⟩ := p
  simp only [profileFromMapping, bind_eq_ok, exists_unit, getItem_eq_ok, choice_eq_ok, asBool_eq_ok,
    emptyMapping_eq_ok, pure_eq_ok]
  constructor
  · rintro ⟨hf, _, h1, _, rfl, _, h2, _, rfl, _, h3, _, rfl, _, h4, _, rfl, _, h5, _, rfl, _, h6, _, rfl, _, h7, rfl, h⟩
    cases h
    exact ⟨hf, by simp [profileToDict, h1, h2, h3, h4, h5, h6, h7]⟩
  · rintro ⟨hf, h⟩
    simp [profileToDict] at h
    obtain ⟨h1, h2, h3, h4, h5, h6, h7⟩ := h
    exact ⟨hf, _, h1, _, rfl, _, h2, _, rfl, _, h3, _, rfl, _, h4, _, rfl, _, h5, _, rfl, _, h6, _, rfl, _, h7, rfl, rfl⟩

theorem profileToDict_wellFormed (p : Profile) : Json.WellFormed (.obj (profileToDict p)) := by
  have hempty : Json.WellFormed (.obj []) := .obj (by simp) (by simp)
  exact .obj (by simp [profileToDict]) (by simp [profileToDict, hempty, Json.WellFormed.str, Json.WellFormed.bool])

/-! ## The packages -/

def canonicalJsonBytes (value : Json) : Py Bytes :=
  match value.canonicalBytes with
  | some b => .ok b
  | none => .error (valueError "the value has no canonical JSON")

def operationFor (operations : List OperationContract) (method : Str) : Py OperationContract :=
  match operations.find? fun c => c.method = method with
  | some c => .ok c
  | none => .error (keyError method)

end Contracts

open Contracts in
/-- Core and Semantics as the published schemas describe their documents. -/
def contracts : Packages where
  newResourceRef := newResourceRef
  parseResourceRef := parseResourceRef
  newSchemaRef _ namespaceName name version := do
    let _ ← logicalName namespaceName "namespace"
    let _ ← logicalName name "name"
    let _ ← boundedString version "version" 64
  operationFor := operationFor
  checkRequirement _ := .ok ()
  checkOperation _ := .ok ()
  ObjectReference := Reference
  ObjectProfile := Profile
  Profile := Profile
  newResourceReference := newResourceReference
  parseResourceReference := parseResourceReference
  newObjectReference := newObjectReference
  resourceRef := Reference.resourceRef
  objectId r := r.objectId.val
  normalObjectId := id
  digest := Reference.digestText
  referenceToDict := referenceToDict
  defaultObjectProfile := ⟨⟨"object", by decide⟩, ⟨"object", by decide⟩, ⟨"immutable", by decide⟩, true, true, true⟩
  profileFromMapping := profileFromMapping
  asObjectProfile := some
  profileToDict := profileToDict
  canonicalJsonBytes := canonicalJsonBytes
  referenceToDict_wellFormed := referenceToDict_wellFormed
  profileToDict_wellFormed := profileToDict_wellFormed
  tupleOfSet l := l
  tupleOfSet_perm _ _ := .refl _

namespace Contracts

/-! ## What they document -/

theorem operationFor_error {operations : List OperationContract} {method : Str} {e : PyError}
    (h : operationFor operations method = .error e) : e = keyError method := by
  unfold operationFor at h
  split at h <;> cases h
  rfl

theorem canonicalJsonBytes_eq_ok {v : Json} {b : Bytes} : canonicalJsonBytes v = .ok b ↔ v.canonicalBytes = some b := by
  unfold canonicalJsonBytes
  split <;> simp_all

theorem raisesDocumented : contracts.RaisesDocumented IsTypeOrValueError where
  operationFor _ _ _ := operationFor_error
  parseResourceReference _ := (resourceDocument_raises _ _).bind fun _ _ => RaisesOnly.pure _
  newObjectReference := newObjectReference_raises
  newResourceRef := newResourceRef_raises "object"
  parseResourceRef v := parseResourceRef_raises v "object"
  newSchemaRef _ _ _ := (logicalName_raises _ _).bind fun _ _ => (logicalName_raises _ _).bind fun _ _ =>
    (boundedString_raises _ _ _).bind fun _ _ => RaisesOnly.pure _
  newResourceReference _ _ _ := (logicalName_raises _ _).bind fun _ _ => (logicalName_raises _ _).bind fun _ _ =>
    RaisesOnly.pure _
  profileFromMapping := profileFromMapping_raises

theorem findsOperations : contracts.FindsOperations where
  operationFor operations method contract h := by
    change operationFor operations method = .ok contract
    rw [operationFor, h]

theorem parseResourceReference_toDict (n m : LogicalName) :
    parseResourceReference (resourceToDict "object" n.val m.val) = .ok ⟨"object", n.val, m.val⟩ := by
  rw [parseResourceReference, bind_eq_ok]
  exact ⟨(n, m), resourceDocument_eq_ok.mpr (Dict.Same.refl _), rfl⟩

theorem roundTrips : contracts.RoundTrips where
  referenceToDict r := by
    refine ⟨?_, ⟨_, rfl, parseResourceReference_toDict _ _⟩, rfl, ?_⟩
    · intro k hk
      change k ∈ Dict.keys (referenceToDict r) at hk
      unfold referenceToDict at hk
      cases h : r.digestText with
      | none => simp [h] at hk; tauto
      | some d => simpa [h] using hk
    · change (Dict.get? (referenceToDict r) (str "digest")).getD .null = Json.nullable .str r.digestText
      unfold referenceToDict
      cases r.digestText <;> simp
  newObjectReference _ := newObjectReference_eq_ok.mpr ⟨rfl, rfl, rfl⟩
  profileToDict p := ⟨p, profileFromMapping_eq_ok.mpr (Dict.Same.refl _), rfl⟩

theorem storesReference : contracts.StoresReference where
  newObjectReference _ _ _ _ h := by
    obtain ⟨hresource, -, hdigest⟩ := newObjectReference_eq_ok.mp h
    exact ⟨hresource, hdigest⟩

theorem normalizesIds : contracts.NormalizesIds where
  objectId _ _ _ _ h := ⟨_, (newObjectReference_eq_ok.mp h).2.1, rfl⟩

theorem addsNoPrivateKey : contracts.AddsNoPrivateKey where
  referenceToDict r := by
    have hr : ¬ HasPrivateKey (.obj (resourceToDict "object" r.namespaceName.val r.name.val)) :=
      not_hasPrivateKey_fields ["catalog", "namespace", "name"] rfl (by decide) (by simp [resourceToDict])
    change ¬ HasPrivateKey (.obj (referenceToDict r))
    unfold referenceToDict
    cases r.digestText with
    | none => exact not_hasPrivateKey_fields ["resourceRef", "objectId"] rfl (by decide) (by simp [hr])
    | some d => exact not_hasPrivateKey_fields ["resourceRef", "objectId", "digest"] rfl (by decide) (by simp [hr])
  profileToDict _ _ p _ _ _ := by
    have hempty : ¬ HasPrivateKey (.obj []) := by simp [HasPrivateKey]
    exact not_hasPrivateKey_fields ["kind", "profile", "mutability", "rangeReads", "conditionalCreate",
      "boundedPrefixList", "metadata"] rfl (by decide) (by
        change ∀ e ∈ profileToDict p, ¬ HasPrivateKey e.2
        simp [profileToDict, hempty])

theorem get?_referenceToDict (r : Reference) :
    Dict.get? (referenceToDict r) (str "resourceRef") =
        some (.obj (resourceToDict "object" r.namespaceName.val r.name.val)) ∧
      Dict.get? (referenceToDict r) (str "objectId") = some (.str r.objectId.val) ∧
      Dict.get? (referenceToDict r) (str "digest") = r.digestText.map .str := by
  unfold referenceToDict
  cases r.digestText <;> simp

/-- A Resource is known from its document. -/
theorem resourceToDict_inj {c n m n' m' : Str}
    (h : Json.canon (.obj (resourceToDict c n m)) = Json.canon (.obj (resourceToDict c n' m'))) : n = n' ∧ m = m' := by
  have hget := Json.get?_of_canon_eq (resourceToDict_wellFormed c n m).keys_nodup
    (resourceToDict_wellFormed c n' m').keys_nodup h
  have hn := hget (str "namespace")
  have hm := hget (str "name")
  simp [resourceToDict, Json.canon] at hn hm
  exact ⟨hn, hm⟩

theorem writesInjectively : contracts.WritesInjectively where
  canonicalJsonBytes _ _ _ _ _ hv hw :=
    Json.canonicalBytes_inj (canonicalJsonBytes_eq_ok.mp hv) (canonicalJsonBytes_eq_ok.mp hw)
  referenceToDict r s h := by
    have hget := Json.get?_of_canon_eq (referenceToDict_wellFormed r).keys_nodup
      (referenceToDict_wellFormed s).keys_nodup h
    obtain ⟨hr, ho, hd⟩ := get?_referenceToDict r
    obtain ⟨hr', ho', hd'⟩ := get?_referenceToDict s
    have h1 := hget (str "resourceRef")
    have h2 := hget (str "objectId")
    have h3 := hget (str "digest")
    rw [hr, hr', Option.map_some, Option.map_some, Option.some.injEq] at h1
    rw [ho, ho', Option.map_some, Option.map_some, Option.some.injEq] at h2
    rw [hd, hd', Option.map_map, Option.map_map] at h3
    obtain ⟨hn, hm⟩ := resourceToDict_inj h1
    have hdigest : r.digestText = s.digestText :=
      Option.map_injective (fun a b hab => by simpa [Json.canon] using hab) h3
    obtain ⟨n, m, o, d⟩ := r
    obtain ⟨n', m', o', d'⟩ := s
    obtain rfl : n = n' := Subtype.ext hn
    obtain rfl : m = m' := Subtype.ext hm
    obtain rfl : o = o' := Subtype.ext (by simpa [Json.canon] using h2)
    obtain rfl : d = d' := Option.map_injective Subtype.val_injective hdigest
    rfl

theorem Digest.encodable (d : Digest) : Encodable d.val := by
  obtain ⟨s, hs⟩ := d
  simp only [digestRe, Bool.and_eq_true, beq_iff_eq] at hs
  obtain ⟨⟨hpre, -⟩, hhex⟩ := hs
  have hs : s = str "sha256:" ++ s.drop 7 := by rw [← hpre, List.take_append_drop]
  change Encodable s
  rw [hs]
  refine (encodable_literal (by decide)).append (encodable_ascii fun c hc => ?_)
  have h := List.all_eq_true.mp hhex c hc
  simp only [isHexDigit, isDigit, Bool.or_eq_true, inRange_eq_true] at h
  rcases h with ⟨-, h⟩ | ⟨-, h⟩ <;> exact lt_of_le_of_lt h (by decide)

theorem textual_resourceToDict (n m : LogicalName) :
    Json.Textual (.obj (resourceToDict "object" n.val m.val)) := by
  refine .obj ?_ ?_
  · simp only [resourceToDict, List.forall_mem_cons, List.not_mem_nil, false_imp_iff, implies_true, and_true]
    refine ⟨?_, ?_, ?_⟩ <;> exact encodable_literal (by decide)
  · simp only [resourceToDict, List.forall_mem_cons, List.not_mem_nil, false_imp_iff, implies_true, and_true]
    exact ⟨.str (encodable_literal (by decide)), .str n.encodable, .str m.encodable⟩

theorem serializesText : contracts.SerializesText where
  canonicalJsonBytes v _ h := by
    obtain ⟨b, hb⟩ := Json.canonicalBytes_of_textual h
    exact ⟨b, canonicalJsonBytes_eq_ok.mpr hb⟩
  referenceToDict r := by
    obtain ⟨n, m, o, d⟩ := r
    have hdigest : ∀ e ∈ ((d.map Subtype.val).map fun d => (str "digest", Json.str d)).toList,
        Encodable e.1 ∧ Json.Textual e.2 := by
      cases d with
      | none => simp
      | some d => simpa using ⟨encodable_literal (by decide), Json.Textual.str (Digest.encodable d)⟩
    have hresourceRef : Encodable (str "resourceRef") := encodable_literal (by decide)
    have hobjectId : Encodable (str "objectId") := encodable_literal (by decide)
    refine .obj (List.forall_mem_cons.mpr ⟨hresourceRef, List.forall_mem_cons.mpr
      ⟨hobjectId, fun e he => (hdigest e he).1⟩⟩) ?_
    exact List.forall_mem_cons.mpr ⟨textual_resourceToDict n m, List.forall_mem_cons.mpr
      ⟨.str o.2.encodable, fun e he => (hdigest e he).2⟩⟩

/-! ## Requests -/

/-- An exact reference. -/
def fixture : Reference where
  namespaceName := ⟨"fixtures", by decide⟩
  name := ⟨"objects", by decide⟩
  objectId := ⟨"folder/item.bin", by decide, ⟨15, by decide, by decide⟩, by decide⟩
  digest := some ⟨str "sha256:" ++ List.replicate 64 (codePoint 'a'), by decide +kernel⟩

/-- A request for an Object by a reference. -/
def getFixture : Expression where
  catalog := "object"
  method := "get"
  arguments := [("resource", .str "fixtures.objects"), ("reference", .obj (referenceToDict fixture))]
  wellFormed := .obj (by decide) (by
    have h := referenceToDict_wellFormed fixture
    simp [h, Json.WellFormed.str])

/-- A request for bytes 2 to 9 of an Object. -/
def readRangeFixture : Expression where
  catalog := "object"
  method := "read_range"
  arguments := [("resource", .str "fixtures.objects"), ("reference", .obj (referenceToDict fixture)),
    ("range", .obj [("start", .int 2), ("end", .int 9)])]
  wellFormed := by
    have hreference := referenceToDict_wellFormed fixture
    have hrange : Json.WellFormed (.obj [("start", .int 2), ("end", .int 9)]) :=
      .obj (by decide) (by simp [Json.WellFormed.int])
    exact .obj (by decide) (by simp [hreference, hrange, Json.WellFormed.str])

/-- A put of four bytes that declares its digest in the payload and in the put. -/
def putFixture : Expression where
  catalog := "object"
  method := "put"
  arguments :=
    [("resource", .str "fixtures.objects"), ("objectId", .str "folder/item.bin"),
      ("payload", .obj
        [("formatVersion", .str "meridian.object.payload-reference.v1"), ("token", .str "payload-1"),
          ("expectedLength", .null), ("expectedDigest", Json.nullable .str fixture.digestText),
          ("replayable", .bool false)]),
      ("mediaType", .str "application/octet-stream"),
      ("expectedDigest", Json.nullable .str fixture.digestText), ("expectedLength", .int 4),
      ("userMetadata", .obj [("purpose", .str "fixture"), ("kind", .str "test")]), ("creationContext", .obj []),
      ("provenance", .obj []), ("immutability", .null), ("retention", .null), ("createOnly", .bool true)]
  wellFormed := by
    have hempty : Json.WellFormed (.obj []) := .obj (by simp) (by simp)
    have hdigest : Json.WellFormed (Json.nullable .str fixture.digestText) := Json.wellFormed_nullable .str _
    have hpayload : Json.WellFormed (.obj
        [("formatVersion", .str "meridian.object.payload-reference.v1"), ("token", .str "payload-1"),
          ("expectedLength", .null), ("expectedDigest", Json.nullable .str fixture.digestText),
          ("replayable", .bool false)]) :=
      .obj (by decide) (by simp [hdigest, Json.WellFormed.str, Json.WellFormed.null, Json.WellFormed.bool])
    have hmetadata : Json.WellFormed (.obj [("purpose", .str "fixture"), ("kind", .str "test")]) :=
      .obj (by decide) (by simp [Json.WellFormed.str])
    exact .obj (by decide) (by
      simp [hempty, hdigest, hpayload, hmetadata, Json.WellFormed.str, Json.WellFormed.null, Json.WellFormed.bool,
        Json.WellFormed.int])

end Contracts

end ObjectCommon
