import ObjectCommon.Validation.Private

/-!
# Meridian Core and Semantics

The released packages this one is built on, as parameters: their records are data, their
constructors, parsers and serialisers are the fields of `Packages`.

* `Expression`, `Operation`, `ResourceRef`, ... : Core's records;
* `Packages` : the functions called in Core and Semantics, and the order in which the interpreter
  iterates over a set;
* `Packages.RaisesDocumented`, `Packages.RoundTrips`, `Packages.StoresReference`, ... : what the packages
  document; a result names those it rests on.
-/

namespace ObjectCommon

open Outcome

/-! ## Records -/

/-- An Expression: its arguments are a JSON object. -/
structure Expression where
  catalog : Str
  method : Str
  arguments : Object
  wellFormed : Json.WellFormed (.obj arguments)

structure ResourceRef where
  catalog : Str
  namespaceName : Str
  name : Str
  deriving DecidableEq

/-- Semantics' logical Resource; `catalog` is the value of its `CatalogName`. -/
structure ResourceReference where
  catalog : Str
  namespaceName : Str
  name : Str
  deriving DecidableEq

structure OperationContract where
  method : Str
  operationContract : Str
  operationVersion : Str
  readOnly : Bool
  idempotency : Str
  guarantees : List Str
  deriving DecidableEq

structure CapabilityRequirement where
  operationContract : Str
  operationVersion : Str
  guarantees : List Str
  minimumLimits : Dict Str Nat
  deriving DecidableEq

structure Operation where
  catalog : Str
  operationContract : Str
  operationVersion : Str
  resources : List ResourceRef
  input : Object
  requirements : List CapabilityRequirement
  readOnly : Bool
  idempotent : Bool

/-! ## Functions -/

/-- The functions of Core. A record's constructor stores what it is given after its own checks:
`checkRequirement` and `checkOperation` are those of `CapabilityRequirement` and `Operation`. -/
structure Core where
  newResourceRef : (catalog : Str) → (namespaceName name : Json) → Py ResourceRef
  parseResourceRef : (value : Json) → (catalog : Str) → Py ResourceRef
  newSchemaRef : (catalog : Str) → (namespaceName name version : Json) → Py Unit
  operationFor : (operations : List OperationContract) → (method : Str) → Py OperationContract
  checkRequirement : CapabilityRequirement → Py Unit
  checkOperation : Operation → Py Unit

/-- The functions of Semantics; the dictionaries it builds have distinct keys. An Object id is stored in a normal
form; `defaultObjectProfile` is `ObjectProfile()`. -/
structure Semantics where
  ObjectReference : Type
  ObjectProfile : Type
  Profile : Type
  newResourceReference : (namespaceName name : Str) → Py ResourceReference
  parseResourceReference : (value : Object) → Py ResourceReference
  newObjectReference : (resource : ResourceReference) → (objectId digest : Json) → Py ObjectReference
  resourceRef : ObjectReference → ResourceReference
  objectId : ObjectReference → Str
  normalObjectId : Str → Str
  digest : ObjectReference → Option Str
  referenceToDict : ObjectReference → Object
  defaultObjectProfile : ObjectProfile
  profileFromMapping : Object → Py Profile
  asObjectProfile : Profile → Option ObjectProfile
  profileToDict : ObjectProfile → Object
  canonicalJsonBytes : Json → Py Bytes
  referenceToDict_wellFormed : ∀ r, Json.WellFormed (.obj (referenceToDict r))
  profileToDict_wellFormed : ∀ p, Json.WellFormed (.obj (profileToDict p))

/-- The released packages, and the interpreter's set order: `tuple` of a set to which the given
distinct strings were added. -/
structure Packages extends Core, Semantics where
  tupleOfSet : List Str → List Str
  tupleOfSet_perm : ∀ l : List Str, l.Nodup → (tupleOfSet l).Perm l

namespace Packages

variable (P : Packages)

/-! ## What the packages document -/

/-- An unknown method is a `KeyError`. -/
structure MissesOperations : Prop where
  operationFor : ∀ ops method e, P.operationFor ops method = .error e → e = PyError.keyError method

/-- An Object reference is read with exceptions of `E` only. -/
structure RaisesOfReferences (E : PyError → Prop) : Prop where
  parseResourceReference : ∀ v, RaisesOnly E (P.parseResourceReference v)
  newObjectReference : ∀ r o d, RaisesOnly E (P.newObjectReference r o d)

/-- Constructors and parsers, as they are called here, raise exceptions of `E` only. -/
structure RaisesDocumented (E : PyError → Prop) : Prop extends P.MissesOperations, P.RaisesOfReferences E where
  newResourceRef : ∀ n m, RaisesOnly E (P.newResourceRef "object" n m)
  parseResourceRef : ∀ v, RaisesOnly E (P.parseResourceRef v "object")
  newSchemaRef : ∀ n m v, RaisesOnly E (P.newSchemaRef "object" n m v)
  newResourceReference : ∀ v r, P.parseResourceRef v "object" = .ok r →
    RaisesOnly E (P.newResourceReference r.namespaceName r.name)
  profileFromMapping : ∀ v, RaisesOnly E (P.profileFromMapping v)

theorem RaisesDocumented.mono {P : Packages} {E E' : PyError → Prop} (h : P.RaisesDocumented E)
    (hE : ∀ e, E e → E' e) : P.RaisesDocumented E' where
  operationFor := h.operationFor
  parseResourceReference v := (h.parseResourceReference v).mono hE
  newObjectReference r o d := (h.newObjectReference r o d).mono hE
  newResourceRef n m := (h.newResourceRef n m).mono hE
  parseResourceRef v := (h.parseResourceRef v).mono hE
  newSchemaRef n m v := (h.newSchemaRef n m v).mono hE
  newResourceReference v r hr := (h.newResourceReference v r hr).mono hE
  profileFromMapping v := (h.profileFromMapping v).mono hE

/-- The document of an Object reference: its Resource, its id and, unless it is null and left out,
its digest. -/
structure ReferenceDocument (r : P.ObjectReference) (d : Object) : Prop where
  keys : ∀ k ∈ Dict.keys d, k = str "resourceRef" ∨ k = str "objectId" ∨ k = str "digest"
  resourceRef : ∃ raw, Dict.get? d "resourceRef" = some (.obj raw) ∧
    P.parseResourceReference raw = .ok (P.resourceRef r)
  objectId : Dict.get? d "objectId" = some (.str (P.objectId r))
  digest : (Dict.get? d "digest").getD .null = Json.nullable .str (P.digest r)

/-- Object references and profiles survive being written and read, and a reference rebuilt from its
own fields is itself. -/
structure RoundTrips : Prop where
  referenceToDict : ∀ r, P.ReferenceDocument r (P.referenceToDict r)
  newObjectReference : ∀ r,
    P.newObjectReference (P.resourceRef r) (.str (P.objectId r)) (Json.nullable .str (P.digest r)) = .ok r
  profileToDict : ∀ p, ∃ q, P.profileFromMapping (P.profileToDict p) = .ok q ∧ P.asObjectProfile q = some p

/-- An Object reference has the Resource and the digest it was built from. -/
structure StoresReference : Prop where
  newObjectReference : ∀ resource objectId digest r, P.newObjectReference resource objectId digest = .ok r →
    P.resourceRef r = resource ∧ digest = Json.nullable .str (P.digest r)

/-- An Object reference has the normal form of the id it was built from. -/
structure NormalizesIds : Prop where
  objectId : ∀ resource objectId digest r, P.newObjectReference resource objectId digest = .ok r →
    ∃ id, objectId = .str id ∧ P.objectId r = P.normalObjectId id

/-- The id of an Object reference is in the normal form. -/
theorem NormalizesIds.normalObjectId_objectId {P : Packages} (hN : P.NormalizesIds) (hP : P.RoundTrips)
    (r : P.ObjectReference) : P.normalObjectId (P.objectId r) = P.objectId r := by
  obtain ⟨id, hid, hnormal⟩ := hN.objectId _ _ _ _ (hP.newObjectReference r)
  rw [← Json.str.inj hid] at hnormal
  exact hnormal.symm

/-- Canonical bytes are those of one value, and a reference document that of one reference. -/
structure WritesInjectively : Prop where
  canonicalJsonBytes : ∀ v w b, Json.WellFormed v → Json.WellFormed w → P.canonicalJsonBytes v = .ok b →
    P.canonicalJsonBytes w = .ok b → v.canon = w.canon
  referenceToDict : ∀ r s, Json.canon (.obj (P.referenceToDict r)) = Json.canon (.obj (P.referenceToDict s)) →
    r = s

/-- Values of encodable text have canonical bytes, and reference documents are such values. -/
structure SerializesText : Prop where
  canonicalJsonBytes : ∀ v, Json.WellFormed v → Json.Textual v → ∃ b, P.canonicalJsonBytes v = .ok b
  referenceToDict : ∀ r, Json.Textual (.obj (P.referenceToDict r))

/-- A contract is found by its method. -/
structure FindsOperations : Prop where
  operationFor : ∀ operations method contract,
    operations.find? (fun c : OperationContract => c.method = method) = some contract →
    P.operationFor operations method = .ok contract

/-- The documents that references and profiles write have no private key of their own; a profile may
carry metadata it was given. -/
structure AddsNoPrivateKey : Prop where
  referenceToDict : ∀ r, ¬ HasPrivateKey (.obj (P.referenceToDict r))
  profileToDict : ∀ raw q p, P.profileFromMapping raw = .ok q → P.asObjectProfile q = some p →
    ¬ HasPrivateKey (.obj raw) → ¬ HasPrivateKey (.obj (P.profileToDict p))

end Packages

end ObjectCommon
