import Mathlib.Data.Prod.Lex
import Mathlib.Logic.Equiv.Nat
import ObjectCommon.Handles
import ObjectCommon.RangeResolution
import ObjectCommon.Testing.Received

/-!
# The in-memory target

`MemoryObjectTarget` executes normalized Operations. The registry that it shares with its client holds the sources
of both; the client's streams do not call the target.

* `MemoryWorld` : the stored objects, and what the sources and the streams of the target hold;
* `memoryHeap`, `memoryStreams` : its sources and streams beside those of the client;
* `MemoryObjectTarget.put`, `get`, `stat`, `readRange`, `list`, `delete` : the handlers;
* `MemoryObjectTarget.execute` : the dispatch by the Operation contract;
* `MemoryObjectTarget.target` : it as a target of the conformance runner.
-/

namespace ObjectCommon

open Outcome PyError Routine

def PyError.ConditionalConflict : PyError :=
  .meridian .conditionalConflict "the Object precondition did not match" none

def PyError.ObjectNotFound : PyError := .meridian .notFound "the logical Object was not found" none

/-! ## The world of the target -/

/-- `tuple[str, str, str]`, in the order of tuples -/
abbrev ObjectKey := Str ×ₗ Str ×ₗ Str

/-- `_StoredObject` -/
structure StoredObject (T : StorePackages) where
  data : Bytes
  metadata : T.ObjectMetadata

/-- `_objects`; the content that the lambda of each own source captured; what each own `BytesIO` still gives; and
the world of the client. -/
structure MemoryWorld (T : StorePackages) (W : Type) where
  objects : Dict ObjectKey (StoredObject T) := []
  captured : List Bytes := []
  unread : List Bytes := []
  client : W

/-- What the interpreter supplies to the target: the sources and the streams of its client, `hashlib.sha256`, the
size beyond which `BytesIO` cannot grow, and the random bytes of its tokens. -/
structure MemoryHost (W : Type) where
  heap : SourceId → PayloadSource
  streams : StreamEnvironment W
  hasher : Hasher
  bufferLimit : Nat
  random : Nat → RandomBytes 32

/-- The identity of an object of the client. -/
def clientId (n : Nat) : Nat := Equiv.natSumNatEquivNat (.inl n)

/-- The identity of an object of the target. -/
def ownId (n : Nat) : Nat := Equiv.natSumNatEquivNat (.inr n)

/-- Whose object an identity is of. -/
def owner (id : Nat) : Nat ⊕ Nat := Equiv.natSumNatEquivNat.symm id

@[simp] theorem owner_clientId (n : Nat) : owner (clientId n) = .inl n := Equiv.symm_apply_apply _ _

@[simp] theorem owner_ownId (n : Nat) : owner (ownId n) = .inr n := Equiv.symm_apply_apply _ _

variable {T : StorePackages} {W : Type}

/-- A source of the client. -/
def clientSource : PayloadSource → PayloadSource
  | .stream stream => .stream (clientId stream)
  | .factory factory replayable => .factory (clientId factory) replayable
  | .other object replayable => .other object replayable

/-- The sources of the client, and for each content captured `FactoryPayloadSource(lambda: BytesIO(content))`. -/
def memoryHeap (heap : SourceId → PayloadSource) (source : SourceId) : PayloadSource :=
  match owner source with
  | .inl client => clientSource (heap client)
  | .inr own => .factory (ownId own) true

/-- A call of an object of the client. -/
def MemoryWorld.callClient {α : Type} (w : MemoryWorld T W) (f : W → α × W) : α × MemoryWorld T W :=
  ((f w.client).1, { w with client := (f w.client).2 })

/-- The streams of the client, and each own `BytesIO`. -/
def memoryStreams (streams : StreamEnvironment W) : StreamEnvironment (MemoryWorld T W) where
  read stream size w :=
    match owner stream with
    | .inl client => w.callClient (streams.read client size)
    | .inr own =>
      let rest := w.unread.getD own []
      (.ok (.bytes (rest.take size)), { w with unread := w.unread.set own (rest.drop size) })
  factory factory w :=
    match owner factory with
    | .inl client =>
      let (opened, w) := w.callClient (streams.factory client)
      (opened.map (Option.map clientId), w)
    | .inr own => (.ok (some (ownId w.unread.length)), { w with unread := w.unread ++ [w.captured.getD own []] })
  close stream w :=
    match owner stream with
    | .inl client => w.callClient (streams.close client)
    | .inr _ => (.ok (), w)
  enter object w :=
    let (entered, w) := w.callClient (streams.enter object)
    (entered.map clientId, w)
  exit object raised w := w.callClient (streams.exit object raised)

/-- The registry and the world. -/
structure TargetState (T : StorePackages) (W : Type) where
  store : PayloadStore
  world : MemoryWorld T W

/-- A method of the target. -/
abbrev TargetRoutine (T : StorePackages) (W : Type) (α : Type) : Type := Routine (TargetState T W) PyError α

namespace MemoryObjectTarget

/-! ## Arguments -/

/-- `operation.resources[0]` -/
def resourceOf (operation : Operation) : Py ResourceRef :=
  match operation.resources with
  | [] => .error (.builtin (.other "IndexError") "tuple index out of range")
  | resource :: _ => .ok resource

/-- A string of a normalized input. -/
def strArgument (operation : Operation) (name : String) : Py Str := do
  match ← getItem operation.input name with
  | .str s => return s
  | _ => .error (typeError [.foreign])

/-- A flag of a normalized input. -/
def boolArgument (operation : Operation) (name : String) : Py Bool := do
  let value ← getItem operation.input name
  asBool value (typeError [.foreign])

/-- A number of a normalized input. -/
def intArgument (operation : Operation) (name : String) : Py Int := do
  match ← getItem operation.input name with
  | .int n => return n
  | _ => .error (typeError [.foreign])

/-- A mapping of a normalized input, of which `isinstance` is asserted. -/
def mappingArgument (operation : Operation) (name : String) : Py Object := do
  let value ← getItem operation.input name
  asMapping value (.builtin .assertionError [])

/-- `mutability` of a put -/
def mutabilityOf (operation : Operation) : Py Json := do
  match ← getItem operation.input "immutability" with
  | .obj rawImmutability => getItem rawImmutability "mutability"
  | _ => return .str "mutable"

/-- `_key` -/
def key (resource : ResourceRef) (objectId : Str) : ObjectKey :=
  toLex (resource.namespaceName, toLex (resource.name, objectId))

/-! ## Payloads -/

variable (T) (host : MemoryHost W)

/-- `transfer_payload(payload, payloads, sink, chunk_size=7)` with a new `BytesIO`: the identity, and
`sink.getvalue()` -/
def receive (fuel : Nat) (payload : PayloadReference) : TargetRoutine T W (ContentIdentity × Bytes) := fun s =>
  (transferPayload (memoryHeap host.heap) ((memoryStreams host.streams).intoBuffer host.bufferLimit) host.hasher fuel
      (.reference payload) (.int 7) ⟨s.store, (s.world, []), []⟩).map fun (result, p) =>
    (result.map fun identity => (identity, p.world.2), ⟨p.store, p.world.1⟩)

/-- `payloads.register(FactoryPayloadSource(lambda: BytesIO(data)), ...)` -/
def register (data : Bytes) (expectedDigest : Json) : TargetRoutine T W PayloadReference :=
  .step fun s =>
    let n := s.world.captured.length
    let world := { s.world with captured := s.world.captured ++ [data] }
    match registerReference (memoryHeap host.heap) (ownId n) (tokenUrlsafe (host.random n)) (.int data.length)
        expectedDigest with
    | .error e => (.error e, ⟨s.store, world⟩)
    | .ok reference => (.ok reference, ⟨registerSection s.store reference (ownId n), world⟩)

/-! ## Results -/

variable {T} in
theorem member_wellFormed (metadata : T.ObjectMetadata) : Json.WellFormed (.obj (T.metadataToDict metadata)) :=
  T.metadataToDict_wellFormed metadata

/-- The result of a put and of a stat. -/
def metadataMember (metadata : T.ObjectMetadata) : JsonMapping :=
  ⟨[("metadata", .obj (T.metadataToDict metadata))], .obj (by simp) (by simpa using member_wellFormed metadata)⟩

/-- The result of a get. -/
def getMembers (metadata : T.ObjectMetadata) (payload : PayloadReference) : JsonMapping :=
  ⟨[("metadata", .obj (T.metadataToDict metadata)), ("payload", .obj payload.toDict)],
    .obj (by simp) (by simpa using ⟨member_wellFormed metadata, payload.toDict_wellFormed⟩)⟩

/-- The result of a range read. -/
def rangeMembers (metadata : T.ObjectMetadata) (payload : PayloadReference) (range : ResolvedByteRange) : JsonMapping :=
  ⟨[("metadata", .obj (T.metadataToDict metadata)), ("payload", .obj payload.toDict), ("range", .obj range.toDict)],
    .obj (by simp) (by
      simpa using ⟨member_wellFormed metadata, payload.toDict_wellFormed, range.toDict_wellFormed⟩)⟩

/-- The result of a list. -/
def listMembers (items : List T.ObjectMetadata) : JsonMapping :=
  ⟨[("items", .arr (items.map fun metadata => .obj (T.metadataToDict metadata))), ("cursor", .null)],
    .obj (by simp) (by
      simpa using ⟨.arr (by simpa using fun metadata _ => member_wellFormed metadata), Json.WellFormed.null⟩)⟩

theorem deleted_wellFormed : Json.WellFormed (.obj [("deleted", .bool true)]) :=
  .obj (by simp) (by simp [Json.WellFormed.bool])

/-- The result of a delete. -/
def deletedMember : JsonMapping := ⟨[("deleted", .bool true)], deleted_wellFormed⟩

/-! ## Handlers -/

/-- The stored Object that `_lookup` returns: the one found, unless its digest is not the one referenced. -/
def found (stored : Option (StoredObject T)) (digest : Option Str) : Py (StoredObject T) :=
  match stored with
  | none => .error ObjectNotFound
  | some stored =>
    if digest ≠ none ∧ digest ≠ some (T.metadataDigest stored.metadata) then .error ObjectNotFound else .ok stored

/-- `_lookup` -/
def lookup (operation : Operation) : TargetRoutine T W (StoredObject T) := do
  let raw ← .lift (mappingArgument operation "reference")
  let parsed ← .lift (parseLogicalReference T.toPackages raw)
  let resource ← .lift (resourceOf operation)
  .step fun s =>
    (found T (Dict.get? s.world.objects (key resource (T.objectId parsed.objectRef))) (T.digest parsed.objectRef), s)

/-- The metadata of a put, `identity` being that of the content received. -/
def newMetadata (operation : Operation) (resource : ResourceRef) (objectId : Str) (identity : ContentIdentity) :
    Py T.ObjectMetadata := do
  let resourceReference ← T.newResourceReference resource.namespaceName resource.name
  let reference ← T.newObjectReference resourceReference (.str objectId) (.str identity.digest.val)
  let mutability ← mutabilityOf operation
  let mediaType ← getItem operation.input "mediaType"
  let creationContext ← mappingArgument operation "creationContext"
  let userMetadata ← mappingArgument operation "userMetadata"
  let provenance ← mappingArgument operation "provenance"
  T.newObjectMetadata reference (.str identity.digest.val) (.int identity.byteLength) mediaType
    (.str "2026-08-25T00:00:00.000000Z") creationContext userMetadata mutability provenance
    (.str "meridian.object.v1")

/-- `_put`, up to the assignment: the key, and what is stored there. -/
def prepare (fuel : Nat) (operation : Operation) : TargetRoutine T W (ObjectKey × StoredObject T) := do
  let resource ← .lift (resourceOf operation)
  let objectId ← .lift (strArgument operation "objectId")
  let createOnly ← .lift (boolArgument operation "createOnly")
  .step fun s =>
    (raiseIf (createOnly = true ∧ (Dict.get? s.world.objects (key resource objectId)).isSome) ConditionalConflict, s)
  let rawPayload ← .lift (mappingArgument operation "payload")
  let payload ← .lift (PayloadReference.fromMapping rawPayload)
  let (identity, data) ← receive T host fuel payload
  let metadata ← .lift (newMetadata T operation resource objectId identity)
  return (key resource objectId, ⟨data, metadata⟩)

/-- `_put` -/
def put (fuel : Nat) (operation : Operation) : TargetRoutine T W JsonMapping := do
  let (k, stored) ← prepare T host fuel operation
  .step fun s => (.ok (), { s with world.objects := Dict.set s.world.objects k stored })
  return metadataMember T stored.metadata

/-- `_get` -/
def get (operation : Operation) : TargetRoutine T W JsonMapping := do
  let stored ← lookup T operation
  let reference ← register T host stored.data (.str (T.metadataDigest stored.metadata))
  return getMembers T stored.metadata reference

/-- `_stat` -/
def stat (operation : Operation) : TargetRoutine T W JsonMapping := do
  let stored ← lookup T operation
  return metadataMember T stored.metadata

/-- `_read_range` -/
def readRange (operation : Operation) : TargetRoutine T W JsonMapping := do
  let stored ← lookup T operation
  let rawRange ← .lift (mappingArgument operation "range")
  let selected ← .lift (ByteRange.fromMapping rawRange)
  let resolved ← .lift (selected.resolve (.int stored.data.length))
  let reference ← register T host (slice stored.data resolved.start (resolved.rangeEnd + 1)) .null
  return rangeMembers T stored.metadata reference resolved

/-- `sorted(self._objects.items())`: no two keys are equal, so that no two Objects are compared. -/
def sortedObjects (objects : Dict ObjectKey (StoredObject T)) : Dict ObjectKey (StoredObject T) :=
  objects.insertionSort fun a b => a.1 ≤ b.1

/-- `(namespace, name) == (resource.namespace, resource.name) and object_id.startswith(prefix)` -/
def matchesKey (resource : ResourceRef) (prefixText : Str) (k : ObjectKey) : Bool :=
  (ofLex k).1 = resource.namespaceName ∧ (ofLex (ofLex k).2).1 = resource.name ∧
    prefixText <+: (ofLex (ofLex k).2).2

/-- `_list` -/
def list (operation : Operation) : TargetRoutine T W JsonMapping := do
  let resource ← .lift (resourceOf operation)
  let prefixText ← .lift (strArgument operation "prefix")
  let limit ← .lift (intArgument operation "limit")
  .step fun s =>
    let matched := (sortedObjects T s.world.objects).filter fun entry => matchesKey resource prefixText entry.1
    (.ok (listMembers T ((matched.take limit.toNat).map fun entry => entry.2.metadata)), s)

/-- `_delete` -/
def delete (operation : Operation) : TargetRoutine T W JsonMapping := do
  let stored ← lookup T operation
  let resource ← .lift (resourceOf operation)
  let k := key resource (T.objectId (T.metadataObjectRef stored.metadata))
  .step fun s =>
    if (Dict.get? s.world.objects k).isSome then
      (.ok (), { s with world.objects := Dict.pop s.world.objects k })
    else (.error (.builtin .keyError [.foreign]), s)
  return deletedMember

/-! ## The target -/

/-- `operation.operation_contract.removeprefix("meridian.object.")` -/
def methodOf (operation : Operation) : Str :=
  (operation.operationContract.dropPrefix? (str "meridian.object.")).getD operation.operationContract

/-- `execute` -/
def execute (fuel : Nat) (operation : Operation) : TargetRoutine T W JsonMapping :=
  let method := methodOf operation
  if method = str "put" then put T host fuel operation
  else if method = str "get" then get T host operation
  else if method = str "stat" then stat T operation
  else if method = str "read_range" then readRange T host operation
  else if method = str "list" then list T operation
  else if method = str "delete" then delete T operation
  else .lift (.error (.builtin .assertionError [.text "test target cannot execute ", .repr method]))

variable {T} in
/-- `reset` -/
def reset (w : MemoryWorld T W) : MemoryWorld T W := { w with objects := [] }

variable {T host}

theorem receive_ends {fuel : Nat} (hfuel : host.bufferLimit < fuel) (payload : PayloadReference) :
    (receive T host fuel payload).Ends := by
  apply Ends.of_exists
  intro s
  obtain ⟨⟨result, p⟩, hresult⟩ : ∃ r, transferPayload (memoryHeap host.heap)
      ((memoryStreams host.streams).intoBuffer host.bufferLimit) host.hasher fuel (.reference payload) (.int 7)
      ⟨s.store, (s.world, []), []⟩ = some r := transferPayload_ends hfuel _ _
  unfold receive
  rw [hresult]
  exact ⟨_, rfl⟩

theorem lookup_ends (operation : Operation) : (lookup (W := W) T operation).Ends :=
  (Ends.lift _).bind fun _ => (Ends.lift _).bind fun _ => (Ends.lift _).bind fun _ => Ends.step _

theorem prepare_ends {fuel : Nat} (hfuel : host.bufferLimit < fuel) (operation : Operation) :
    (prepare T host fuel operation).Ends :=
  (Ends.lift _).bind fun _ => (Ends.lift _).bind fun _ => (Ends.lift _).bind fun _ => (Ends.step _).bind fun _ =>
    (Ends.lift _).bind fun _ => (Ends.lift _).bind fun _ => (receive_ends hfuel _).bind fun _ =>
    (Ends.lift _).bind fun _ => Ends.pure _

/-- An execution ends: only a put runs a loop, and its buffer cannot grow for ever. -/
theorem execute_ends {fuel : Nat} (hfuel : host.bufferLimit < fuel) (operation : Operation) :
    (execute T host fuel operation).Ends := by
  unfold execute
  dsimp only
  split
  · exact (prepare_ends hfuel operation).bind fun _ => (Ends.step _).bind fun _ => Ends.pure _
  split
  · exact (lookup_ends operation).bind fun _ => (Ends.step _).bind fun _ => Ends.pure _
  split
  · exact (lookup_ends operation).bind fun _ => Ends.pure _
  split
  · exact (lookup_ends operation).bind fun _ => (Ends.lift _).bind fun _ => (Ends.lift _).bind fun _ =>
      (Ends.lift _).bind fun _ => (Ends.step _).bind fun _ => Ends.pure _
  split
  · exact (Ends.lift _).bind fun _ => (Ends.lift _).bind fun _ => (Ends.lift _).bind fun _ => Ends.step _
  split
  · exact (lookup_ends operation).bind fun _ => (Ends.lift _).bind fun _ => (Ends.step _).bind fun _ => Ends.pure _
  · exact Ends.lift _

variable (T host)

/-- The target, as the conformance runner calls it. -/
def target : ConformanceTarget (MemoryWorld T W) where
  targetId w := ("memory-object-target/1.0", w)
  reset := reset
  execute operation store w :=
    let (answer, s) := (execute_ends (T := T) (Nat.lt_succ_self host.bufferLimit) operation).result ⟨store, w⟩
    (answer, s.store, s.world)

variable {T host}

theorem target_execute {operation : Operation} {store : PayloadStore} {w : MemoryWorld T W} {answer : Py JsonMapping}
    {t : TargetState T W} (h : execute T host (host.bufferLimit + 1) operation ⟨store, w⟩ = some (answer, t)) :
    (target T host).execute operation store w = (answer, t.store, t.world) := by
  have hresult := (execute_ends (T := T) (Nat.lt_succ_self host.bufferLimit) operation).result_eq h
  unfold target
  dsimp only
  rw [hresult]

end MemoryObjectTarget

end ObjectCommon
