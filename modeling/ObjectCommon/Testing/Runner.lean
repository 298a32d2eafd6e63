import ObjectCommon.Catalog.Surface
import ObjectCommon.Library.Routine
import ObjectCommon.ObjectMetadata
import ObjectCommon.Payloads.Content

/-!
# The conformance runner

A target is a state machine that shares the payload registry with the runner.

* `ConformanceReport`, `ConformanceReport.passed` : what a run reports;
* `ConformanceTarget`, `Harness` : the target, and what else the interpreter supplies to a run;
* `RunnerState` : the runner's own fields; its `log` is what happened between the runner and the target;
* `Harness.put`, `stat`, `get`, `range`, `list`, `duplicate`, `digestMismatch`, `delete` : the actions;
* `Harness.run` : `run_object_conformance`.
-/

namespace ObjectCommon

open Outcome PyError

/-! ## Reports -/

structure ConformanceCheck where
  name : Str
  passed : Bool
  detail : Str
  deriving DecidableEq

structure ConformanceReport where
  targetId : Str
  checks : List ConformanceCheck
  deriving DecidableEq

/-- `bool(self.checks) and all(check.passed for check in self.checks)` -/
def ConformanceReport.passed (r : ConformanceReport) : Bool :=
  !r.checks.isEmpty && r.checks.all ConformanceCheck.passed

/-- The class that raises a code. -/
def ObjectErrorCode.className : ObjectErrorCode → Str
  | .invalidRequest => "ObjectInvalidRequest"
  | .notFound => "ObjectNotFound"
  | .conditionalConflict => "ConditionalConflict"
  | .immutable => "ImmutableObjectConflict"
  | .retentionDenied => "RetentionDenied"
  | .digestMismatch => "DigestMismatch"
  | .incompleteUpload => "IncompleteUpload"
  | .payloadUnavailable => "PayloadUnavailable"
  | .rangeNotSatisfiable => "RangeNotSatisfiable"
  | .multipartInvalid => "MultipartInvalid"
  | .capabilityMismatch => "ObjectCapabilityMismatch"
  | .authentication => "ObjectAuthenticationFailed"
  | .authorization => "ObjectAuthorizationFailed"
  | .quota => "ObjectQuotaExceeded"
  | .rateLimit => "ObjectRateLimited"
  | .transferCancelled => "TransferCancelled"
  | .unavailable => "ObjectUnavailable"

def Builtin.className : Builtin → Str
  | .typeError => "TypeError"
  | .valueError => "ValueError"
  | .unicodeEncodeError => "UnicodeEncodeError"
  | .keyError => "KeyError"
  | .attributeError => "AttributeError"
  | .assertionError => "AssertionError"
  | .overflowError => "OverflowError"
  | .runtimeError => "RuntimeError"
  | .other name => name

/-- `type(exc).__name__`, an exception of a subclass counting as one of the class. -/
def PyError.className : PyError → Str
  | .builtin kind _ => kind.className
  | .meridian code _ _ => code.className

/-! ## Targets -/

/-- `Mapping[str, object]`, a plain JSON mapping -/
abbrev JsonMapping := {d : Object // Json.WellFormed (.obj d)}

/-- An implementation of `ObjectConformanceTarget` with its state. An execution may leave the registry in any
state. -/
structure ConformanceTarget (W : Type) where
  targetId : W → Str × W
  reset : W → W
  execute : Operation → PayloadStore → W → Py JsonMapping × PayloadStore × W

/-- What the streams and the sources that are registered do. -/
structure StreamEnvironment (W : Type) where
  read : StreamId → Nat → W → Py Chunk × W
  factory : FactoryId → W → Py (Option StreamId) × W
  close : StreamId → W → Py Unit × W
  enter : Nat → W → Py StreamId × W
  exit : Nat → Option PyError → W → Py Bool × W

/-- A run's surroundings: the target, the sources and their streams, `hashlib.sha256`, the size beyond which
`BytesIO` cannot grow, and for each payload the runner registers its source and its generated token. -/
structure Harness (W : Type) where
  target : ConformanceTarget W
  heap : SourceId → PayloadSource
  streams : StreamEnvironment W
  hasher : Hasher
  bufferLimit : Nat
  fixtureSource : Nat → SourceId
  fixtureSource_factory : ∀ n, ∃ factory, heap (fixtureSource n) = .factory factory true
  generated : Nat → Str

variable {W : Type}

/-- A call that leaves the buffer as it is. -/
def besideBuffer {α : Type} (f : W → α × W) (w : W × Bytes) : α × (W × Bytes) := ((f w.1).1, ((f w.1).2, w.2))

/-- `BytesIO.write` at the end of the buffer -/
def writeBuffer (limit : Nat) (chunk : Bytes) (w : W × Bytes) : Py (Option Int) × (W × Bytes) :=
  if limit < w.2.length + chunk.length then (.error (.builtin .overflowError "new buffer size too large"), w)
  else (.ok (some (chunk.length : Int)), (w.1, w.2 ++ chunk))

/-- The world of a transfer into a new `BytesIO`. -/
def StreamEnvironment.intoBuffer (streams : StreamEnvironment W) (limit : Nat) : Environment (W × Bytes) where
  read stream size := besideBuffer (streams.read stream size)
  write := writeBuffer limit
  cancelled := none
  factory factory := besideBuffer (streams.factory factory)
  close stream := besideBuffer (streams.close stream)
  enter object := besideBuffer (streams.enter object)
  exit object raised := besideBuffer (streams.exit object raised)

/-- What happened between the runner and the target: a call of `execute` with its answer, or a transfer with
its outcome and the bytes it wrote. -/
inductive Exchange where
  | executed (operation : Operation) (answer : Py JsonMapping)
  | transferred (reference : PayloadReference) (result : Py ContentIdentity) (delivered : Bytes)

/-- The registry, the world with the target's state, the payloads registered so far, `self.metadata`, and what
happened. -/
structure RunnerState (T : ClientPackages) (W : Type) where
  store : PayloadStore := {}
  world : W
  registered : Nat := 0
  metadata : Option T.ObjectMetadata := none
  log : List Exchange := []

/-! ## Fixtures -/

def fixturePayload : Bytes :=
  ("Meridian object conformance payload".toList.map fun c => UInt8.ofNat c.toNat) ++ [0x00, 0xff, 0x0a]

def fixtureResource : ObjectCatalogSurface.Wire := ⟨.str "object:conformance.objects", .str _⟩

def fixtureObjectId : Str := "fixture/object-001"

/-- `"sha256:" + "0" * 64` -/
def wrongDigest : Str := str "sha256:" ++ List.replicate 64 (codePoint '0')

/-- `bytes 2..9` -/
def fixtureRange : ByteRange := ⟨some 2, some 9, none, 2, rfl, by simp⟩

/-- The put of the fixture, of a payload reference. -/
def putExpression (payload : PayloadReference) (digest : Str) : Expression :=
  ObjectCatalogSurface.putOf payload
    { resource := fixtureResource.val
      objectId := fixtureObjectId
      payload := .record payload
      mediaType := "application/octet-stream"
      expectedDigest := some digest
      createOnly := true
      userMetadata := [("fixture", "v1")]
      immutability := .obj [("mutability", .str "immutable"), ("publishOnce", .bool true)]
      resource_wellFormed := fixtureResource.2
      userMetadata_nodup := List.nodup_singleton _
      immutability_wellFormed := .obj (by simp) (by simp [Json.WellFormed.str, Json.WellFormed.bool]) }

/-- A create-only put of a payload reference. -/
def createExpression (objectId : Str) (payload : PayloadReference) (digest : Str) : Expression :=
  ObjectCatalogSurface.putOf payload
    { resource := fixtureResource.val
      objectId := objectId
      payload := .record payload
      mediaType := "application/octet-stream"
      expectedDigest := some digest
      createOnly := true
      resource_wellFormed := fixtureResource.2 }

/-- The JSON of a reference. -/
def referenceWire (P : Packages) (r : P.ObjectReference) : ObjectCatalogSurface.Wire :=
  ⟨.obj (P.referenceToDict r), P.referenceToDict_wellFormed r⟩

/-! ## Actions -/

/-- An action of the runner. -/
abbrev RunnerRoutine (T : ClientPackages) (W : Type) (α : Type) : Type := Routine (RunnerState T W) PyError α

/-- `assert c` -/
def assertThat (c : Prop) [Decidable c] (message : Message := []) : Py Unit :=
  raiseIf (¬ c) (.builtin .assertionError message)

/-- `_metadata_result` -/
def metadataResult (T : ClientPackages) (result : JsonMapping) : Py T.ObjectMetadata :=
  match Dict.get? result.val "metadata" with
  | some (.obj value) => parseObjectMetadata T (.obj value)
  | _ => .error (.builtin .assertionError "Object result requires metadata")

/-- `result.get("payload")`, a mapping that is parsed -/
def payloadResult (result : JsonMapping) (message : Message) : Py PayloadReference :=
  match Dict.get? result.val "payload" with
  | some (.obj value) => PayloadReference.fromMapping value
  | _ => .error (.builtin .assertionError message)

namespace Harness

variable (T : ClientPackages) (h : Harness W)

/-- `self.digest` -/
def digest : Str := str "sha256:" ++ h.hasher.hexdigest (h.hasher.update h.hasher.new fixturePayload)

/-- `self.target.execute(operation, self.payloads)` -/
def executeOperation (operation : Operation) : RunnerRoutine T W JsonMapping :=
  .step fun s =>
    let (answer, store, world) := h.target.execute operation s.store s.world
    (answer, { s with store := store, world := world, log := s.log ++ [.executed operation answer] })

/-- `_execute`, with the construction of its Expression -/
def execute (expression : Expression) : RunnerRoutine T W JsonMapping := do
  .lift (T.checkExpression expression)
  let operation ← .lift (normalize T.toPackages expression)
  h.executeOperation T operation

/-- `_payload_reference` -/
def payloadReference (digestValue : Option Str := none) : RunnerRoutine T W PayloadReference :=
  .step fun s =>
    let n := s.registered
    match registerReference h.heap (h.fixtureSource n) (h.generated n) .null (.str (digestValue.getD h.digest)) with
    | .error e => (.error e, { s with registered := n + 1 })
    | .ok reference =>
      (.ok reference,
        { s with store := registerSection s.store reference (h.fixtureSource n), registered := n + 1 })

/-- `transfer_payload(reference, self.payloads, sink)` with a new `BytesIO`: the identity, and the sink's value -/
def receive (fuel : Nat) (reference : PayloadReference) : RunnerRoutine T W (ContentIdentity × Bytes) := fun s =>
  (transferPayload h.heap (h.streams.intoBuffer h.bufferLimit) h.hasher fuel (.reference reference)
      (.int defaultChunkSize) ⟨s.store, (s.world, []), []⟩).map fun (result, p) =>
    (result.map fun identity => (identity, p.world.2),
      { s with store := p.store, world := p.world.1, log := s.log ++ [.transferred reference result p.world.2] })

/-- `_required_metadata` -/
def requiredMetadata : RunnerRoutine T W T.ObjectMetadata := fun s =>
  match s.metadata with
  | none => some (.error (.builtin .assertionError "put did not produce metadata"), s)
  | some metadata => some (.ok metadata, s)

/-- `_reference` -/
def reference : RunnerRoutine T W ObjectCatalogSurface.Wire := do
  let metadata ← requiredMetadata T
  return referenceWire T.toPackages (T.metadataObjectRef metadata)

/-- `_put` -/
def put : RunnerRoutine T W Unit := do
  let payload ← h.payloadReference T
  let result ← h.execute T (putExpression payload h.digest)
  let metadata ← .lift (metadataResult T result)
  .lift (assertThat (T.metadataDigest metadata = h.digest))
  .lift (assertThat (T.metadataByteLength metadata = fixturePayload.length))
  .lift (assertThat (T.digest (T.metadataObjectRef metadata) = some h.digest))
  .step fun s => (.ok (), { s with metadata := some metadata })

/-- `_stat` -/
def stat : RunnerRoutine T W Unit := do
  let reference ← reference T
  let result ← h.execute T (ObjectCatalogSurface.stat fixtureResource reference)
  let metadata ← .lift (metadataResult T result)
  let expected ← requiredMetadata T
  .lift (assertThat (Json.pyEq (.obj (T.metadataToDict metadata)) (.obj (T.metadataToDict expected)) = true))

/-- `_get` -/
def get (fuel : Nat) : RunnerRoutine T W Unit := do
  let reference ← reference T
  let result ← h.execute T (ObjectCatalogSurface.get fixtureResource reference)
  let metadata ← .lift (metadataResult T result)
  .lift (assertThat (T.metadataDigest metadata = h.digest))
  let payload ← .lift (payloadResult result "get result requires payload")
  let (identity, received) ← h.receive T fuel payload
  .lift (assertThat (identity.digest.val = h.digest))
  .lift (assertThat (received = fixturePayload))

/-- `_range` -/
def range (fuel : Nat) : RunnerRoutine T W Unit := do
  let reference ← reference T
  let result ← h.execute T (ObjectCatalogSurface.readRangeOf fixtureResource reference fixtureRange)
  let payload ← .lift (payloadResult result "range result requires payload")
  let (_, received) ← h.receive T fuel payload
  .lift (assertThat (received = (fixturePayload.take 10).drop 2))
  let resolved ← .lift (fixtureRange.resolve (.int fixturePayload.length))
  .lift (assertThat (((Dict.get? result.val "range").getD .null).pyEq (.obj resolved.toDict) = true))

/-- The one item of a list result. -/
def listItem (result : JsonMapping) : Py Json :=
  match Dict.get? result.val "items" with
  | some (.arr [item]) => .ok item
  | _ => .error (.builtin .assertionError "bounded list must return one fixture")

/-- `cursor is None or isinstance(cursor, str)` -/
def cursorAllowed (result : JsonMapping) : Bool :=
  match Dict.get? result.val "cursor" with
  | none => true
  | some .null => true
  | some (.str _) => true
  | _ => false

/-- `_list` -/
def list : RunnerRoutine T W Unit := do
  let result ← h.execute T (ObjectCatalogSurface.list fixtureResource "fixture/" 1)
  let item ← .lift (listItem result)
  let metadata ← .lift (parseObjectMetadata T item)
  .lift (assertThat (T.metadataDigest metadata = h.digest))
  .lift (assertThat (cursorAllowed result = true))

/-- `_duplicate` -/
def duplicate : RunnerRoutine T W Unit := do
  let payload ← h.payloadReference T
  let _ ← h.execute T (createExpression fixtureObjectId payload h.digest)

/-- `_digest_mismatch` -/
def digestMismatch : RunnerRoutine T W Unit := do
  let payload ← h.payloadReference T (some wrongDigest)
  let _ ← h.execute T (createExpression "fixture/digest-mismatch" payload wrongDigest)

/-- `_delete` -/
def delete : RunnerRoutine T W Unit := do
  let reference ← reference T
  let result ← h.execute T (ObjectCatalogSurface.delete fixtureResource reference (some (str "conformance-cleanup")))
  .lift (assertThat (Json.pyEq (.obj result.val) (.obj [("deleted", .bool true)]) = true))

/-! ## The run -/

/-- `_check` -/
def check (name : Str) (action : RunnerRoutine T W Unit) : RunnerRoutine T W ConformanceCheck := do
  match ← action.outcome with
  | .error e => return ⟨name, false, e.className⟩
  | .ok () => return ⟨name, true, "ok"⟩

/-- `_expected` -/
def expected (name : Str) (code : ObjectErrorCode) (action : RunnerRoutine T W Unit) :
    RunnerRoutine T W ConformanceCheck := do
  match ← action.outcome with
  | .error e => return if e.code? = some code then ⟨name, true, code.className⟩ else ⟨name, false, e.className⟩
  | .ok () => return ⟨name, false, "no-error"⟩

/-- `run_object_conformance` -/
def run (fuel : Nat) : RunnerRoutine T W ConformanceReport := do
  .step fun s => (.ok (), { s with world := h.target.reset s.world })
  let c₁ ← check T "unknown-length-streaming-put" (h.put T)
  let c₂ ← check T "stat-content-identity" (h.stat T)
  let c₃ ← check T "streaming-get" (h.get T fuel)
  let c₄ ← check T "inclusive-range-read" (h.range T fuel)
  let c₅ ← check T "bounded-prefix-list" (h.list T)
  let c₆ ← expected T "conditional-create-conflict" .conditionalConflict (h.duplicate T)
  let c₇ ← expected T "digest-mismatch" .digestMismatch (h.digestMismatch T)
  let c₈ ← check T "exact-version-delete" (h.delete T)
  let c₉ ← expected T "missing-object" .notFound (h.stat T)
  let targetId ← .step fun s => (.ok (h.target.targetId s.world).1, { s with world := (h.target.targetId s.world).2 })
  return ⟨targetId, [c₁, c₂, c₃, c₄, c₅, c₆, c₇, c₈, c₉]⟩

end Harness

end ObjectCommon
