import ObjectCommon.Testing.MemoryHandles

/-!
# The conformance runner on the in-memory target

* `MemoryRunner`, `MemoryRunner.harness` : what the interpreter supplies to a run of the checks against the target;
* `receive_upload` : the target receives what the runner registered;
* `prepare_eq`, `newMetadata_eq` : what a put under a free key makes of the content it receives.
-/

namespace ObjectCommon

open Outcome PyError Routine MemoryObjectTarget

/-! ## The runner -/

/-- What the interpreter supplies to a run of the checks: to the target, and to the runner the sources of the payloads
it registers and the random bytes of their tokens. -/
structure MemoryRunner (W : Type) extends MemoryHost W where
  fixture : Nat → SourceId
  fixture_factory : ∀ n, ∃ factory, heap (fixture n) = .factory factory true
  token : Nat → RandomBytes 32

variable {T : StorePackages} {W : Type}

/-- The run of the checks against the target. -/
def MemoryRunner.harness (T : StorePackages) (c : MemoryRunner W) : Harness (MemoryWorld T W) where
  target := target T c.toMemoryHost
  heap := memoryHeap c.heap
  streams := memoryStreams c.streams
  hasher := c.hasher
  bufferLimit := c.bufferLimit
  fixtureSource n := clientId (c.fixture n)
  fixtureSource_factory n := by
    obtain ⟨factory, hfactory⟩ := c.fixture_factory n
    refine ⟨clientId factory, ?_⟩
    rw [memoryHeap_clientId, hfactory]
    rfl
  generated n := tokenUrlsafe (c.token n)

/-- Each source of the runner is `FactoryPayloadSource(lambda: BytesIO(self.payload), replayable=True)`. -/
def MemoryRunner.OpensFixture (c : MemoryRunner W) : Prop :=
  ∀ n w, ∃ stream w', OpensBytes c.streams fixturePayload (c.heap (c.fixture n)) w stream w'

/-! ## Sources of the runner -/

variable {host : MemoryHost W} {fuel : Nat} {operation : Operation} {s t : TargetState T W}

/-- The target receives a payload that the runner registered: it raises `DigestMismatch` when another digest was
declared, and else has the fixture. -/
theorem receive_upload {c : MemoryRunner W} (hH : c.hasher.Sha256) (hopens : c.OpensFixture)
    (hroom : fixturePayload.length ≤ c.bufferLimit) (hfuel : fixturePayload.length < fuel) {n : Nat}
    (payload : PayloadReference) (hreplay : payload.replayable = true) (hlength : payload.expectedLength = none)
    (hsource : Dict.get? s.store.sources payload.token.val = some (clientId (c.fixture n))) :
    ∃ t, receive T c.toMemoryHost fuel payload s =
        some (if ∃ d ∈ payload.expectedDigest, d ≠ (Hasher.identity hH fixturePayload).digest then .error DigestMismatch
          else .ok (Hasher.identity hH fixturePayload, fixturePayload), t) ∧ t.world.held = s.world.held := by
  obtain ⟨factory, hfactory⟩ := c.fixture_factory n
  obtain ⟨stream, client, hbytes⟩ := hopens n s.world.client
  have hheap : memoryHeap c.heap (clientId (c.fixture n)) = .factory (clientId factory) true := by
    rw [memoryHeap_clientId, hfactory]
    rfl
  have hparse : parsePayloadReference (.reference payload) = .ok payload := rfl
  have hpos : 0 < 7 := by decide
  obtain ⟨p, hp, hdata, -⟩ := transferPayload_received (H := c.hasher) (p := ⟨s.store, (s.world, []), []⟩) hH hparse
    (openSections_replayable hheap hreplay hsource) (clientSource_opensBytes hbytes) rfl hpos (by decide) hroom hfuel
    (fun m hm => by rw [hlength] at hm; cases hm)
  have hreceive : receive T c.toMemoryHost fuel payload s = some (if ∃ d ∈ payload.expectedDigest,
      d ≠ (Hasher.identity hH fixturePayload).digest then .error DigestMismatch
        else .ok (Hasher.identity hH fixturePayload, fixturePayload), ⟨p.store, p.world.1⟩) := by
    refine Option.map_eq_some_iff.mpr ⟨_, hp, Prod.ext ?_ rfl⟩
    dsimp only
    rw [hdata]
    split
    · rfl
    · rfl
  exact ⟨_, hreceive, receive_keeps payload _ _ _ hreceive⟩

/-! ## Puts -/

variable {resource : ResourceRef} {p : PutRequest}

/-- A put whose key may be written stores what it receives. -/
theorem prepare_eq (host : MemoryHost W) (fuel : Nat) (hasks : Asks (P := T.toPackages) operation "put" resource (.put p))
    (hfree : p.createOnly = true → Dict.get? s.world.objects (key resource p.objectId.val) = none) :
    prepare T host fuel operation s = (do
      let (identity, data) ← receive T host fuel p.payload
      let metadata ← .lift (newMetadata T operation resource p.objectId.val identity)
      return (key resource p.objectId.val, ⟨data, metadata⟩) : TargetRoutine T W (ObjectKey × StoredObject T)) s := by
  obtain ⟨-, -, hp⟩ := hasks.reads
  obtain ⟨raw, hraw, hparse⟩ := hp.integrity.payload
  have hguard : (step fun s : TargetState T W => (raiseIf (p.createOnly = true ∧
      (Dict.get? s.world.objects (key resource p.objectId.val)).isSome) ConditionalConflict, s)).Returns s () s := by
    rw [returns_step, raiseIf, if_neg]
    rintro ⟨hcreate, htaken⟩
    rw [hfree hcreate] at htaken
    cases htaken
  unfold prepare
  rw [resourceOf_eq hasks.resources, lift_ok_bind, strArgument_eq_ok.mpr hp.identity.objectId, lift_ok_bind,
    boolArgument_eq_ok.mpr hp.createOnly, lift_ok_bind, Returns.bind_eq hguard, mappingArgument_eq_ok.mpr hraw,
    lift_ok_bind, hparse, lift_ok_bind]

/-- The metadata of a put, from the parts of its request. -/
theorem newMetadata_eq (hp : p.Reads T.toPackages operation.input resource) {userMetadata : Object}
    (huser : Dict.get? operation.input "userMetadata" = some (.obj userMetadata)) (identity : ContentIdentity) :
    newMetadata T operation resource p.objectId.val identity = (do
      let resourceReference ← T.newResourceReference resource.namespaceName resource.name
      let reference ← T.newObjectReference resourceReference (.str p.objectId.val) (.str identity.digest.val)
      T.newObjectMetadata reference (.str identity.digest.val) (.int identity.byteLength) (.str p.mediaType.val.val)
        (.str "2026-08-25T00:00:00.000000Z") p.creationContext userMetadata
        (.str ((p.immutability.map fun i => i.mutability.value).getD (str "mutable"))) p.provenance
        (.str "meridian.object.v1")) := by
  have hmutability : mutabilityOf operation =
      .ok (.str ((p.immutability.map fun i => i.mutability.value).getD (str "mutable"))) := by
    obtain ⟨j, hj, hdocument⟩ := hp.intents.immutability
    unfold mutabilityOf
    rw [getItem_eq_ok.mpr hj]
    cases himmutability : p.immutability with
    | none =>
      rw [himmutability] at hdocument
      obtain rfl : j = .null := hdocument
      rfl
    | some i =>
      rw [himmutability] at hdocument
      obtain ⟨raw, rfl, hparse⟩ := hdocument
      have hsame := ImmutabilityRequest.fromMapping_eq_ok.mp hparse "mutability"
      exact getItem_eq_ok.mpr hsame
  unfold newMetadata
  rw [hmutability, getItem_eq_ok.mpr hp.identity.mediaType, mappingArgument_eq_ok.mpr hp.metadata.creationContext,
    mappingArgument_eq_ok.mpr huser, mappingArgument_eq_ok.mpr hp.metadata.provenance]
  rfl

end ObjectCommon
