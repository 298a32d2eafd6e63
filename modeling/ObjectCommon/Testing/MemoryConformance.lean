import ObjectCommon.Testing.MemoryRunner
import ObjectCommon.Testing.Soundness

/-!
# The in-memory target conforms

* `Conforming` : what a run of the checks relies on;
* `Holds` : the target holds the fixture, and the runner its metadata;
* `put_passes`, `stat_passes`, `get_passes`, ..., `stat_missing` : each check, from the state that the one before leaves;
* `memoryTarget_conforms` : every check of a run passes.
-/

namespace ObjectCommon

open Outcome PyError Routine MemoryObjectTarget

variable {T : StorePackages} {W : Type}

/-! ## What a run relies on -/

/-- The id of the put whose digest is wrong. -/
def mismatchObjectId : Str := "fixture/digest-mismatch"

/-- The packages accept the requests for the fixture and its metadata; the runner's sources give the fixture, for which
the buffers have room, and its digest is not the wrong one. -/
structure Conforming (T : StorePackages) (c : MemoryRunner W) (resource : ResourceRef) : Prop where
  documented : T.Documented
  admits : T.Admits
  addsNoPrivateKey : T.AddsNoPrivateKey
  checkExpression : ∀ (call : SurfaceCall T.toPackages) e r, call.expression = .ok e → call.Means resource r →
    T.checkExpression e = .ok ()
  parseResourceRef : T.parseResourceRef fixtureResource.val "object" = .ok resource
  keepsObjectId : T.normalObjectId fixtureObjectId = fixtureObjectId
  newReference : ∃ semantic, T.newResourceReference resource.namespaceName resource.name = .ok semantic ∧
    ∀ objectId ∈ [fixtureObjectId, mismatchObjectId], ∀ d : Digest, ∃ r,
      T.newObjectReference semantic (.str objectId) (.str d.val) = .ok r
  newObjectMetadata : ∀ r (d : Digest), T.digest r = some d.val → ∃ m,
    T.newObjectMetadata r (.str d.val) (.int fixturePayload.length) (.str "application/octet-stream")
      (.str "2026-08-25T00:00:00.000000Z") [] [("fixture", .str "v1")] (.str "immutable") []
      (.str "meridian.object.v1") = .ok m ∧ Json.Textual (.obj (T.metadataToDict m))
  sha256 : c.hasher.Sha256
  opens : c.OpensFixture
  room : fixturePayload.length ≤ c.bufferLimit
  digest_ne : (Hasher.identity sha256 fixturePayload).digest.val ≠ wrongDigest

variable {c : MemoryRunner W} {resource : ResourceRef} {s s' : RunnerState T.toClientPackages (MemoryWorld T W)}
  {m : T.ObjectMetadata} {fuel : Nat}

/-- The digest of the fixture. -/
def Conforming.digest (h : Conforming T c resource) : Digest := (Hasher.identity h.sha256 fixturePayload).digest

/-- The target holds the fixture alone, and the runner its metadata. -/
structure Holds (h : Conforming T c resource) (s : RunnerState T.toClientPackages (MemoryWorld T W))
    (m : T.ObjectMetadata) : Prop where
  metadata : s.metadata = some m
  objects : s.world.objects = [(key resource fixtureObjectId, ⟨fixturePayload, m⟩)]
  intact : StoredObject.Intact h.sha256 (key resource fixtureObjectId) (⟨fixturePayload, m⟩ : StoredObject T)
  textual : Json.Textual (.obj (T.metadataToDict m))

/-- The state of the target in a run. -/
def targetState (s : RunnerState T.toClientPackages (MemoryWorld T W)) : TargetState T W := ⟨s.store, s.world⟩

/-- The state of the run after the target was called. -/
def afterCall (s : RunnerState T.toClientPackages (MemoryWorld T W)) (operation : Operation) (answer : Py JsonMapping)
    (t : TargetState T W) : RunnerState T.toClientPackages (MemoryWorld T W) :=
  { s with store := t.store, world := t.world, log := s.log ++ [.executed operation answer] }

/-! ## Calls of the target -/

/-- A call of the surface that stands for a request is answered as the target answers its Operation. -/
theorem execute_call (h : Conforming T c resource) {call : SurfaceCall T.toPackages} {r : Request T.toPackages}
    {e : Expression} (he : call.expression = .ok e) (hmeans : call.Means resource r) :
    ∃ operation, Asks operation e.method resource r.canonical ∧ operation.input = Dict.update e.arguments r.updates ∧
      ∀ answer t, execute T c.toMemoryHost (c.bufferLimit + 1) operation (targetState s) = some (answer, t) →
        (c.harness T).execute T.toClientPackages e s = some (answer, afterCall s operation answer t) := by
  obtain ⟨e', operation, he', hnormal, hasks, hinput⟩ := hmeans.normalized h.documented.roundTrips
    h.documented.findsOperations h.admits h.addsNoPrivateKey
  obtain rfl : e = e' := Except.ok.inj (he.symm.trans he')
  refine ⟨operation, hasks, hinput, fun answer t hexec => ?_⟩
  have hresult : (c.harness T).target.execute operation s.store s.world = (answer, t.store, t.world) :=
    target_execute hexec
  unfold Harness.execute
  rw [h.checkExpression call e r he hmeans, lift_ok_bind, hnormal, lift_ok_bind]
  unfold Harness.executeOperation step
  beta_reduce
  rw [hresult]
  rfl

/-- The Resource of the fixture. -/
theorem Conforming.names (h : Conforming T c resource) : NamesResource T.toPackages fixtureResource resource :=
  ⟨h.parseResourceRef, not_hasPrivateKey_str _⟩

/-- The stored reference, as it is given to the surface. -/
abbrev storedReference (m : T.ObjectMetadata) : ObjectCatalogSurface.Given (LogicalReference T.toPackages) :=
  .record (.object (T.metadataObjectRef m))

/-- The stored reference names the fixture. -/
theorem Holds.key {h : Conforming T c resource} (hs : Holds h s m) :
    referenceKey (T.metadataObjectRef m) = MemoryObjectTarget.key resource fixtureObjectId := by
  rw [hs.intact.key]
  exact congrArg (MemoryObjectTarget.key resource) h.keepsObjectId

theorem Holds.objectId {h : Conforming T c resource} (hs : Holds h s m) :
    T.objectId (T.metadataObjectRef m) = fixtureObjectId := congrArg (fun k => (ofLex (ofLex k).2).2) hs.key

/-- The stored reference may be used by every method. -/
theorem Holds.mayUse {h : Conforming T c resource} (hs : Holds h s m) (method : Str) (requireDigest : Bool) :
    MayUse method requireDigest resource (storedReference m) (.object (T.metadataObjectRef m)) where
  isReference := ⟨rfl, trivial⟩
  permits _ := by
    rw [hs.intact.version]
    simp
  sameResource := by
    have hcatalog := h.documented.resolvesResources.parseResourceRef _ _ h.parseResourceRef
    refine ⟨hs.intact.catalog.trans hcatalog.symm, ?_, ?_⟩
    · exact congrArg (fun k => (ofLex k).1) hs.key
    · exact congrArg (fun k => (ofLex (ofLex k).2).1) hs.key

/-- The stored reference finds the fixture. -/
theorem Holds.lookedUp {h : Conforming T c resource} (hs : Holds h s m) :
    MemoryObjectTarget.lookedUp (targetState s) resource
      (.object (T.metadataObjectRef m) : LogicalReference T.toPackages) = .ok ⟨fixturePayload, m⟩ := by
  refine found_eq_ok.mpr ⟨?_, Or.inr hs.intact.version⟩
  show Dict.get? s.world.objects (MemoryObjectTarget.key resource (T.objectId (T.metadataObjectRef m))) = _
  rw [hs.objects, hs.objectId]
  simp

/-- The metadata of the put is there. -/
theorem requiredMetadata_holds (hm : s.metadata = some m) :
    (Harness.requiredMetadata T.toClientPackages : RunnerRoutine T.toClientPackages (MemoryWorld T W) _).Returns
      s m s := by
  unfold Returns Harness.requiredMetadata
  rw [hm]

/-- The reference of the put is there. -/
theorem stored_reference (hm : s.metadata = some m) :
    (Harness.reference T.toClientPackages : RunnerRoutine T.toClientPackages (MemoryWorld T W) _).Returns s
      (storedReference m).referenceWire s :=
  returns_bind.mpr ⟨m, s, requiredMetadata_holds hm, rfl⟩

/-- An assertion that holds. -/
theorem assertThat_holds {p : Prop} [Decidable p] (hp : p) (message : Message) : assertThat p message = .ok () :=
  assertThat_eq_ok.mpr hp

/-- A call that leaves the objects as they are. -/
theorem Holds.afterCall {h : Conforming T c resource} (hs : Holds h s m) {operation : Operation}
    {answer : Py JsonMapping} {t : TargetState T W} (ht : t.world.objects = s.world.objects) :
    Holds h (ObjectCommon.afterCall s operation answer t) m :=
  ⟨hs.metadata, ht.trans hs.objects, hs.intact, hs.textual⟩

/-! ## Reads -/

/-- `_stat` on a target that holds the fixture. -/
theorem stat_passes {h : Conforming T c resource} (hs : Holds h s m) :
    ∃ s', ((c.harness T).stat T.toClientPackages).Returns s () s' ∧ Holds h s' m := by
  have hmeans : (SurfaceCall.stat fixtureResource (storedReference m)).Means resource
      (.read (.object (T.metadataObjectRef m))) := ⟨h.names, _, hs.mayUse _ _, rfl⟩
  obtain ⟨operation, hasks, -, hcall⟩ := execute_call (s := s) h rfl hmeans
  have hexec := execute_stat c.toMemoryHost (c.bufferLimit + 1) hasks (targetState s)
  rw [hs.lookedUp] at hexec
  have hexecute : ((c.harness T).execute T.toClientPackages (ObjectCatalogSurface.stat fixtureResource
      (storedReference m).referenceWire)).Returns s
        (metadataMember T m) (afterCall s operation (.ok (metadataMember T m)) (targetState s)) := hcall _ _ hexec
  have hs' : Holds h (afterCall s operation (.ok (metadataMember T m)) (targetState s)) m := hs.afterCall rfl
  have hequal : Json.pyEq (.obj (T.metadataToDict m)) (.obj (T.metadataToDict m)) = true :=
    Json.pyEq_self (T.metadataToDict_wellFormed m) hs.textual
  refine ⟨_, ?_, hs'⟩
  unfold Harness.stat
  rw [Returns, Returns.bind_eq (stored_reference hs.metadata), Returns.bind_eq hexecute,
    metadataResult_member h.documented, lift_ok_bind, Returns.bind_eq (requiredMetadata_holds hs'.metadata),
    assertThat_holds hequal]
  rfl

/-- The runner receives what the target registered. -/
theorem receive_registered (hH : c.hasher.Sha256) {data : Bytes} {d : Option Digest} {t : TargetState T W}
    (hd : ∀ d' ∈ d, d' = (Hasher.identity hH data).digest) (hroom : data.length ≤ c.bufferLimit)
    (hfuel : data.length < fuel) (hstate : targetState s = registered c.toMemoryHost t data d) :
    ∃ s', ((c.harness T).receive T.toClientPackages fuel
        (ownReference c.toMemoryHost t.world.captured.length data d)).Returns s (Hasher.identity hH data, data) s' ∧
      s'.world.objects = t.world.objects ∧ s'.metadata = s.metadata := by
  have hstore : s.store = (registered c.toMemoryHost t data d).store := congrArg TargetState.store hstate
  have hworld : s.world = (registered c.toMemoryHost t data d).world := congrArg TargetState.world hstate
  have hsource : Dict.get? s.store.sources
      (ownReference c.toMemoryHost t.world.captured.length data d).token.val = some (ownId t.world.captured.length) := by
    rw [hstore]
    exact Dict.get?_set_self _ _ _
  have hcaptured : s.world.captured.getD t.world.captured.length [] = data := by
    rw [hworld]
    show (t.world.captured ++ [data]).getD t.world.captured.length [] = data
    rw [List.getD_append_right _ _ _ _ (le_refl _), Nat.sub_self]
    rfl
  have hpos : 0 < defaultChunkSize := by decide
  obtain ⟨p, hp, hdata⟩ := transferPayload_own c.toMemoryHost hH hsource hcaptured hd hpos
    (by decide) hroom hfuel
  have hkept : p.world.1.held = s.world.held :=
    transferPayload_keeps (memoryStreams_keeps c.streams c.bufferLimit) (writeBuffer_keeps c.bufferLimit) hp
  refine ⟨_, Option.map_eq_some_iff.mpr ⟨_, hp, Prod.ext ?_ rfl⟩, ?_, rfl⟩
  · show Except.ok (Hasher.identity hH data, p.world.2) = _
    rw [hdata]
  · exact (congrArg Prod.fst hkept).trans (by rw [hworld]; rfl)

/-- `_get` on a target that holds the fixture. -/
theorem get_passes {h : Conforming T c resource} (hs : Holds h s m) (hfuel : fixturePayload.length < fuel) :
    ∃ s', ((c.harness T).get T.toClientPackages fuel).Returns s () s' ∧ Holds h s' m := by
  have hmeans : (SurfaceCall.get fixtureResource (storedReference m)).Means resource
      (.read (.object (T.metadataObjectRef m))) := ⟨h.names, _, hs.mayUse _ _, rfl⟩
  obtain ⟨operation, hasks, -, hcall⟩ := execute_call (s := s) h rfl hmeans
  obtain ⟨e, he, -⟩ | ⟨o, ho, hexec⟩ := execute_get c.toMemoryHost (c.bufferLimit + 1) hasks (targetState s)
  · cases hs.lookedUp.symm.trans he
  obtain rfl := Except.ok.inj (hs.lookedUp.symm.trans ho)
  have hidentity : (Hasher.identity h.sha256 fixturePayload).digest.val = (c.harness T).digest := rfl
  have hdigest : T.metadataDigest m = (c.harness T).digest := hs.intact.digest
  obtain ⟨payload, hpayload⟩ : ∃ payload,
      payload = ownReference c.toMemoryHost s.world.captured.length fixturePayload (some h.digest) := ⟨_, rfl⟩
  obtain ⟨s₁, hs₁⟩ : ∃ s₁, s₁ = afterCall s operation (.ok (getMembers T m payload))
      (registered c.toMemoryHost (targetState s) fixturePayload (some h.digest)) := ⟨_, rfl⟩
  have hexecute : ((c.harness T).execute T.toClientPackages (ObjectCatalogSurface.get fixtureResource
      (storedReference m).referenceWire)).Returns s
        (getMembers T m payload) s₁ := by
    rw [hs₁, hpayload]
    exact hcall _ _ (hexec h.digest hdigest)
  have hresult : metadataResult T.toClientPackages (getMembers T m payload) = .ok m :=
    h.documented.readsMetadata.parseObjectMetadata m
  have hparse : payloadResult (getMembers T m payload) "get result requires payload" = .ok payload :=
    payload.fromMapping_toDict
  obtain ⟨s', hreceive, hobjects, hmetadata⟩ := receive_registered (s := s₁) (t := targetState s) (d := some h.digest)
    h.sha256 (fun d' hd' => (Option.some.inj hd').symm) h.room hfuel (by rw [hs₁]; rfl)
  rw [show ownReference c.toMemoryHost (targetState s).world.captured.length fixturePayload (some h.digest) = payload from
    hpayload.symm] at hreceive
  refine ⟨s', ?_, hmetadata.trans (by rw [hs₁]; exact hs.metadata), hobjects.trans hs.objects, hs.intact, hs.textual⟩
  unfold Harness.get
  rw [Returns, Returns.bind_eq (stored_reference hs.metadata), Returns.bind_eq hexecute, hresult, lift_ok_bind,
    assertThat_holds hdigest, lift_ok_bind, hparse, lift_ok_bind, Returns.bind_eq hreceive]
  dsimp only
  rw [assertThat_holds hidentity, lift_ok_bind, assertThat_holds rfl]
  rfl

/-- `_range` on a target that holds the fixture. -/
theorem range_passes {h : Conforming T c resource} (hs : Holds h s m) (hfuel : fixturePayload.length < fuel) :
    ∃ s', ((c.harness T).range T.toClientPackages fuel).Returns s () s' ∧ Holds h s' m := by
  have hmeans : (SurfaceCall.readRange fixtureResource (storedReference m) (.record fixtureRange)).Means resource
      (.readRange (.object (T.metadataObjectRef m)) fixtureRange) := ⟨h.names, _, _, hs.mayUse _ _, rfl, rfl⟩
  obtain ⟨operation, hasks, -, hcall⟩ := execute_call (s := s) h rfl hmeans
  obtain ⟨resolved, hresolved⟩ : ∃ resolved, fixtureRange.resolve (.int fixturePayload.length) = .ok resolved :=
    exists_ok_of_isOk (by decide +kernel)
  have hdata : rangeData fixturePayload resolved = (fixturePayload.take 10).drop 2 := by
    obtain ⟨-, -, -, hslice⟩ := ByteRange.resolve_positions hresolved
    exact (hslice UInt8 fixturePayload rfl).1.trans (by decide +kernel)
  obtain ⟨e, he, -⟩ | ⟨o, ho, hexec⟩ := execute_readRange c.toMemoryHost (c.bufferLimit + 1) hasks (targetState s)
  · cases hs.lookedUp.symm.trans he
  obtain rfl := Except.ok.inj (hs.lookedUp.symm.trans ho)
  obtain ⟨e, he, -⟩ | ⟨resolved', hresolved', hexec⟩ := hexec
  · cases hresolved.symm.trans he
  obtain rfl := Except.ok.inj (hresolved.symm.trans hresolved')
  obtain ⟨payload, hpayload⟩ : ∃ payload, payload =
      ownReference c.toMemoryHost s.world.captured.length (rangeData fixturePayload resolved) none := ⟨_, rfl⟩
  obtain ⟨s₁, hs₁⟩ : ∃ s₁, s₁ = afterCall s operation (.ok (rangeMembers T m payload resolved))
      (registered c.toMemoryHost (targetState s) (rangeData fixturePayload resolved) none) := ⟨_, rfl⟩
  have hexecute : ((c.harness T).execute T.toClientPackages (ObjectCatalogSurface.readRangeOf fixtureResource
      (storedReference m).referenceWire fixtureRange)).Returns s
        (rangeMembers T m payload resolved) s₁ := by
    rw [hs₁, hpayload]
    exact hcall _ _ hexec
  have hparse : payloadResult (rangeMembers T m payload resolved) "range result requires payload" = .ok payload :=
    payload.fromMapping_toDict
  have hroom : (rangeData fixturePayload resolved).length ≤ fixturePayload.length := by
    rw [hdata]
    decide +kernel
  obtain ⟨s', hreceive, hobjects, hmetadata⟩ := receive_registered (s := s₁) (t := targetState s) (d := none)
    h.sha256 (fun d' hd' => nomatch hd') (hroom.trans h.room) (hroom.trans_lt hfuel) (by rw [hs₁]; rfl)
  rw [show ownReference c.toMemoryHost (targetState s).world.captured.length (rangeData fixturePayload resolved) none =
    payload from hpayload.symm] at hreceive
  have hequal : (((Dict.get? (rangeMembers T m payload resolved).val "range").getD .null).pyEq (.obj resolved.toDict)) =
      true := Json.pyEq_self resolved.toDict_wellFormed resolved.toDict_textual
  refine ⟨s', ?_, hmetadata.trans (by rw [hs₁]; exact hs.metadata), hobjects.trans hs.objects, hs.intact, hs.textual⟩
  unfold Harness.range
  rw [Returns, Returns.bind_eq (stored_reference hs.metadata), Returns.bind_eq hexecute, hparse, lift_ok_bind,
    Returns.bind_eq hreceive]
  dsimp only
  rw [assertThat_holds hdata, lift_ok_bind, hresolved, lift_ok_bind, assertThat_holds hequal]
  rfl

/-- `_list` on a target that holds the fixture. -/
theorem list_passes {h : Conforming T c resource} (hs : Holds h s m) :
    ∃ s', ((c.harness T).list T.toClientPackages).Returns s () s' ∧ Holds h s' m := by
  have hmeans : (SurfaceCall.list fixtureResource "fixture/" 1 none "maintenance" :
      SurfaceCall T.toPackages).Means resource (.list ⟨1, by decide⟩) :=
    ⟨h.names, ⟨8, by decide +kernel, by decide⟩, by decide +kernel, ⟨_, rfl, by decide, rfl⟩, nofun, rfl⟩
  obtain ⟨operation, hasks, hinput, hcall⟩ := execute_call (s := s) h rfl hmeans
  obtain ⟨first, hfirst, hexec⟩ := execute_list c.toMemoryHost (c.bufferLimit + 1) hasks
  rw [hinput] at hfirst
  obtain rfl : str "fixture/" = first := Json.str.inj (Option.some.inj hfirst)
  have hmatching : matching (targetState s).world.objects resource "fixture/" =
      [(key resource fixtureObjectId, ⟨fixturePayload, m⟩)] := by
    have hprefix : str "fixture/" <+: fixtureObjectId := by decide
    have hkey : matchesKey resource "fixture/" (key resource fixtureObjectId) = true :=
      decide_eq_true ⟨rfl, rfl, hprefix⟩
    show (sortedObjects T s.world.objects).filter _ = _
    rw [hs.objects]
    exact List.filter_cons_of_pos hkey
  have hexec := hexec (targetState s)
  rw [hmatching] at hexec
  have hexecute : ((c.harness T).execute T.toClientPackages (ObjectCatalogSurface.list fixtureResource "fixture/" 1)).Returns
      s (listMembers T [m]) (afterCall s operation (.ok (listMembers T [m])) (targetState s)) := hcall _ _ hexec
  have hitem : Harness.listItem (listMembers T [m]) = .ok (.obj (T.metadataToDict m)) := rfl
  have hparse : parseObjectMetadata T.toClientPackages (.obj (T.metadataToDict m)) = .ok m :=
    h.documented.readsMetadata.parseObjectMetadata m
  have hdigest : T.metadataDigest m = (c.harness T).digest := hs.intact.digest
  have hcursor : Harness.cursorAllowed (listMembers T [m]) = true := rfl
  have hs' : Holds h (afterCall s operation (.ok (listMembers T [m])) (targetState s)) m := hs.afterCall rfl
  refine ⟨_, ?_, hs'⟩
  unfold Harness.list
  rw [Returns, Returns.bind_eq hexecute, hitem, lift_ok_bind, hparse, lift_ok_bind, assertThat_holds hdigest, lift_ok_bind,
    assertThat_holds hcursor]
  rfl

/-! ## Payloads of the runner -/

/-- The reference to the `n`-th payload that the runner registers. -/
def uploadReference (c : MemoryRunner W) (n : Nat) (d : Digest) : PayloadReference :=
  ⟨payloadToken (c.token n), none, some d, true, payloadReferenceFormatVersion, rfl⟩

/-- The state after the runner registered a payload. -/
def afterUpload (c : MemoryRunner W) (s : RunnerState T.toClientPackages (MemoryWorld T W)) (d : Digest) :
    RunnerState T.toClientPackages (MemoryWorld T W) :=
  { s with
    store := registerSection s.store (uploadReference c s.registered d) (clientId (c.fixture s.registered))
    registered := s.registered + 1 }

/-- `_payload_reference` registers a source that gives the fixture. -/
theorem payloadReference_upload {d : Digest} {digestValue : Option Str} (hd : digestValue.getD (c.harness T).digest = d.val) :
    ((c.harness T).payloadReference T.toClientPackages digestValue).Returns s (uploadReference c s.registered d)
      (afterUpload c s d) := by
  obtain ⟨factory, hfactory⟩ := c.fixture_factory s.registered
  have hregister : registerReference (memoryHeap c.heap) (clientId (c.fixture s.registered))
      (tokenUrlsafe (c.token s.registered)) .null (.str (digestValue.getD (c.harness T).digest)) =
        .ok (uploadReference c s.registered d) := by
    rw [registerReference_generated, hd]
    refine registerDeclared_eq_ok.mpr ⟨rfl, rfl, rfl, ?_⟩
    rw [memoryHeap_clientId, hfactory]
    rfl
  unfold Harness.payloadReference
  rw [returns_step]
  unfold MemoryRunner.harness at hregister ⊢
  dsimp only
  rw [hregister]
  rfl

theorem afterUpload_source (c : MemoryRunner W) (s : RunnerState T.toClientPackages (MemoryWorld T W)) (d : Digest) :
    Dict.get? (afterUpload c s d).store.sources (uploadReference c s.registered d).token.val =
      some (clientId (c.fixture s.registered)) := Dict.get?_set_self _ _ _

/-! ## Puts -/

theorem fixtureResource_wellFormed : fixtureResource.val.WellFormed := fixtureResource.2

theorem empty_wellFormed : Json.WellFormed (.obj []) := .obj List.nodup_nil (by simp)

/-- The arguments of a create-only put of the runner. -/
def uploadArguments (objectId : Str) (payload : PayloadReference) (digest : Str) (userMetadata : Dict Str Str)
    (immutability : Json) (hu : (Dict.keys userMetadata).Nodup) (hi : immutability.WellFormed) : PutArguments where
  resource := fixtureResource.val
  objectId := objectId
  payload := .record payload
  mediaType := "application/octet-stream"
  expectedDigest := some digest
  createOnly := true
  userMetadata := userMetadata
  immutability := immutability
  resource_wellFormed := fixtureResource_wellFormed
  userMetadata_nodup := hu
  creationContext_wellFormed := empty_wellFormed
  provenance_wellFormed := empty_wellFormed
  immutability_wellFormed := hi

/-- `{"mutability": "immutable", "publishOnce": True}` -/
def publishOnce : ImmutabilityRequest := ⟨.immutable, true, fun _ => rfl⟩

theorem fixtureMetadata_nodup : (Dict.keys ([("fixture", "v1")] : Dict Str Str)).Nodup := List.nodup_singleton _

/-- The put of the fixture. -/
def fixtureCall (payload : PayloadReference) (digest : Str) : SurfaceCall T.toPackages :=
  .put (uploadArguments fixtureObjectId payload digest [("fixture", "v1")] (.obj publishOnce.toDict)
    fixtureMetadata_nodup publishOnce.toDict_wellFormed)

/-- A put with nothing but a payload. -/
def createCall (objectId : Str) (payload : PayloadReference) (digest : Str) : SurfaceCall T.toPackages :=
  .put (uploadArguments objectId payload digest [] .null List.nodup_nil .null)

/-- `application/octet-stream` -/
def octetStream : MediaType :=
  ⟨⟨"application/octet-stream", by decide, ⟨24, by decide, by decide⟩, by decide⟩, by decide⟩

/-- The request of a create-only put of the runner. -/
def uploadRequest (objectId : BoundedString 1024) (payload : PayloadReference) (d : Digest) (userMetadata : Dict Str Str)
    (immutability : Option ImmutabilityRequest) : PutRequest where
  payload := payload
  expectedDigest := some d
  expectedLength := payload.expectedLength
  mediaType := octetStream
  objectId := objectId
  userMetadata := userMetadata
  creationContext := []
  provenance := []
  immutability := immutability
  retention := none
  createOnly := true

variable {objectId : BoundedString 1024} {payload : PayloadReference} {d : Digest}

/-- The arguments of the runner stand for its requests. -/
theorem uploadArguments_means (h : Conforming T c resource)
    (hid : objectId.val ∈ [fixtureObjectId, mismatchObjectId]) (hd : payload.expectedDigest = some d)
    {userMetadata : Dict Str Str} {immutability : Json} {selected : Option ImmutabilityRequest}
    (hu : (Dict.keys userMetadata).Nodup) (hi : immutability.WellFormed) (hsorted : userMetadata = sortedItems userMetadata)
    (hbounded : userMetadata.length ≤ 128 ∧ BoundedItems 128 2048 userMetadata)
    (hpublic : ¬ HasPrivateKey (.obj (wireStrings userMetadata)) ∧ ¬ HasPrivateKey immutability)
    (hselected : NullableDocument ImmutabilityRequest.fromMapping immutability selected) :
    (uploadArguments objectId.val payload d.val userMetadata immutability hu hi).Means T.toPackages resource
      (uploadRequest objectId payload d userMetadata selected) where
  names := h.names
  payload := rfl
  objectId := rfl
  mediaType := rfl
  digest := rfl
  digest_agrees _ := hd
  length := rfl
  length_agrees _ := rfl
  reference := by
    obtain ⟨semantic, hsemantic, hnew⟩ := h.newReference
    obtain ⟨r, hr⟩ := hnew objectId.val hid d
    exact ⟨semantic, r, hsemantic, hr⟩
  userMetadata := hsorted
  userMetadata_bounded := hbounded
  creationContext := rfl
  provenance := rfl
  immutability := hselected
  retention := rfl
  createOnly := rfl
  isPublic := by
    have hempty : ¬ HasPrivateKey (.obj []) := by simp [hasPrivateKey_obj]
    simpa [uploadArguments] using ⟨hpublic.1, hempty, hpublic.2⟩

theorem createCall_means (h : Conforming T c resource) (objectId : BoundedString 1024)
    (hid : objectId.val ∈ [fixtureObjectId, mismatchObjectId]) (payload : PayloadReference)
    (hd : payload.expectedDigest = some d) :
    (createCall objectId.val payload d.val : SurfaceCall T.toPackages).Means resource
      (.put (uploadRequest objectId payload d [] none)) := by
  have hempty : ¬ HasPrivateKey (.obj []) := by simp [hasPrivateKey_obj]
  have hbounded : BoundedItems 128 2048 [] := fun e he => nomatch he
  have hselected : NullableDocument ImmutabilityRequest.fromMapping .null none := rfl
  have hnodup : (Dict.keys ([] : Dict Str Str)).Nodup := List.nodup_nil
  exact ⟨_, uploadArguments_means h hid hd hnodup .null rfl ⟨Nat.zero_le _, hbounded⟩
    ⟨hempty, not_hasPrivateKey_null⟩ hselected, rfl⟩

theorem fixtureCall_means (h : Conforming T c resource) (hid : objectId.val = fixtureObjectId)
    (hd : payload.expectedDigest = some d) :
    (fixtureCall payload d.val : SurfaceCall T.toPackages).Means resource
      (.put (uploadRequest objectId payload d [("fixture", "v1")] (some publishOnce))) := by
  have hbounded : BoundedItems 128 2048 [(str "fixture", str "v1")] := by
    intro e he
    obtain rfl := List.mem_singleton.mp he
    exact ⟨⟨by decide, ⟨7, by decide, by decide⟩, by decide⟩, ⟨by decide, ⟨2, by decide, by decide⟩, by decide⟩⟩
  have hpublic : ¬ HasPrivateKey (.obj (wireStrings [(str "fixture", str "v1")])) :=
    not_hasPrivateKey_fields ["fixture"] rfl (by decide) (by simp [wireStrings])
  have hselected : NullableDocument ImmutabilityRequest.fromMapping (.obj publishOnce.toDict) (some publishOnce) :=
    ⟨_, rfl, ImmutabilityRequest.fromMapping_eq_ok.mpr (.refl _)⟩
  have hlength : [(str "fixture", str "v1")].length ≤ 128 := by decide
  have hnodup : (Dict.keys [(str "fixture", str "v1")]).Nodup := List.nodup_singleton _
  unfold fixtureCall
  rw [← hid]
  exact ⟨_, uploadArguments_means h (by simp [hid]) hd hnodup publishOnce.toDict_wellFormed rfl
    ⟨hlength, hbounded⟩ ⟨hpublic, publishOnce.toDict_public⟩ hselected, rfl⟩

variable {operation : Operation} {p : PutRequest} {n : Nat} {t : TargetState T W}

/-- A put of the fixture under a key that is free stores it. -/
theorem execute_stores (h : Conforming T c resource) (hasks : Asks (P := T.toPackages) operation "put" resource (.put p))
    (hpayload : p.payload = uploadReference c n h.digest)
    (hsource : Dict.get? t.store.sources (uploadReference c n h.digest).token.val = some (clientId (c.fixture n)))
    (hempty : t.world.objects = [])
    (hm : newMetadata T operation resource p.objectId.val (Hasher.identity h.sha256 fixturePayload) = .ok m) :
    ∃ t', execute T c.toMemoryHost (c.bufferLimit + 1) operation t = some (.ok (metadataMember T m), t') ∧
      t'.world.objects = [(key resource p.objectId.val, ⟨fixturePayload, m⟩)] := by
  obtain ⟨t', hreceive, hkept⟩ := receive_upload (s := t) (n := n) h.sha256 h.opens h.room (Nat.lt_succ_of_le h.room)
    (uploadReference c n h.digest) rfl rfl hsource
  rw [if_neg (by rintro ⟨d, hd, hne⟩; exact hne (Option.some.inj hd).symm)] at hreceive
  have hobjects : t'.world.objects = [] := (congrArg Prod.fst hkept).trans hempty
  have hprepare : (prepare T c.toMemoryHost (c.bufferLimit + 1) operation).Returns t
      (key resource p.objectId.val, ⟨fixturePayload, m⟩) t' := by
    rw [Returns, prepare_eq c.toMemoryHost (c.bufferLimit + 1) hasks (fun _ => by rw [hempty]; rfl), hpayload,
      Returns.bind_eq hreceive]
    dsimp only
    rw [hm]
    rfl
  refine ⟨{ t' with world.objects := Dict.set t'.world.objects (key resource p.objectId.val) ⟨fixturePayload, m⟩ }, ?_, ?_⟩
  · rw [execute_eq hasks.contract]
    exact Returns.bind_eq hprepare _
  · show Dict.set t'.world.objects _ _ = _
    rw [hobjects]
    rfl

/-- A put of the fixture with another digest is refused. -/
theorem execute_refuses (h : Conforming T c resource) {d : Digest} (hd : d ≠ h.digest)
    (hasks : Asks (P := T.toPackages) operation "put" resource (.put p)) (hpayload : p.payload = uploadReference c n d)
    (hsource : Dict.get? t.store.sources (uploadReference c n d).token.val = some (clientId (c.fixture n)))
    (hfree : Dict.get? t.world.objects (key resource p.objectId.val) = none) :
    ∃ t', execute T c.toMemoryHost (c.bufferLimit + 1) operation t = some (.error DigestMismatch, t') ∧
      t'.world.objects = t.world.objects := by
  obtain ⟨t', hreceive, hkept⟩ := receive_upload (s := t) (n := n) h.sha256 h.opens h.room (Nat.lt_succ_of_le h.room)
    (uploadReference c n d) rfl rfl hsource
  rw [if_pos ⟨d, rfl, hd⟩] at hreceive
  have hprepare : (prepare T c.toMemoryHost (c.bufferLimit + 1) operation).Raises t DigestMismatch t' := by
    rw [Raises, prepare_eq c.toMemoryHost (c.bufferLimit + 1) hasks (fun _ => hfree), hpayload, Raises.bind_eq hreceive]
  refine ⟨t', ?_, congrArg Prod.fst hkept⟩
  rw [execute_eq hasks.contract]
  exact Raises.bind_eq hprepare _

/-- The metadata that a put of the fixture builds. -/
theorem newMetadata_fixture (h : Conforming T c resource) (hid : objectId.val = fixtureObjectId)
    (hasks : Asks (P := T.toPackages) operation "put" resource
      (.put (uploadRequest objectId payload h.digest [("fixture", "v1")] (some publishOnce)).canonical))
    (huser : Dict.get? operation.input "userMetadata" = some (.obj [("fixture", .str "v1")])) :
    ∃ m, newMetadata T operation resource objectId.val (Hasher.identity h.sha256 fixturePayload) = .ok m ∧
      Json.Textual (.obj (T.metadataToDict m)) := by
  obtain ⟨semantic, hsemantic, hnew⟩ := h.newReference
  obtain ⟨r, hr⟩ := hnew objectId.val (by simp [hid]) h.digest
  have hdigest : T.digest r = some h.digest.val := by
    have hstored := (h.documented.storesReference.newObjectReference _ _ _ _ hr).2
    cases hd : T.digest r with
    | none =>
      rw [hd] at hstored
      cases hstored
    | some d =>
      rw [hd] at hstored
      exact congrArg some (Json.str.inj hstored).symm
  obtain ⟨m, hm, htextual⟩ := h.newObjectMetadata r h.digest hdigest
  refine ⟨m, ?_, htextual⟩
  have hmetadata := newMetadata_eq hasks.reads.2.2 huser (Hasher.identity h.sha256 fixturePayload)
  refine hmetadata.trans ?_
  show (T.newResourceReference resource.namespaceName resource.name >>= fun resourceReference => _) = _
  rw [hsemantic]
  show (T.newObjectReference semantic (.str objectId.val) (.str h.digest.val) >>= fun reference => _) = _
  rw [hr]
  exact hm

/-- The id of the fixture. -/
def fixtureId : BoundedString 1024 := fixtureMetadata.objectRef.val.objectId

/-- The id of the put whose digest is wrong. -/
def mismatchId : BoundedString 1024 := ⟨mismatchObjectId, by decide, ⟨23, by decide, by decide⟩, by decide⟩

/-- `_put` on a target that holds nothing. -/
theorem put_passes (h : Conforming T c resource) (hempty : s.world.objects = []) :
    ∃ s' m, ((c.harness T).put T.toClientPackages).Returns s () s' ∧ Holds h s' m := by
  have hdigest : (c.harness T).digest = h.digest.val := rfl
  obtain ⟨payload, hpayload⟩ : ∃ payload, payload = uploadReference c s.registered h.digest := ⟨_, rfl⟩
  obtain ⟨s₁, hs₁⟩ : ∃ s₁, s₁ = afterUpload c s h.digest := ⟨_, rfl⟩
  have hregister : ((c.harness T).payloadReference T.toClientPackages).Returns s payload s₁ := by
    rw [hpayload, hs₁]
    exact payloadReference_upload rfl
  have hmeans : (fixtureCall payload h.digest.val : SurfaceCall T.toPackages).Means resource
      (.put (uploadRequest fixtureId payload h.digest [("fixture", "v1")] (some publishOnce))) :=
    fixtureCall_means h rfl (by rw [hpayload]; rfl)
  obtain ⟨operation, hasks, hinput, hcall⟩ := execute_call (s := s₁) h rfl hmeans
  have huser : Dict.get? operation.input "userMetadata" = some (.obj [("fixture", .str "v1")]) := by
    rw [hinput]
    exact (PutRequest.get?_update _ _ _).trans rfl
  obtain ⟨m, hm, htextual⟩ := newMetadata_fixture h rfl hasks huser
  obtain ⟨t, hexec, hobjects⟩ := execute_stores (n := s.registered) (t := targetState s₁) h hasks (by rw [hpayload]; rfl)
    (by rw [hs₁]; exact afterUpload_source c s h.digest) (by rw [hs₁]; exact hempty) hm
  have hintact := newMetadata_intact h.documented h.sha256 h.parseResourceRef hm
  have hexecute : ((c.harness T).execute T.toClientPackages (putExpression payload h.digest.val)).Returns s₁
      (metadataMember T m) (afterCall s₁ operation (.ok (metadataMember T m)) t) := hcall _ _ hexec
  have hd : T.metadataDigest m = h.digest.val := hintact.digest
  have hn : T.metadataByteLength m = fixturePayload.length := hintact.byteLength
  have hv : T.digest (T.metadataObjectRef m) = some h.digest.val := hintact.version.trans (congrArg some hd)
  refine ⟨{ afterCall s₁ operation (.ok (metadataMember T m)) t with metadata := some m }, m, ?_, rfl, hobjects, hintact,
    htextual⟩
  unfold Harness.put
  rw [Returns, Returns.bind_eq hregister, hdigest, Returns.bind_eq hexecute, metadataResult_member h.documented,
    lift_ok_bind, assertThat_holds hd, lift_ok_bind, assertThat_holds hn, lift_ok_bind, assertThat_holds hv]
  rfl

/-- `_duplicate` on a target that holds the fixture. -/
theorem duplicate_refused {h : Conforming T c resource} (hs : Holds h s m) :
    ∃ s', ((c.harness T).duplicate T.toClientPackages).Raises s ConditionalConflict s' ∧ Holds h s' m := by
  have hregister : ((c.harness T).payloadReference T.toClientPackages).Returns s (uploadReference c s.registered h.digest)
      (afterUpload c s h.digest) := payloadReference_upload rfl
  have hmeans := createCall_means h fixtureId List.mem_cons_self (uploadReference c s.registered h.digest) rfl
  obtain ⟨operation, hasks, -, hcall⟩ := execute_call (s := afterUpload c s h.digest) h rfl hmeans
  have htaken : Dict.get? s.world.objects (key resource fixtureObjectId) ≠ none := by
    rw [hs.objects]
    simp
  have hprepare : (prepare T c.toMemoryHost (c.bufferLimit + 1) operation).Raises (targetState (afterUpload c s h.digest))
      ConditionalConflict (targetState (afterUpload c s h.digest)) :=
    prepare_conflict hasks.resources hasks.reads.2.2 rfl htaken
  have hexec : execute T c.toMemoryHost (c.bufferLimit + 1) operation (targetState (afterUpload c s h.digest)) =
      some (.error ConditionalConflict, targetState (afterUpload c s h.digest)) := by
    rw [execute_eq hasks.contract]
    exact Raises.bind_eq hprepare _
  have hexecute : ((c.harness T).execute T.toClientPackages (createExpression fixtureObjectId
      (uploadReference c s.registered h.digest) h.digest.val)).Raises (afterUpload c s h.digest) ConditionalConflict
        (afterCall (afterUpload c s h.digest) operation (.error ConditionalConflict)
          (targetState (afterUpload c s h.digest))) := hcall _ _ hexec
  refine ⟨afterCall (afterUpload c s h.digest) operation (.error ConditionalConflict)
    (targetState (afterUpload c s h.digest)), ?_, hs.metadata, hs.objects, hs.intact, hs.textual⟩
  unfold Harness.duplicate
  rw [Raises, Returns.bind_eq hregister]
  exact Raises.bind_eq hexecute _

/-- `_digest_mismatch` on a target that holds the fixture. -/
theorem mismatch_refused {h : Conforming T c resource} (hs : Holds h s m) :
    ∃ s', ((c.harness T).digestMismatch T.toClientPackages).Raises s DigestMismatch s' ∧ Holds h s' m := by
  obtain ⟨d, hd⟩ : ∃ d : Digest, d.val = wrongDigest := ⟨⟨wrongDigest, by decide +kernel⟩, rfl⟩
  have hne : d ≠ h.digest := fun he => h.digest_ne ((congrArg Subtype.val he).symm.trans hd)
  have hregister : ((c.harness T).payloadReference T.toClientPackages (some wrongDigest)).Returns s
      (uploadReference c s.registered d) (afterUpload c s d) := payloadReference_upload hd.symm
  have hmeans := createCall_means h mismatchId (by simp [mismatchId]) (uploadReference c s.registered d) rfl
  obtain ⟨operation, hasks, -, hcall⟩ := execute_call (s := afterUpload c s d) h rfl hmeans
  have hfree : Dict.get? s.world.objects (key resource mismatchObjectId) = none := by
    have hkeys : key resource mismatchObjectId ≠ key resource fixtureObjectId := by
      intro he
      have hid : mismatchObjectId = fixtureObjectId := congrArg (fun k => (ofLex (ofLex k).2).2) he
      revert hid
      decide
    rw [hs.objects]
    simp [hkeys.symm]
  obtain ⟨t, hexec, hobjects⟩ := execute_refuses (n := s.registered) (t := targetState (afterUpload c s d)) h hne hasks rfl
    (afterUpload_source c s d) hfree
  have hexecute : ((c.harness T).execute T.toClientPackages (createExpression mismatchObjectId
      (uploadReference c s.registered d) d.val)).Raises (afterUpload c s d) DigestMismatch
        (afterCall (afterUpload c s d) operation (.error DigestMismatch) t) := hcall _ _ hexec
  refine ⟨afterCall (afterUpload c s d) operation (.error DigestMismatch) t, ?_, hs.metadata, hobjects.trans hs.objects,
    hs.intact, hs.textual⟩
  unfold Harness.digestMismatch
  rw [Raises, Returns.bind_eq hregister, ← hd]
  exact Raises.bind_eq hexecute _

/-! ## Deletes -/

/-- `_delete` on a target that holds the fixture. -/
theorem delete_passes {h : Conforming T c resource} (hs : Holds h s m) :
    ∃ s', ((c.harness T).delete T.toClientPackages).Returns s () s' ∧ s'.metadata = some m ∧ s'.world.objects = [] ∧
      MayUse "stat" false resource (storedReference m) (.object (T.metadataObjectRef m)) := by
  have hreason : IsBounded 1024 (str "conformance-cleanup") := ⟨by decide, ⟨19, by decide, by decide⟩, by decide⟩
  have hmeans : (SurfaceCall.delete fixtureResource (storedReference m) (some (str "conformance-cleanup"))).Means resource
      (.delete (.object (T.metadataObjectRef m))) :=
    ⟨h.names, fun t ht => (Option.some.inj ht) ▸ hreason, _, hs.mayUse _ _, rfl⟩
  obtain ⟨operation, hasks, -, hcall⟩ := execute_call (s := s) h rfl hmeans
  obtain ⟨e, he, -⟩ | ⟨o, ho, hexec⟩ := execute_delete c.toMemoryHost (c.bufferLimit + 1) hasks (targetState s)
  · cases hs.lookedUp.symm.trans he
  obtain rfl := Except.ok.inj (hs.lookedUp.symm.trans ho)
  have hempty : (removed (targetState s) (key resource (T.objectId (T.metadataObjectRef m)))).world.objects = [] := by
    show Dict.pop s.world.objects _ = []
    rw [hs.objects, hs.objectId]
    simp [Dict.pop]
  have hexecute : ((c.harness T).execute T.toClientPackages (ObjectCatalogSurface.delete fixtureResource
      (storedReference m).referenceWire
      (some (str "conformance-cleanup")))).Returns s deletedMember (afterCall s operation (.ok deletedMember)
        (removed (targetState s) (key resource (T.objectId (T.metadataObjectRef m))))) := hcall _ _ (hexec rfl)
  have hequal : Json.pyEq (.obj deletedMember.val) (.obj [("deleted", .bool true)]) = true := by decide
  refine ⟨afterCall s operation (.ok deletedMember)
    (removed (targetState s) (key resource (T.objectId (T.metadataObjectRef m)))), ?_, hs.metadata, hempty, hs.mayUse _ _⟩
  unfold Harness.delete
  rw [Returns, Returns.bind_eq (stored_reference hs.metadata), Returns.bind_eq hexecute, assertThat_holds hequal]
  rfl

/-- `_stat` on a target that holds nothing. -/
theorem stat_missing (h : Conforming T c resource) (hm : s.metadata = some m) (hempty : s.world.objects = [])
    (huse : MayUse "stat" false resource (storedReference m) (.object (T.metadataObjectRef m))) :
    ∃ s', ((c.harness T).stat T.toClientPackages).Raises s ObjectNotFound s' ∧ s'.world.objects = [] := by
  have hmeans : (SurfaceCall.stat fixtureResource (storedReference m)).Means resource
      (.read (.object (T.metadataObjectRef m))) := ⟨h.names, _, huse, rfl⟩
  obtain ⟨operation, hasks, -, hcall⟩ := execute_call (s := s) h rfl hmeans
  have hexec := execute_stat c.toMemoryHost (c.bufferLimit + 1) hasks (targetState s)
  have hmissing : lookedUp (targetState s) resource (.object (T.metadataObjectRef m) : LogicalReference T.toPackages) =
      .error ObjectNotFound := by
    show found T (Dict.get? s.world.objects _) _ = _
    rw [hempty]
    rfl
  rw [hmissing] at hexec
  have hexecute : ((c.harness T).execute T.toClientPackages (ObjectCatalogSurface.stat fixtureResource
      (storedReference m).referenceWire)).Raises s
        ObjectNotFound (afterCall s operation (.error ObjectNotFound) (targetState s)) := hcall _ _ hexec
  have hreference : (Harness.reference T.toClientPackages : RunnerRoutine T.toClientPackages (MemoryWorld T W) _).Returns s
      (storedReference m).referenceWire s := stored_reference hm
  refine ⟨afterCall s operation (.error ObjectNotFound) (targetState s), ?_, hempty⟩
  unfold Harness.stat
  rw [Raises, Returns.bind_eq hreference, Raises.bind_eq hexecute]

/-! ## The run -/

/-- A check of an action that returns. -/
theorem check_passes {action : RunnerRoutine T.toClientPackages (MemoryWorld T W) Unit} (h : action.Returns s () s')
    (name : Str) : (Harness.check T.toClientPackages name action).Returns s ⟨name, true, "ok"⟩ s' := by
  have houtcome : action.outcome.Returns s (.ok ()) s' := returns_outcome.mpr h
  unfold Harness.check
  rw [Returns, houtcome.bind_eq]
  rfl

/-- A check of an action that raises the code expected. -/
theorem expected_passes {action : RunnerRoutine T.toClientPackages (MemoryWorld T W) Unit} {e : PyError}
    {code : ObjectErrorCode} (h : action.Raises s e s') (hcode : e.code? = some code) (name : Str) :
    (Harness.expected T.toClientPackages name code action).Returns s ⟨name, true, code.className⟩ s' := by
  have houtcome : action.outcome.Returns s (.error e) s' := returns_outcome.mpr h
  unfold Harness.expected
  rw [Returns, houtcome.bind_eq]
  dsimp only
  rw [if_pos hcode]
  rfl

/-- The report of a target that passes. -/
def conformingReport : ConformanceReport where
  targetId := "memory-object-target/1.0"
  checks := [⟨"unknown-length-streaming-put", true, "ok"⟩, ⟨"stat-content-identity", true, "ok"⟩,
    ⟨"streaming-get", true, "ok"⟩, ⟨"inclusive-range-read", true, "ok"⟩, ⟨"bounded-prefix-list", true, "ok"⟩,
    ⟨"conditional-create-conflict", true, "ConditionalConflict"⟩, ⟨"digest-mismatch", true, "DigestMismatch"⟩,
    ⟨"exact-version-delete", true, "ok"⟩, ⟨"missing-object", true, "ObjectNotFound"⟩]

/-- **The in-memory target conforms**: whatever it held before, a run of the checks against it passes every check, and
leaves no Object. -/
theorem memoryTarget_conforms (h : Conforming T c resource) (hfuel : fixturePayload.length < fuel)
    (s : RunnerState T.toClientPackages (MemoryWorld T W)) :
    ∃ s', ((c.harness T).run T.toClientPackages fuel).Returns s conformingReport s' ∧ s'.world.objects = [] := by
  obtain ⟨s₀, hs₀⟩ : ∃ s₀, s₀ = { s with world := reset s.world } := ⟨_, rfl⟩
  have hreset : s₀.world.objects = [] := by
    rw [hs₀]
    rfl
  obtain ⟨s₁, m, hput, holds₁⟩ := put_passes h hreset
  obtain ⟨s₂, hstat, holds₂⟩ := stat_passes holds₁
  obtain ⟨s₃, hget, holds₃⟩ := get_passes holds₂ hfuel
  obtain ⟨s₄, hrange, holds₄⟩ := range_passes holds₃ hfuel
  obtain ⟨s₅, hlist, holds₅⟩ := list_passes holds₄
  obtain ⟨s₆, hduplicate, holds₆⟩ := duplicate_refused holds₅
  obtain ⟨s₇, hmismatch, holds₇⟩ := mismatch_refused holds₆
  obtain ⟨s₈, hdelete, hmetadata, hempty, huse⟩ := delete_passes holds₇
  obtain ⟨s₉, hmissing, hgone⟩ := stat_missing h hmetadata hempty huse
  have hfirst : (step fun s : RunnerState T.toClientPackages (MemoryWorld T W) =>
      ((.ok (), { s with world := (c.harness T).target.reset s.world }) : Py Unit × _)).Returns s () s₀ := by
    rw [hs₀]
    rfl
  refine ⟨s₉, ?_, hgone⟩
  unfold Harness.run
  rw [Returns, hfirst.bind_eq, (check_passes hput _).bind_eq, (check_passes hstat _).bind_eq, (check_passes hget _).bind_eq,
    (check_passes hrange _).bind_eq, (check_passes hlist _).bind_eq, (expected_passes hduplicate rfl _).bind_eq,
    (expected_passes hmismatch rfl _).bind_eq, (check_passes hdelete _).bind_eq, (expected_passes hmissing rfl _).bind_eq]
  rfl

example : conformingReport.passed = true := by decide

/-! ## A run on the fixture -/

/-- A runner beside the host of the fixture. -/
def runnerFixture : MemoryRunner ScriptedWorld where
  toMemoryHost := memoryFixture
  fixture n := n
  fixture_factory n := ⟨n, rfl⟩
  token n := exampleRandom (2 * n + 1)

/-- The metadata of the fixture as another version. -/
def versionMetadata (r : {r : Contracts.Reference // r.digest.isSome}) (d : Digest) : Contracts.Metadata :=
  { fixtureMetadata with objectRef := r, digest := d }

theorem versionMetadata_wellFormed (r : {r : Contracts.Reference // r.digest.isSome}) (d : Digest) :
    Json.WellFormed (.obj (Contracts.metadataToDict (versionMetadata r d))) := by
  have hstrings : Json.WellFormed (.obj [("fixture", .str "v1")]) := .obj (by simp) (by simp [Json.WellFormed.str])
  have hreference := Contracts.referenceToDict_wellFormed r.val
  refine .obj (by simp [Contracts.metadataToDict]) ?_
  simp only [Contracts.metadataToDict, List.forall_mem_cons, List.not_mem_nil, false_imp_iff, implies_true, and_true]
  exact ⟨.str _, hreference, .str _, .int _, .str _, .str _, empty_wellFormed, hstrings, .str _, empty_wellFormed⟩

theorem versionMetadata_textual (r : {r : Contracts.Reference // r.digest.isSome}) (d : Digest) :
    Json.Textual (.obj (Contracts.metadataToDict (versionMetadata r d))) := by
  have hliteral : ∀ {text : Str}, (text.all fun c => c.val < 0x80) = true → Json.Textual (.str text) :=
    fun h => .str (encodable_literal h)
  have hempty : Json.Textual (.obj []) := .obj (by simp) (by simp)
  have hstrings : Json.Textual (.obj [("fixture", .str "v1")]) := by
    refine .obj ?_ ?_
    · exact List.forall_mem_singleton.mpr (encodable_literal (by decide))
    · exact List.forall_mem_singleton.mpr (hliteral (by decide))
  have hreference := Contracts.serializesText.referenceToDict r.val
  refine .obj ?_ ?_
  · simp only [Contracts.metadataToDict, List.forall_mem_cons, List.not_mem_nil, false_imp_iff, implies_true, and_true]
    refine ⟨?_, ?_, ?_, ?_, ?_, ?_, ?_, ?_, ?_, ?_⟩ <;> exact encodable_literal (by decide)
  · simp only [Contracts.metadataToDict, List.forall_mem_cons, List.not_mem_nil, false_imp_iff, implies_true, and_true]
    have hmediaType : Json.Textual (.str "application/octet-stream") := hliteral (by decide)
    have hcreatedAt : Json.Textual (.str "2026-08-25T00:00:00.000000Z") := hliteral (by decide)
    have hmutability : Json.Textual (.str "immutable") := hliteral (by decide)
    exact ⟨hliteral (by decide), hreference, .str (Contracts.Digest.encodable d), .int _, hmediaType, hcreatedAt, hempty,
      hstrings, hmutability, hempty⟩

/-- The metadata of the fixture can be built for every exact reference. -/
theorem versionMetadata_builds {r : Contracts.Reference} {d : Digest} (hd : r.digestText = some d.val) :
    ∃ m, storeContracts.newObjectMetadata r (.str d.val) (.int fixturePayload.length) (.str "application/octet-stream")
      (.str "2026-08-25T00:00:00.000000Z") [] [("fixture", .str "v1")] (.str "immutable") []
      (.str "meridian.object.v1") = .ok m ∧ Json.Textual (.obj (storeContracts.metadataToDict m)) := by
  have hexact : r.digest.isSome := by
    cases hr : r.digest with
    | none =>
      rw [Contracts.Reference.digestText, hr] at hd
      cases hd
    | some _ => rfl
  have hbuild := Contracts.newObjectMetadata_fields (versionMetadata ⟨r, hexact⟩ d)
  refine ⟨⟨versionMetadata ⟨r, hexact⟩ d, versionMetadata_wellFormed _ _⟩, ?_, versionMetadata_textual _ _⟩
  exact bind_eq_ok.mpr ⟨_, hbuild, Contracts.storedMetadata_eq_ok.mpr rfl⟩

/-- The packages and the runner are as a run relies on. -/
theorem runnerFixture_conforming : Conforming storeContracts runnerFixture ⟨"object", "conformance", "objects"⟩ where
  documented := Contracts.store_documented
  admits := Contracts.admits
  addsNoPrivateKey := Contracts.addsNoPrivateKey
  checkExpression _ _ _ _ _ := rfl
  parseResourceRef := by decide +kernel
  keepsObjectId := rfl
  newReference := by
    refine ⟨⟨"object", "conformance", "objects"⟩, by decide +kernel, fun objectId hid d => ?_⟩
    obtain ⟨id, rfl⟩ : ∃ id : BoundedString 1024, id.val = objectId := by
      simp only [List.mem_cons, List.not_mem_nil, or_false] at hid
      obtain rfl | rfl := hid
      · exact ⟨fixtureId, rfl⟩
      · exact ⟨mismatchId, rfl⟩
    exact ⟨⟨⟨"conformance", by decide⟩, ⟨"objects", by decide⟩, id, some d⟩,
      Contracts.newObjectReference_eq_ok.mpr ⟨rfl, rfl, rfl⟩⟩
  newObjectMetadata _ _ hd := versionMetadata_builds hd
  sha256 := memoryFixture_sha256
  opens _ w := ⟨_, _, memoryFixture_opens _ w⟩
  room := by decide +kernel
  digest_ne := by decide +kernel

/-- A run of the checks on the fixture passes. -/
theorem memoryTarget_conforms_fixture : ∃ s, ((runnerFixture.harness storeContracts).run storeContracts.toClientPackages
    65).Returns { world := { client := {} } } conformingReport s := by
  have hfuel : fixturePayload.length < 65 := by decide +kernel
  obtain ⟨s, hs, -⟩ := memoryTarget_conforms runnerFixture_conforming hfuel { world := { client := {} } }
  exact ⟨s, hs⟩

end ObjectCommon
