import ObjectCommon.Catalog.Calls
import ObjectCommon.Testing.MemoryTarget

/-!
# What an execution of the in-memory target does

* `StorePackages.Documented` : what is relied on of Core and Semantics;
* `StoredObject.Intact` : the metadata stored under a key is that of the content and of the key;
* `MemoryObjectTarget.prepare_returns`, `prepare_conflict`, `lookup_eq`, `register_eq` : the parts of the handlers;
* `MemoryObjectTarget.execute_stat`, `execute_get`, `execute_readRange`, `execute_list`, `execute_delete`, `execute_put` :
  each handler, on the Operations of its request.
-/

namespace ObjectCommon

open Outcome PyError Routine

/-! ## Frames -/

variable {T : StorePackages} {W : Type} {host : MemoryHost W} {fuel : Nat} {operation : Operation}
  {s s' : TargetState T W}

/-- What no call of a source or a stream changes. -/
def MemoryWorld.held (w : MemoryWorld T W) : Dict ObjectKey (StoredObject T) × List Bytes := (w.objects, w.captured)

theorem memoryStreams_keeps (streams : StreamEnvironment W) (limit : Nat) :
    ((memoryStreams (T := T) streams).intoBuffer limit).Keeps fun w => w.1.held where
  read stream size w := by
    show ((memoryStreams streams).read stream size w.1).2.held = w.1.held
    unfold memoryStreams
    dsimp only
    split <;> rfl
  cancelled _ h := nomatch h
  factory factory w := by
    show ((memoryStreams streams).factory factory w.1).2.held = w.1.held
    unfold memoryStreams
    dsimp only
    split <;> rfl
  close stream w := by
    show ((memoryStreams streams).close stream w.1).2.held = w.1.held
    unfold memoryStreams
    dsimp only
    split <;> rfl
  enter _ _ := rfl
  exit _ _ _ := rfl

theorem writeBuffer_keeps (limit : Nat) (chunk : Bytes) (w : MemoryWorld T W × Bytes) :
    (writeBuffer limit chunk w).2.1.held = w.1.held := by
  unfold writeBuffer
  split <;> rfl

namespace MemoryObjectTarget

theorem receive_keeps (payload : PayloadReference) :
    (receive T host fuel payload).Keeps fun s => s.world.held := by
  intro s answer s' h
  obtain ⟨⟨result, p⟩, hresult, hp⟩ := Option.map_eq_some_iff.mp h
  have hkept := transferPayload_keeps (memoryStreams_keeps host.streams host.bufferLimit)
    (writeBuffer_keeps host.bufferLimit) hresult
  obtain ⟨-, rfl⟩ := Prod.mk.inj hp
  exact hkept

theorem prepare_keeps : (prepare T host fuel operation).Keeps fun s => s.world.held :=
  (Keeps.lift _).bind fun _ => (Keeps.lift _).bind fun _ => (Keeps.lift _).bind fun _ =>
    (Keeps.step fun _ => rfl).bind fun _ => (Keeps.lift _).bind fun _ => (Keeps.lift _).bind fun _ =>
    (receive_keeps _).bind fun _ => (Keeps.lift _).bind fun _ => Keeps.pure _

end MemoryObjectTarget

/-! ## What is stored -/

/-- What the target relies on of Core and Semantics. -/
structure StorePackages.Documented (T : StorePackages) : Prop where
  roundTrips : T.RoundTrips
  findsOperations : T.FindsOperations
  resolvesResources : T.ResolvesResources
  storesReference : T.StoresReference
  normalizesIds : T.NormalizesIds
  storesMetadata : T.StoresMetadata
  readsMetadata : T.ReadsMetadata

/-- The key that a reference is stored under. -/
def referenceKey (r : T.ObjectReference) : ObjectKey :=
  toLex ((T.resourceRef r).namespaceName, toLex ((T.resourceRef r).name, T.objectId r))

/-- A key, with its id in the normal form of Semantics. -/
def normalKey (T : StorePackages) (k : ObjectKey) : ObjectKey :=
  toLex ((ofLex k).1, toLex ((ofLex (ofLex k).2).1, T.normalObjectId (ofLex (ofLex k).2).2))

/-- The metadata stored under a key is that of the content, of an exact version, and of the key: its reference has the
id of the key in the normal form. -/
structure StoredObject.Intact {H : Hasher} (hH : H.Sha256) (k : ObjectKey) (o : StoredObject T) : Prop where
  digest : T.metadataDigest o.metadata = (Hasher.identity hH o.data).digest.val
  byteLength : T.metadataByteLength o.metadata = o.data.length
  key : referenceKey (T.metadataObjectRef o.metadata) = normalKey T k
  catalog : (T.resourceRef (T.metadataObjectRef o.metadata)).catalog = str "object"
  version : T.digest (T.metadataObjectRef o.metadata) = some (T.metadataDigest o.metadata)

/-- What is stored under the key of a reference has the id of the reference. -/
theorem StoredObject.Intact.objectId_of_reference (hT : T.Documented) {H : Hasher} {hH : H.Sha256} {resource : ResourceRef}
    {r : T.ObjectReference} {o : StoredObject T} (h : o.Intact hH (MemoryObjectTarget.key resource (T.objectId r))) :
    T.objectId (T.metadataObjectRef o.metadata) = T.objectId r := by
  have hid : T.objectId (T.metadataObjectRef o.metadata) = T.normalObjectId (T.objectId r) :=
    congrArg (fun k => (ofLex (ofLex k).2).2) h.key
  rw [hid, hT.normalizesIds.normalObjectId_objectId hT.roundTrips]

namespace MemoryObjectTarget

theorem resourceOf_eq {resource : ResourceRef} (h : operation.resources = [resource]) :
    resourceOf operation = .ok resource := by
  unfold resourceOf
  rw [h]

theorem strArgument_eq_ok {name : String} {text : Str} :
    strArgument operation name = .ok text ↔ Dict.get? operation.input name = some (.str text) := by
  unfold strArgument
  rw [bind_eq_ok]
  constructor
  · rintro ⟨value, hvalue, h⟩
    rw [getItem_eq_ok] at hvalue
    split at h
    · cases h
      exact hvalue
    · cases h
  · intro h
    exact ⟨_, getItem_eq_ok.mpr h, rfl⟩

theorem boolArgument_eq_ok {name : String} {b : Bool} :
    boolArgument operation name = .ok b ↔ Dict.get? operation.input name = some (.bool b) := by
  simp only [boolArgument, bind_eq_ok, getItem_eq_ok, asBool_eq_ok, exists_eq_right]

theorem mappingArgument_eq_ok {name : String} {entries : Object} :
    mappingArgument operation name = .ok entries ↔ Dict.get? operation.input name = some (.obj entries) := by
  simp only [mappingArgument, bind_eq_ok, getItem_eq_ok, asMapping_eq_ok, exists_eq_right]

/-- **The metadata built for a put is that of the content received and of the key.** -/
theorem newMetadata_intact (hT : T.Documented) {H : Hasher} (hH : H.Sha256) {value : Json} {resource : ResourceRef}
    (hvalue : T.parseResourceRef value "object" = .ok resource) {objectId : Str} {data : Bytes} {m : T.ObjectMetadata}
    (h : newMetadata T operation resource objectId (Hasher.identity hH data) = .ok m) :
    StoredObject.Intact hH (key resource objectId) (⟨data, m⟩ : StoredObject T) := by
  simp only [newMetadata, bind_eq_ok] at h
  obtain ⟨resourceReference, hresource, r, hr, _, -, _, -, _, -, _, -, _, -, hm⟩ := h
  obtain ⟨rfl, -⟩ := hT.resolvesResources.newResourceReference _ _ _ hvalue hresource
  obtain ⟨hres, hdigest⟩ := hT.storesReference.newObjectReference _ _ _ _ hr
  obtain ⟨id, hid, hnormal⟩ := hT.normalizesIds.objectId _ _ _ _ hr
  obtain rfl : objectId = id := Json.str.inj hid
  obtain ⟨rfl, hd, hn⟩ := hT.storesMetadata.newObjectMetadata _ _ _ _ _ _ _ _ _ _ _ hm
  have hd : (Hasher.identity hH data).digest.val = T.metadataDigest m := Json.str.inj hd
  refine ⟨hd.symm, ?_, ?_, by rw [hres], ?_⟩
  · exact (Int.ofNat.inj (Json.int.inj hn)).symm
  · unfold referenceKey normalKey key
    rw [hres, hnormal]
    rfl
  · rw [hd] at hdigest
    cases hversion : T.digest (T.metadataObjectRef m) with
    | none =>
      rw [hversion] at hdigest
      cases hdigest
    | some d =>
      rw [hversion] at hdigest
      exact congrArg some (Json.str.inj hdigest).symm

/-- An identity received with its content. -/
theorem receive_returns (hH : host.hasher.Sha256) {payload : PayloadReference} {i : ContentIdentity} {data : Bytes}
    (h : (receive T host fuel payload).Returns s (i, data) s') : i = Hasher.identity hH data := by
  obtain ⟨⟨result, p⟩, hresult, hp⟩ := Option.map_eq_some_iff.mp h
  cases result with
  | error e => cases hp
  | ok i' =>
    have hidentity := transferPayload_identity hH rfl hresult
    cases hp
    exact hidentity

/-- **What a put is about to store** is intact under the key of its Object, which a create-only put found free. -/
theorem prepare_returns (hT : T.Documented) (hH : host.hasher.Sha256) {resource : ResourceRef} {p : PutRequest}
    (hres : operation.resources = [resource]) (hvalue : ReadsResource T.toPackages operation.input resource)
    (hp : p.Reads T.toPackages operation.input resource) {k : ObjectKey} {stored : StoredObject T}
    (h : (prepare T host fuel operation).Returns s (k, stored) s') :
    k = key resource p.objectId.val ∧ StoredObject.Intact hH k stored ∧
      (p.createOnly = true → Dict.get? s.world.objects k = none) := by
  simp only [prepare, returns_bind, returns_lift, returns_step, returns_pure, Prod.exists, Prod.mk.injEq] at h
  obtain ⟨resource', _, ⟨hresource, rfl⟩, objectId, _, ⟨hid, rfl⟩, createOnly, _, ⟨hcreate, rfl⟩, _, _, ⟨hfree, rfl⟩, _, _,
    ⟨-, rfl⟩, payload, _, ⟨-, rfl⟩, i, data, t, hreceive, m, _, ⟨hm, rfl⟩, ⟨rfl, rfl⟩, rfl⟩ := h
  obtain rfl : resource = resource' := Except.ok.inj ((resourceOf_eq hres).symm.trans hresource)
  obtain rfl : p.objectId.val = objectId :=
    Json.str.inj (Option.some.inj (hp.identity.objectId.symm.trans (strArgument_eq_ok.mp hid)))
  obtain rfl : p.createOnly = createOnly :=
    Json.bool.inj (Option.some.inj (hp.createOnly.symm.trans (boolArgument_eq_ok.mp hcreate)))
  obtain rfl := receive_returns hH hreceive
  refine ⟨rfl, newMetadata_intact hT hH (mapError_eq_ok.mp hvalue) hm, fun hc => ?_⟩
  rw [raiseIf_eq_ok, not_and] at hfree
  exact Option.not_isSome_iff_eq_none.mp (hfree hc)

/-- **A create-only put of a key that is taken** is refused before its payload is opened. -/
theorem prepare_conflict {resource : ResourceRef} {p : PutRequest} (hres : operation.resources = [resource])
    (hp : p.Reads T.toPackages operation.input resource) (hc : p.createOnly = true)
    (htaken : Dict.get? s.world.objects (key resource p.objectId.val) ≠ none) :
    (prepare T host fuel operation).Raises s ConditionalConflict s := by
  unfold prepare
  rw [resourceOf_eq hres, lift_ok_bind, strArgument_eq_ok.mpr hp.identity.objectId, lift_ok_bind,
    boolArgument_eq_ok.mpr hp.createOnly, lift_ok_bind]
  apply Raises.bind_eq
  rw [raises_step, raiseIf, if_pos ⟨hc, Option.isSome_iff_ne_none.mpr htaken⟩]

/-! ## Lookups -/

theorem found_eq_ok {object? : Option (StoredObject T)} {digest : Option Str} {stored : StoredObject T} :
    found T object? digest = .ok stored ↔
      object? = some stored ∧ (digest = none ∨ digest = some (T.metadataDigest stored.metadata)) := by
  unfold found
  cases object? with
  | none => simp
  | some o =>
    dsimp only
    split
    · next hne =>
      simp only [reduceCtorEq, Option.some.injEq, false_iff, not_and, not_or]
      rintro rfl
      exact hne
    · next heq =>
      simp only [Except.ok.injEq, Option.some.injEq]
      constructor
      · rintro rfl
        exact ⟨rfl, by tauto⟩
      · exact fun h => h.1

/-- **`_lookup` finds what is stored under the key referenced**, and changes nothing. -/
theorem lookup_eq {resource : ResourceRef} {method : Str} {requireDigest : Bool}
    {reference : LogicalReference T.toPackages} (hres : operation.resources = [resource])
    (h : ReadsReference operation.input resource method requireDigest reference) (s : TargetState T W) :
    lookup T operation s =
      some (found T (Dict.get? s.world.objects (key resource (T.objectId reference.objectRef)))
        (T.digest reference.objectRef), s) := by
  obtain ⟨raw, hget, hparse⟩ := h.document
  unfold lookup
  rw [mappingArgument_eq_ok.mpr hget, lift_ok_bind, hparse, lift_ok_bind, resourceOf_eq hres, lift_ok_bind]
  rfl

/-! ## Handles -/

/-- The reference to the `n`-th content that the target registers. -/
def ownReference (host : MemoryHost W) (n : Nat) (data : Bytes) (d : Option Digest) : PayloadReference :=
  ⟨payloadToken (host.random n), some data.length, d, true, payloadReferenceFormatVersion, rfl⟩

theorem memoryHeap_ownId (heap : SourceId → PayloadSource) (n : Nat) :
    memoryHeap heap (ownId n) = .factory (ownId n) true := by
  unfold memoryHeap
  rw [owner_ownId]

/-- **A content is registered** with its length and the digest given, as a source of its own. -/
theorem register_eq (host : MemoryHost W) (data : Bytes) (d : Option Digest) (s : TargetState T W) :
    register T host data (wireDigest d) s =
      some (.ok (ownReference host s.world.captured.length data d),
        ⟨registerSection s.store (ownReference host s.world.captured.length data d) (ownId s.world.captured.length),
          { s.world with captured := s.world.captured ++ [data] }⟩) := by
  have hregister : registerReference (memoryHeap host.heap) (ownId s.world.captured.length)
      (tokenUrlsafe (host.random s.world.captured.length)) (.int data.length) (wireDigest d) =
        .ok (ownReference host s.world.captured.length data d) := by
    rw [registerReference_generated]
    refine registerDeclared_eq_ok.mpr ⟨rfl, rfl, rfl, ?_⟩
    rw [memoryHeap_ownId]
    rfl
  unfold register step
  dsimp only
  rw [hregister]

/-- The state after a content was registered. -/
def registered (host : MemoryHost W) (s : TargetState T W) (data : Bytes) (d : Option Digest) : TargetState T W :=
  ⟨registerSection s.store (ownReference host s.world.captured.length data d) (ownId s.world.captured.length),
    { s.world with captured := s.world.captured ++ [data] }⟩

/-! ## Executions -/

theorem methodOf_eq {method : Str} (h : operation.operationContract = str "meridian.object." ++ method) :
    methodOf operation = method := by
  have hdrop : (str "meridian.object." ++ method).dropPrefix? (str "meridian.object.") = some method :=
    List.dropPrefix?_eq_some_iff.mpr ⟨_, rfl, beq_self_eq_true _⟩
  unfold methodOf
  rw [h, hdrop]
  rfl

variable {resource : ResourceRef} {reference : LogicalReference T.toPackages} {method : Str} {requireDigest : Bool}
  {o : StoredObject T} {e : PyError}

/-- The Object that a reference of an Operation is looked up as. -/
def lookedUp (s : TargetState T W) (resource : ResourceRef) (reference : LogicalReference T.toPackages) :
    Py (StoredObject T) :=
  found T (Dict.get? s.world.objects (key resource (T.objectId reference.objectRef))) (T.digest reference.objectRef)

/-- What follows a lookup that finds an Object. -/
theorem lookup_found (hres : operation.resources = [resource])
    (h : ReadsReference operation.input resource method requireDigest reference)
    (ho : lookedUp s resource reference = .ok o) {α : Type} (f : StoredObject T → TargetRoutine T W α) :
    (lookup T operation >>= f) s = f o s := by
  have hlookup := lookup_eq hres h s
  rw [← lookedUp, ho] at hlookup
  exact Returns.bind_eq hlookup f

/-- A lookup that finds none is the end of the handler. -/
theorem lookup_missing (hres : operation.resources = [resource])
    (h : ReadsReference operation.input resource method requireDigest reference)
    (he : lookedUp s resource reference = .error e) {α : Type} (f : StoredObject T → TargetRoutine T W α) :
    (lookup T operation >>= f) s = some (.error e, s) := by
  have hlookup := lookup_eq hres h s
  rw [← lookedUp, he] at hlookup
  exact Raises.bind_eq hlookup f

/-- The handler of each method. -/
theorem execute_eq (h : operation.operationContract = str "meridian.object." ++ method) :
    execute T host fuel operation =
      if method = str "put" then put T host fuel operation
      else if method = str "get" then get T host operation
      else if method = str "stat" then stat T operation
      else if method = str "read_range" then readRange T host operation
      else if method = str "list" then list T operation
      else if method = str "delete" then delete T operation
      else .lift (.error (.builtin .assertionError [.text "test target cannot execute ", .repr method])) := by
  unfold execute
  rw [methodOf_eq h]

variable (host fuel)

theorem execute_stat (h : Asks operation "stat" resource (.read reference)) (s : TargetState T W) :
    execute T host fuel operation s =
      some ((lookedUp s resource reference).map fun o => metadataMember T o.metadata, s) := by
  obtain ⟨-, -, -, href⟩ := h.reads
  rw [execute_eq h.contract]
  show stat T operation s = _
  unfold stat
  cases hfound : lookedUp s resource reference with
  | error e => exact lookup_missing h.resources href hfound _
  | ok o => exact lookup_found h.resources href hfound _

/-- A get of an Object that is not there, or that is registered with its length and its digest. -/
theorem execute_get (h : Asks operation "get" resource (.read reference)) (s : TargetState T W) :
    (∃ e, lookedUp s resource reference = .error e ∧ execute T host fuel operation s = some (.error e, s)) ∨
      ∃ o, lookedUp s resource reference = .ok o ∧
        ∀ d : Digest, T.metadataDigest o.metadata = d.val →
          execute T host fuel operation s =
            some (.ok (getMembers T o.metadata (ownReference host s.world.captured.length o.data (some d))),
              registered host s o.data (some d)) := by
  obtain ⟨-, -, -, href⟩ := h.reads
  rw [execute_eq h.contract]
  show (∃ e, _ ∧ get T host operation s = _) ∨ ∃ o, _ ∧ ∀ d : Digest, _ → get T host operation s = _
  unfold get
  cases hfound : lookedUp s resource reference with
  | error e => exact Or.inl ⟨e, rfl, lookup_missing h.resources href hfound _⟩
  | ok o =>
    refine Or.inr ⟨o, rfl, fun d hd => ?_⟩
    have hregister := register_eq host o.data (some d) s
    rw [lookup_found h.resources href hfound, hd]
    exact Returns.bind_eq hregister _

/-- The part of a content that a range denotes in it. -/
def rangeData (data : Bytes) (resolved : ResolvedByteRange) : Bytes :=
  slice data resolved.start (resolved.rangeEnd + 1)

/-- A range read of an Object that is not there, of a range that it cannot satisfy, or of a part that is registered
with its length. -/
theorem execute_readRange {range : ByteRange} (h : Asks operation "read_range" resource (.readRange reference range))
    (s : TargetState T W) :
    (∃ e, lookedUp s resource reference = .error e ∧ execute T host fuel operation s = some (.error e, s)) ∨
      ∃ o, lookedUp s resource reference = .ok o ∧
        ((∃ e, range.resolve (.int o.data.length) = .error e ∧
          execute T host fuel operation s = some (.error e, s)) ∨
        ∃ resolved, range.resolve (.int o.data.length) = .ok resolved ∧
          execute T host fuel operation s =
            some (.ok (rangeMembers T o.metadata
              (ownReference host s.world.captured.length (rangeData o.data resolved) none) resolved),
              registered host s (rangeData o.data resolved) none)) := by
  obtain ⟨-, -, -, href, raw, hget, hrange⟩ := h.reads
  rw [execute_eq h.contract]
  show (∃ e, _ ∧ readRange T host operation s = _) ∨
    ∃ o, _ ∧ ((∃ e, _ ∧ readRange T host operation s = _) ∨ ∃ resolved, _ ∧ readRange T host operation s = _)
  unfold readRange
  cases hfound : lookedUp s resource reference with
  | error e => exact Or.inl ⟨e, rfl, lookup_missing h.resources href hfound _⟩
  | ok o =>
    refine Or.inr ⟨o, rfl, ?_⟩
    rw [lookup_found h.resources href hfound, mappingArgument_eq_ok.mpr hget, lift_ok_bind, hrange, lift_ok_bind]
    cases hresolve : range.resolve (.int o.data.length) with
    | error e => exact Or.inl ⟨e, rfl, rfl⟩
    | ok resolved =>
      have hregister := register_eq host (rangeData o.data resolved) none s
      exact Or.inr ⟨resolved, rfl, Returns.bind_eq hregister _⟩

/-- The entries of a Resource under a prefix, in the order of their keys. -/
def matching (objects : Dict ObjectKey (StoredObject T)) (resource : ResourceRef) (first : Str) :
    Dict ObjectKey (StoredObject T) :=
  (sortedObjects T objects).filter fun entry => matchesKey resource first entry.1

theorem execute_list {limit : Positive} (h : Asks (P := T.toPackages) operation "list" resource (.list limit)) :
    ∃ first, Dict.get? operation.input "prefix" = some (.str first) ∧ ∀ s : TargetState T W,
      execute T host fuel operation s =
        some (.ok (listMembers T (((matching s.world.objects resource first).take limit.val).map fun entry =>
          entry.2.metadata)), s) := by
  obtain ⟨-, -, hlist⟩ := h.reads
  obtain ⟨first, _, hfirst, -⟩ := hlist.listPrefix
  refine ⟨first, hfirst, fun s => ?_⟩
  have hlimit : intArgument operation "limit" = .ok (limit.val : Int) := by
    unfold intArgument
    rw [getItem_eq_ok.mpr hlist.page]
    rfl
  rw [execute_eq h.contract]
  show list T operation s = _
  unfold list
  rw [resourceOf_eq h.resources, lift_ok_bind, strArgument_eq_ok.mpr hfirst, lift_ok_bind, hlimit, lift_ok_bind]
  rfl

/-- The state after a key was removed. -/
def removed (s : TargetState T W) (k : ObjectKey) : TargetState T W :=
  { s with world.objects := Dict.pop s.world.objects k }

/-- A delete of an Object that is not there, or that is removed. -/
theorem execute_delete (h : Asks operation "delete" resource (.delete reference)) (s : TargetState T W) :
    (∃ e, lookedUp s resource reference = .error e ∧ execute T host fuel operation s = some (.error e, s)) ∨
      ∃ o, lookedUp s resource reference = .ok o ∧
        (T.objectId (T.metadataObjectRef o.metadata) = T.objectId reference.objectRef →
          execute T host fuel operation s =
            some (.ok deletedMember, removed s (key resource (T.objectId reference.objectRef)))) := by
  obtain ⟨-, -, -, href, -⟩ := h.reads
  rw [execute_eq h.contract]
  show (∃ e, _ ∧ delete T operation s = _) ∨ ∃ o, _ ∧ (_ → delete T operation s = _)
  unfold delete
  cases hfound : lookedUp s resource reference with
  | error e => exact Or.inl ⟨e, rfl, lookup_missing h.resources href hfound _⟩
  | ok o =>
    refine Or.inr ⟨o, rfl, fun hid => ?_⟩
    have hthere := (found_eq_ok.mp hfound).1
    rw [lookup_found h.resources href hfound, resourceOf_eq h.resources, lift_ok_bind, hid]
    have hstep : (step fun s : TargetState T W =>
        if (Dict.get? s.world.objects (key resource (T.objectId reference.objectRef))).isSome then
          ((.ok (), removed s (key resource (T.objectId reference.objectRef))) : Py Unit × TargetState T W)
        else (.error (.builtin .keyError [.foreign]), s)).Returns s ()
        (removed s (key resource (T.objectId reference.objectRef))) := by
      rw [returns_step, if_pos (by rw [hthere]; rfl)]
    exact Returns.bind_eq hstep _

/-- The other methods of the Catalog are not the target's. -/
theorem execute_other {r : Request T.toPackages} (h : Asks operation method resource r)
    (hm : method = str "publish_schema" ∨ method = str "create_resource") (s : TargetState T W) :
    execute T host fuel operation s =
      some (.error (.builtin .assertionError [.text "test target cannot execute ", .repr method]), s) := by
  rw [execute_eq h.contract]
  obtain rfl | rfl := hm <;> rfl

variable {host fuel}

/-- **A put that raises changes no Object**, and one that returns stores what it prepared. -/
theorem execute_put {p : PutRequest} (h : Asks (P := T.toPackages) operation "put" resource (.put p))
    {answer : Py JsonMapping} (hexec : execute T host fuel operation s = some (answer, s')) :
    (∃ e, answer = .error e ∧ (prepare T host fuel operation).Raises s e s' ∧ s'.world.held = s.world.held) ∨
      ∃ k o t, (prepare T host fuel operation).Returns s (k, o) t ∧ answer = .ok (metadataMember T o.metadata) ∧
        s'.world.objects = Dict.set s.world.objects k o ∧ s'.world.captured = s.world.captured := by
  rw [execute_eq h.contract] at hexec
  change put T host fuel operation s = some (answer, s') at hexec
  unfold put at hexec
  rcases hprepare : prepare T host fuel operation s with _ | ⟨e | ⟨k, o⟩, t⟩
  · cases (bind_eq_none hprepare _).symm.trans hexec
  · cases (Raises.bind_eq hprepare _).symm.trans hexec
    exact Or.inl ⟨e, rfl, hprepare, prepare_keeps _ _ _ hprepare⟩
  · cases (Returns.bind_eq hprepare _).symm.trans hexec
    have hkept : t.world.held = s.world.held := prepare_keeps _ _ _ hprepare
    obtain ⟨hobjects, hcaptured⟩ := Prod.mk.inj hkept
    refine Or.inr ⟨k, o, t, hprepare, rfl, ?_, hcaptured⟩
    show Dict.set t.world.objects k o = _
    rw [hobjects]

end MemoryObjectTarget

end ObjectCommon
