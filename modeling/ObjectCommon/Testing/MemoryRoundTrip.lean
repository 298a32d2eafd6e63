import ObjectCommon.RangeParts
import ObjectCommon.Testing.MemoryHandles

/-!
# Uploads and downloads

A put receives the payload that the client registered; a read registers the content for the client to receive.

* `receive_content`, `prepare_content` : what a put stores is what its payload gave;
* `execute_objects` : an execution stores under a key, removes a key, or changes no Object;
* `run_untouched` : a key that no answered put or delete is about keeps its Object;
* `Downloads`, `Downloads.delivers` : a read of a key that is there, and what the payload it returned delivers later;
* `upload_download` : what was uploaded is downloaded, byte for byte;
* `download_in_parts` : and also in parts, in any order.
-/

namespace ObjectCommon

open Outcome PyError Routine MemoryObjectTarget

variable {T : StorePackages} {W : Type} {host : MemoryHost W} {s s' s₀ : TargetState T W} {x y : Execution T}
  {es : List (TargetEvent T)} {k : ObjectKey}

/-! ## What a put stores -/

/-- What the target received of a `BytesIO` of the client is its content. -/
theorem receive_content {fuel : Nat} {payload : PayloadReference} {source : SourceId} {content data : Bytes}
    {stream : StreamId} {client : W} {i : ContentIdentity}
    (hsource : Dict.get? s.store.sources payload.token.val = some (clientId source))
    (hbytes : OpensBytes host.streams content (host.heap source) s.world.client stream client)
    (h : (receive T host fuel payload).Returns s (i, data) s') : data = content := by
  obtain ⟨⟨result, p⟩, hresult, hp⟩ := Option.map_eq_some_iff.mp h
  cases result with
  | error e => cases hp
  | ok i' =>
    have hparse : parsePayloadReference (.reference payload) = .ok payload := rfl
    have hbuffer := transferPayload_content hparse hsource (clientSource_opensBytes hbytes) rfl hresult
    cases hp
    exact hbuffer

/-- What a put is about to store is what its payload gave. -/
theorem prepare_content {fuel : Nat} {operation : Operation} {resource : ResourceRef} {p : PutRequest}
    (hp : p.Reads T.toPackages operation.input resource) {source : SourceId} {content : Bytes} {stream : StreamId}
    {client : W} (hsource : Dict.get? s.store.sources p.payload.token.val = some (clientId source))
    (hbytes : OpensBytes host.streams content (host.heap source) s.world.client stream client) {o : StoredObject T}
    (h : (prepare T host fuel operation).Returns s (k, o) s') : o.data = content := by
  simp only [prepare, returns_bind, returns_lift, returns_step, returns_pure, Prod.exists, Prod.mk.injEq] at h
  obtain ⟨resource', _, ⟨-, rfl⟩, objectId, _, ⟨-, rfl⟩, createOnly, _, ⟨-, rfl⟩, _, _, ⟨-, rfl⟩, raw, _,
    ⟨hraw, rfl⟩, payload, _, ⟨hpayload, rfl⟩, i, data, t, hreceive, m, _, ⟨-, rfl⟩, ⟨rfl, rfl⟩, rfl⟩ := h
  obtain ⟨raw', hraw', hpayload'⟩ := hp.integrity.payload
  cases (mappingArgument_eq_ok.mp hraw).symm.trans hraw'
  cases hpayload.symm.trans hpayload'
  exact receive_content hsource hbytes hreceive

/-! ## Keys that are left alone -/

/-- **What an execution makes of the Objects**: it stores one under the key of an answered put, removes that of an
answered delete, or changes none. -/
theorem execute_objects (hT : T.Documented) (hH : host.hasher.Sha256) (hs : Consistent hH s) {fuel : Nat}
    (h : execute T host fuel x.operation s = some (x.answer, s')) :
    s'.world.objects = s.world.objects ∨
      (∃ k o, x.Stores k ∧ s'.world.objects = Dict.set s.world.objects k o) ∨
      ∃ k, x.Removes k ∧ s'.world.objects = Dict.pop s.world.objects k := by
  obtain ⟨operation, method, resource, request, hasks, answer⟩ := x
  dsimp only at h
  cases request with
  | publishSchema =>
    obtain ⟨rfl, -⟩ := hasks.reads
    cases (execute_other host _ hasks (Or.inl rfl) s).symm.trans h
    exact Or.inl rfl
  | createResource profile options =>
    obtain ⟨rfl, -⟩ := hasks.reads
    cases (execute_other host _ hasks (Or.inr rfl) s).symm.trans h
    exact Or.inl rfl
  | put p =>
    obtain ⟨rfl, hvalue, hp⟩ := hasks.reads
    obtain ⟨e, rfl, -, hheld⟩ | ⟨k, o, t, hreturns, rfl, hobjects, -⟩ := execute_put hasks h
    · exact Or.inl (Prod.mk.inj hheld).1
    · obtain ⟨rfl, -, -⟩ := prepare_returns hT hH hasks.resources hvalue hp hreturns
      exact Or.inr (Or.inl ⟨_, o, ⟨p, _, rfl, rfl, rfl⟩, hobjects⟩)
  | read reference =>
    obtain ⟨rfl | rfl, -⟩ := hasks.reads
    · obtain ⟨e, -, hexec⟩ | ⟨o, ho, hexec⟩ := execute_get host fuel hasks s
      · cases hexec.symm.trans h
        exact Or.inl rfl
      · obtain ⟨-, hintact⟩ := hs.lookedUp ho
        cases (hexec _ hintact.digest).symm.trans h
        exact Or.inl rfl
    · cases (execute_stat host fuel hasks s).symm.trans h
      exact Or.inl rfl
  | readRange reference range =>
    obtain ⟨rfl, -⟩ := hasks.reads
    obtain ⟨e, -, hexec⟩ | ⟨o, -, ⟨e, -, hexec⟩ | ⟨resolved, -, hexec⟩⟩ := execute_readRange host fuel hasks s
    · cases hexec.symm.trans h
      exact Or.inl rfl
    · cases hexec.symm.trans h
      exact Or.inl rfl
    · cases hexec.symm.trans h
      exact Or.inl rfl
  | list limit =>
    obtain ⟨rfl, -⟩ := hasks.reads
    obtain ⟨first, -, hexec⟩ := execute_list host fuel hasks
    cases (hexec s).symm.trans h
    exact Or.inl rfl
  | delete reference =>
    obtain ⟨rfl, -⟩ := hasks.reads
    obtain ⟨e, -, hexec⟩ | ⟨o, ho, hexec⟩ := execute_delete host fuel hasks s
    · cases hexec.symm.trans h
      exact Or.inl rfl
    · obtain ⟨-, hintact⟩ := hs.lookedUp ho
      cases (hexec (hintact.objectId_of_reference hT)).symm.trans h
      exact Or.inr (Or.inr ⟨_, ⟨reference, _, rfl, rfl, rfl⟩, rfl⟩)

/-- A step about other keys keeps the Object. -/
theorem step_untouched (hT : T.Documented) (hH : host.hasher.Sha256) (hs : Consistent hH s) {e : TargetEvent T}
    (h : TargetStep host s e s') (hk : ¬ e.Touches k) :
    Dict.get? s'.world.objects k = Dict.get? s.world.objects k := by
  cases h with
  | outside hheld => rw [(Prod.mk.inj hheld).1]
  | executed hexec =>
    rename_i x _
    obtain hobjects | ⟨k', o, hstores, hobjects⟩ | ⟨k', hremoves, hobjects⟩ := execute_objects hT hH hs hexec
    · rw [hobjects]
    · have hne : k ≠ k' := fun heq => hk ⟨_, rfl, Or.inl (heq ▸ hstores)⟩
      rw [hobjects, Dict.get?_set, if_neg hne]
    · have hne : k ≠ k' := fun heq => hk ⟨_, rfl, Or.inr (heq ▸ hremoves)⟩
      rw [hobjects, Dict.get?_pop_ne _ hne]

/-- **A key that no answered put or delete is about keeps its Object.** -/
theorem run_untouched (hT : T.Documented) (hH : host.hasher.Sha256) (hs : Consistent hH s)
    (h : Runs.Run (TargetStep host) s es s') (hk : ∀ e ∈ es, ¬ e.Touches k) :
    Dict.get? s'.world.objects k = Dict.get? s.world.objects k := by
  induction h with
  | nil => rfl
  | snoc run last ih =>
    obtain ⟨hbefore, hlast⟩ := List.forall_mem_append.mp hk
    have hconsistent := run.keep (fun _ _ _ hs hstep => step_consistent hT hH hs hstep) hs
    rw [step_untouched hT hH hconsistent last (hlast _ (List.mem_singleton_self _)), ih hbefore]

/-! ## The round trip -/

theorem Execution.length_delivered_le (x : Execution T) (data : Bytes) : (x.delivered data).length ≤ data.length := by
  unfold delivered
  split
  · next reference range hrequest =>
    unfold ByteRange.requested
    rw [List.length_map]
    exact (List.length_filter_le _ _).trans (le_of_eq List.length_zipIdx)
  · exact le_refl _

/-- **An answered put stores what its payload gave**, under the key of its Object. -/
theorem put_stores (hT : T.Documented) (hH : host.hasher.Sha256) {fuel : Nat} {p : PutRequest}
    (hrequest : x.request = .put p) {stored : JsonMapping} (hstored : x.answer = .ok stored) {source : SourceId}
    {content : Bytes} {stream : StreamId} {client : W}
    (hsource : Dict.get? s.store.sources p.payload.token.val = some (clientId source))
    (hbytes : OpensBytes host.streams content (host.heap source) s.world.client stream client)
    (h : execute T host fuel x.operation s = some (x.answer, s')) :
    ∃ m, stored = metadataMember T m ∧
      Dict.get? s'.world.objects (key x.resource p.objectId.val) = some ⟨content, m⟩ := by
  obtain ⟨operation, method, resource, request, hasks, answer⟩ := x
  dsimp only at hrequest hstored h
  subst hrequest hstored
  obtain ⟨rfl, hvalue, hp⟩ := hasks.reads
  obtain ⟨e, he, -⟩ | ⟨k, o, t, hreturns, hmember, hobjects, -⟩ := execute_put hasks h
  · cases he
  · obtain ⟨rfl, -, -⟩ := prepare_returns hT hH hasks.resources hvalue hp hreturns
    obtain rfl := prepare_content hp hsource hbytes hreturns
    refine ⟨o.metadata, Except.ok.inj hmember, ?_⟩
    rw [hobjects]
    exact Dict.get?_set_self _ _ _

/-- From `s` to `s'` a get or a range read of the key is answered with the payload, before any other answered put or
delete of the key, and the registry still holds the source of the payload. -/
inductive Downloads (host : MemoryHost W) (s s' : TargetState T W) (k : ObjectKey) (y : Execution T)
    (payload : PayloadReference) : Prop
  | mk {between after : List (TargetEvent T)} {t t' : TargetState T W} {reference : LogicalReference T.toPackages}
      {result : JsonMapping} {message : Message} (hbetween : Runs.Run (TargetStep host) s between t)
      (huntouched : ∀ e ∈ between, ¬ e.Touches k) (hread : TargetStep host t (.executed y) t')
      (hafter : Runs.Run (TargetStep host) t' after s') (href : y.readReference? = some reference)
      (hkey : y.referencedKey reference = k) (hanswer : y.answer = .ok result)
      (hpayload : payloadResult result message = .ok payload)
      (hregistered : Dict.get? s'.store.sources payload.token.val = Dict.get? t'.store.sources payload.token.val) :
      Downloads host s s' k y payload

/-- The payload of a download is received whole. -/
theorem Downloads.delivers (hT : T.Documented) (hH : host.hasher.Sha256) (hs : Consistent hH s) {content : Bytes}
    {m : T.ObjectMetadata} (hthere : Dict.get? s.world.objects k = some ⟨content, m⟩) {payload : PayloadReference}
    (h : Downloads host s s' k y payload) {size limit fuel : Nat} (hpos : 0 < size) (hmax : size ≤ maxChunkSize)
    (hlimit : (y.delivered content).length ≤ limit) (hfuel : (y.delivered content).length < fuel) :
    ∃ q, transferPayload (memoryHeap host.heap) ((memoryStreams host.streams).intoBuffer limit) host.hasher fuel
        (.reference payload) (.int size) ⟨s'.store, (s'.world, []), []⟩ =
      some (.ok (Hasher.identity hH (y.delivered content)), q) ∧ q.world.2 = y.delivered content := by
  cases h with
  | @mk _ _ t t' reference result message hbetween huntouched hread hafter href hkey hanswer hpayload hregistered =>
    have ht := hbetween.keep (fun _ _ _ hs hstep => step_consistent hT hH hs hstep) hs
    have ht' := step_consistent hT hH ht hread
    have hkept := run_untouched hT hH hs hbetween huntouched
    cases hread with
    | executed hexec =>
      obtain ⟨reference', o, d, href', hget, rfl, rfl, hd⟩ := read_registers hT hH ht hexec hanswer hpayload
      obtain rfl : reference = reference' := Option.some.inj (href.symm.trans href')
      rw [hkey, hkept, hthere] at hget
      obtain rfl := Option.some.inj hget
      exact registered_delivers hT hH ht' hafter hregistered hd hpos hmax hlimit hfuel

section RoundTrip

variable (hT : T.Documented) (hH : host.hasher.Sha256) (hempty : s₀.world.objects = []) {before : List (TargetEvent T)}
  {s₁ s₂ s₃ : TargetState T W} (hbefore : Runs.Run (TargetStep host) s₀ before s₁)
  (hput : TargetStep host s₁ (.executed x) s₂) {p : PutRequest} (hrequest : x.request = .put p) {stored : JsonMapping}
  (hstored : x.answer = .ok stored) {source : SourceId} {content : Bytes} {stream : StreamId} {client : W}
  (hsource : Dict.get? s₁.store.sources p.payload.token.val = some (clientId source))
  (hbytes : OpensBytes host.streams content (host.heap source) s₁.world.client stream client)

include hT hH hempty hbefore hput hrequest hstored hsource hbytes

/-- **What was uploaded is downloaded.** In every run: the client uploads a `BytesIO`, and the put is answered; later,
and before any other answered put or delete of the key, a get or a range read of it is answered. Then the metadata of
the put is that of the content, and every transfer of the payload that the read returned receives the content, or
the part requested of it, byte for byte. -/
theorem upload_download {payload : PayloadReference}
    (hdownloads : Downloads host s₂ s₃ (key x.resource p.objectId.val) y payload) :
    (∃ m, stored = metadataMember T m ∧ T.metadataByteLength m = content.length ∧
        T.metadataDigest m = (Hasher.identity hH content).digest.val) ∧
      ∀ size limit fuel, 0 < size → size ≤ maxChunkSize → (y.delivered content).length ≤ limit →
        (y.delivered content).length < fuel →
        ∃ q, transferPayload (memoryHeap host.heap) ((memoryStreams host.streams).intoBuffer limit) host.hasher fuel
            (.reference payload) (.int size) ⟨s₃.store, (s₃.world, []), []⟩ =
          some (.ok (Hasher.identity hH (y.delivered content)), q) ∧ q.world.2 = y.delivered content := by
  have hs := step_consistent hT hH (run_consistent hT hH hempty hbefore) hput
  cases hput with
  | executed hput =>
    obtain ⟨m, hm, hthere⟩ := put_stores hT hH hrequest hstored hsource hbytes hput
    have hintact := hs.intact _ _ hthere
    refine ⟨⟨m, hm, hintact.byteLength, hintact.digest⟩, fun size limit fuel hpos hmax hlimit hfuel => ?_⟩
    exact hdownloads.delivers hT hH hs hthere hpos hmax hlimit hfuel

/-- **An Object can be downloaded in parts**, read at any times and in any order, with anything else between them that
does not put or delete it: what the payloads of consecutive ranges deliver is, one after another, what was uploaded. -/
theorem download_in_parts {parts : List (Execution T × PayloadReference)} {lengths : List Positive}
    (hparts : List.Forall₂ (fun part range => ∃ reference, part.1.request = .readRange reference range) parts
      (ByteRange.consecutive 0 lengths))
    (hdownloads : ∀ part ∈ parts, Downloads host s₂ s₃ (key x.resource p.objectId.val) part.1 part.2)
    (hwhole : content.length ≤ (lengths.map Subtype.val).sum) {size limit fuel : Nat} (hpos : 0 < size)
    (hmax : size ≤ maxChunkSize) (hlimit : content.length ≤ limit) (hfuel : content.length < fuel) :
    ∃ buffers : List Bytes, List.Forall₂ (fun part buffer => ∃ q,
        transferPayload (memoryHeap host.heap) ((memoryStreams host.streams).intoBuffer limit) host.hasher fuel
            (.reference part.2) (.int size) ⟨s₃.store, (s₃.world, []), []⟩ =
          some (.ok (Hasher.identity hH buffer), q) ∧ q.world.2 = buffer) parts buffers ∧
      buffers.flatten = content := by
  have hs := step_consistent hT hH (run_consistent hT hH hempty hbefore) hput
  cases hput with
  | executed hput =>
    obtain ⟨m, -, hthere⟩ := put_stores hT hH hrequest hstored hsource hbytes hput
    refine ⟨parts.map fun part => part.1.delivered content, ?_, ?_⟩
    · rw [List.forall₂_map_right_iff, List.forall₂_same]
      intro part hpart
      have hle := part.1.length_delivered_le content
      exact (hdownloads part hpart).delivers hT hH hs hthere hpos hmax (by omega) (by omega)
    · have hdelivered : parts.map (fun part => part.1.delivered content) =
          (ByteRange.consecutive 0 lengths).map fun range => range.requested content := by
        rw [← List.forall₂_eq_eq_eq, List.forall₂_map_left_iff, List.forall₂_map_right_iff]
        refine hparts.imp fun part range => ?_
        rintro ⟨reference, hreference⟩
        unfold Execution.delivered
        rw [hreference]
      rw [hdelivered, ByteRange.flatten_consecutive, List.drop_zero, List.take_of_length_le hwhole]

end RoundTrip

/-! ## A session -/

def wholeRange : ByteRange := .closed 0 ⟨38, by decide⟩

/-- The first 20 bytes of the fixture, and the other 18. -/
def partLengths : List Positive := [⟨20, by decide⟩, ⟨18, by decide⟩]

/-- Read a range of the fixture. -/
def readPart (range : ByteRange) : TargetRoutine storeContracts ScriptedWorld PayloadReference := do
  let (_, result) ← executeExpression (ObjectCatalogSurface.readRangeOf fixtureResource sessionReference range)
  .lift (payloadResult result [])

/-- The source that is registered under the token of a payload. -/
def registeredSource (payload : PayloadReference) : TargetRoutine storeContracts ScriptedWorld (Option SourceId) :=
  .step fun s => (.ok (Dict.get? s.store.sources payload.token.val), s)

/-- The fixture is put and read whole, and then read in two parts; whether the parts have tokens of their own, and the
source of the first is still registered at the end. -/
def partSession : TargetRoutine storeContracts ScriptedWorld Bool := do
  let _ ← executeExpression sessionPut
  let _ ← readPart wholeRange
  let first ← readPart (.closed 0 ⟨20, by decide⟩)
  let registered ← registeredSource first
  let second ← readPart (.closed 20 ⟨18, by decide⟩)
  let kept ← registeredSource first
  return first.token ≠ second.token ∧ kept = registered

def sessionKey : ObjectKey := key fixtureResourceRef fixtureObjectId

variable {t t' : TargetState storeContracts ScriptedWorld}

/-- The put of the session is a put of the fixture. -/
theorem sessionPut_returns {operation : Operation} {result : JsonMapping}
    (h : (executeExpression sessionPut).Returns t (operation, result) t') :
    ∃ (x : Execution storeContracts) (p : PutRequest), TargetStep memoryFixture t (.executed x) t' ∧
      x.request = .put p ∧ x.answer = .ok result ∧ p.payload.token = fixtureUpload.token ∧ key x.resource p.objectId.val = sessionKey := by
  obtain ⟨x, p, hstep, hrequest, hanswer, hresource, hid, htoken, -⟩ := put_returns h rfl rfl rfl rfl rfl
  refine ⟨x, p, hstep, hrequest, hanswer, htoken, ?_⟩
  rw [hresource, hid]
  rfl

/-- A part that is read of the Object of the session is downloaded, unless the key is touched before. -/
theorem readPart_returns {range : ByteRange} {payload : PayloadReference} (h : (readPart range).Returns t payload t') :
    ∃ y : Execution storeContracts, TargetStep memoryFixture t (.executed y) t' ∧
      (∃ reference, y.request = .readRange reference range) ∧
      ∀ {s s' between after}, Runs.Run (TargetStep memoryFixture) s between t → (∀ e ∈ between, ¬ e.Touches sessionKey) →
        Runs.Run (TargetStep memoryFixture) t' after s' →
        Dict.get? s'.store.sources payload.token.val = Dict.get? t'.store.sources payload.token.val →
        Downloads memoryFixture s s' sessionKey y payload := by
  simp only [readPart, returns_bind, returns_lift, Prod.exists] at h
  obtain ⟨operation, result, t', hexec, hpayload, rfl⟩ := h
  obtain ⟨-, resource, r, hasks, hreads, hread⟩ := executeExpression_returns hexec
  obtain ⟨reference, range', rfl, raw, hraw, hparse⟩ := hreads.exists_readRange
  obtain rfl : range.toDict = raw := Json.obj.inj (Option.some.inj hraw)
  obtain rfl : range = range' := Except.ok.inj (range.fromMapping_toDict.symm.trans hparse)
  obtain ⟨-, hresource, -, hreference, -⟩ := hreads
  obtain rfl := Except.ok.inj (hresource.symm.trans parse_fixtureResource)
  obtain ⟨raw, hraw, hparse⟩ := hreference.document
  obtain rfl : storeContracts.referenceToDict fixtureMetadata.objectRef.val = raw := Json.obj.inj (Option.some.inj hraw)
  have hid : (parseLogicalReference storeContracts.toPackages
      (storeContracts.referenceToDict fixtureMetadata.objectRef.val)).map
        (fun reference => storeContracts.objectId reference.objectRef) = .ok fixtureObjectId := by decide +kernel
  rw [hparse] at hid
  let y : Execution storeContracts := ⟨operation, _, _, _, hasks, .ok result⟩
  have hkey : y.referencedKey reference = sessionKey := congrArg (key _) (Except.ok.inj hid)
  exact ⟨y, hread, ⟨reference, rfl⟩, fun hbetween huntouched hafter hregistered =>
    .mk hbetween huntouched hread hafter rfl hkey rfl hpayload hregistered⟩

/-- A range read touches no key. -/
theorem not_touches_of_readRange {range : ByteRange} (h : ∃ reference, y.request = .readRange reference range) :
    ¬ (TargetEvent.executed y).Touches k := by
  obtain ⟨reference, h⟩ := h
  rintro ⟨x, hx, ⟨p, result, hput, -⟩ | ⟨reference', result, hdelete, -⟩⟩
  · cases hx
    cases h.symm.trans hput
  · cases hx
    cases h.symm.trans hdelete

/-- **The session is an upload and three downloads**: of the whole, and of two parts with tokens of their own. -/
theorem partSession_downloads : ∃ (x y₀ y₁ y₂ : Execution storeContracts)
    (s₁ s₂ s₃ : TargetState storeContracts ScriptedWorld) (p : PutRequest) (stored : JsonMapping)
    (whole first second : PayloadReference),
    TargetStep memoryFixture memoryStart (.executed x) s₁ ∧ x.request = .put p ∧ x.answer = .ok stored ∧
      Dict.get? memoryStart.store.sources p.payload.token.val = some (clientId 0) ∧
      ((∃ reference, y₀.request = .readRange reference wholeRange) ∧
        Downloads memoryFixture s₁ s₂ (key x.resource p.objectId.val) y₀ whole) ∧
      List.Forall₂ (fun part range => ∃ reference, part.1.request = .readRange reference range)
        [(y₁, first), (y₂, second)] (ByteRange.consecutive 0 partLengths) ∧
      (∀ part ∈ [(y₁, first), (y₂, second)],
        Downloads memoryFixture s₁ s₃ (key x.resource p.objectId.val) part.1 part.2) ∧ first.token ≠ second.token := by
  have hend : ((partSession memoryStart).map Prod.fst) = some (.ok true) := by decide +kernel
  obtain ⟨⟨answer, s⟩, hs, rfl⟩ := Option.map_eq_some_iff.mp hend
  have hsession : partSession.Returns memoryStart true s := hs
  simp only [partSession, registeredSource, returns_bind, returns_step, returns_pure, Prod.exists] at hsession
  obtain ⟨operation, stored, s₁, hput, whole, s₃, hwhole, first, s₄, hfirst, registered, _, hregistered, second, s₅,
    hsecond, kept, _, hkept, hend, rfl⟩ := hsession
  obtain ⟨⟨rfl⟩, rfl⟩ := Prod.mk.inj hregistered
  obtain ⟨⟨rfl⟩, rfl⟩ := Prod.mk.inj hkept
  obtain ⟨htokens, hkept⟩ := of_decide_eq_true hend
  obtain ⟨x, p, put, hrequest, hstored, htoken, hkey⟩ := sessionPut_returns hput
  obtain ⟨y₀, read₀, hrange₀, hdownloads₀⟩ := readPart_returns hwhole
  obtain ⟨y₁, read₁, hrange₁, hdownloads₁⟩ := readPart_returns hfirst
  obtain ⟨y₂, read₂, hrange₂, hdownloads₂⟩ := readPart_returns hsecond
  have hsource : Dict.get? memoryStart.store.sources p.payload.token.val = some (clientId 0) := by
    rw [htoken]
    rfl
  have run₁ : Runs.Run (TargetStep memoryFixture) s₁ [.executed y₀] s₃ := Runs.Run.nil.snoc read₀
  have run₂ : Runs.Run (TargetStep memoryFixture) s₁ ([.executed y₀] ++ [.executed y₁]) s₄ := run₁.snoc read₁
  have last : Runs.Run (TargetStep memoryFixture) s₄ [.executed y₂] s₅ := Runs.Run.nil.snoc read₂
  have hkeeps₀ : ¬ (TargetEvent.executed y₀).Touches sessionKey := not_touches_of_readRange hrange₀
  have hkeeps₁ : ¬ (TargetEvent.executed y₁).Touches sessionKey := not_touches_of_readRange hrange₁
  refine ⟨x, y₀, y₁, y₂, s₁, s₃, s₅, p, stored, whole, first, second, put, hrequest, hstored, hsource, ⟨hrange₀, ?_⟩,
    .cons hrange₁ (.cons hrange₂ .nil), ?_, htokens⟩
  · rw [hkey]
    exact hdownloads₀ .nil (by simp) .nil rfl
  · rw [hkey]
    refine List.forall_mem_cons.mpr ⟨?_, List.forall_mem_singleton.mpr ?_⟩
    · exact hdownloads₁ run₁ (List.forall_mem_singleton.mpr hkeeps₀) last hkept
    · exact hdownloads₂ run₂ (by simp [hkeeps₀, hkeeps₁]) .nil rfl

theorem upload_download_session : ∃ (s : TargetState storeContracts ScriptedWorld) (payload : PayloadReference),
    ∃ q, transferPayload (memoryHeap memoryFixture.heap) ((memoryStreams memoryFixture.streams).intoBuffer 64)
        memoryFixture.hasher 65 (.reference payload) (.int 7) ⟨s.store, (s.world, []), []⟩ =
      some (.ok (Hasher.identity memoryFixture_sha256 fixturePayload), q) ∧ q.world.2 = fixturePayload := by
  obtain ⟨x, y, -, -, s, s', -, p, stored, payload, -, -, hput, hrequest, hstored, hsource,
    ⟨⟨reference, hread⟩, hdownloads⟩, -⟩ := partSession_downloads
  have hwhole : y.delivered fixturePayload = fixturePayload := by
    unfold Execution.delivered
    rw [hread]
    exact ByteRange.requested_closed _ _ _
  have hroom : fixturePayload.length ≤ 64 ∧ fixturePayload.length < 65 := by decide +kernel
  obtain ⟨-, hdelivers⟩ := upload_download Contracts.store_documented memoryFixture_sha256 rfl .nil hput hrequest hstored
    hsource (memoryFixture_opens 0 _) hdownloads
  rw [hwhole] at hdelivers
  exact ⟨s', payload, hdelivers 7 64 65 (by decide) (by decide) hroom.1 hroom.2⟩

/-- Two parts with tokens of their own deliver the fixture together. -/
theorem download_in_parts_session : ∃ (s : TargetState storeContracts ScriptedWorld)
    (first second : PayloadReference) (buffers : List Bytes), first.token ≠ second.token ∧
    List.Forall₂ (fun part buffer => ∃ q,
        transferPayload (memoryHeap memoryFixture.heap) ((memoryStreams memoryFixture.streams).intoBuffer 64)
            memoryFixture.hasher 65 (.reference part) (.int 7) ⟨s.store, (s.world, []), []⟩ =
          some (.ok (Hasher.identity memoryFixture_sha256 buffer), q) ∧ q.world.2 = buffer) [first, second] buffers ∧
      buffers.flatten = fixturePayload := by
  obtain ⟨x, -, y₁, y₂, s, -, s', p, stored, -, first, second, hput, hrequest, hstored, hsource, -, hparts, hdownloads,
    htokens⟩ := partSession_downloads
  have hroom : fixturePayload.length ≤ 64 ∧ fixturePayload.length < 65 := by decide +kernel
  have hpos : 0 < 7 := by decide
  obtain ⟨buffers, hbuffers, hcontent⟩ := download_in_parts Contracts.store_documented memoryFixture_sha256 rfl .nil hput
    hrequest hstored hsource (memoryFixture_opens 0 _) hparts hdownloads (by decide +kernel) hpos (by decide) hroom.1
    hroom.2
  cases hbuffers with
  | cons hfirst hrest =>
    cases hrest with
    | cons hsecond hnone =>
      cases hnone
      exact ⟨s', first, second, _, htokens, .cons hfirst (.cons hsecond .nil), hcontent⟩

end ObjectCommon
