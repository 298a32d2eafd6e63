import ObjectCommon.Testing.MemoryHistory

/-!
# The payloads of the in-memory target

A get or a range read registers a source on the content it found. The content stays what it was, whatever is
executed afterwards.

* `memoryStreams_bytesStream` : the own streams are `BytesIO`s;
* `Execution.delivered` : the bytes that a read of a content delivers;
* `read_registers` : what an answered read registers;
* `registered_delivers` : a content that was registered is received whole, whenever it is transferred;
* `handle_delivers` : the payload that a read returned is received whole, and is what was stored at the read.
-/

namespace ObjectCommon

open Outcome PyError Routine MemoryObjectTarget

variable {T : StorePackages} {W : Type} {host : MemoryHost W} {s s' s₀ : TargetState T W} {x : Execution T}
  {H : Hasher} {hH : H.Sha256}

/-! ## Own streams -/

/-- **An own stream is a `BytesIO`.** -/
theorem memoryStreams_bytesStream (streams : StreamEnvironment W) (n : Nat) :
    BytesStream (memoryStreams (T := T) streams) (ownId n) fun w => w.unread.getD n [] where
  read size w := by
    unfold memoryStreams
    dsimp only
    rw [owner_ownId]
  unread_read size w := by
    unfold memoryStreams
    dsimp only
    rw [owner_ownId]
    exact getD_set_drop w.unread n size
  close w := by
    unfold memoryStreams
    dsimp only
    rw [owner_ownId]

/-- The world with a new `BytesIO` on the `n`-th content captured. -/
def opened (w : MemoryWorld T W) (n : Nat) : MemoryWorld T W :=
  { w with unread := w.unread ++ [w.captured.getD n []] }

theorem memoryStreams_factory (streams : StreamEnvironment W) (n : Nat) (w : MemoryWorld T W) :
    (memoryStreams streams).factory (ownId n) w = (.ok (some (ownId w.unread.length)), opened w n) := by
  unfold memoryStreams opened
  dsimp only
  rw [owner_ownId]

theorem unread_opened (w : MemoryWorld T W) (n : Nat) :
    (opened w n).unread.getD w.unread.length [] = w.captured.getD n [] := by
  unfold opened
  rw [List.getD_eq_getElem?_getD, List.getElem?_concat_length]
  rfl

/-! ## Sources of the client -/

theorem memoryHeap_clientId (heap : SourceId → PayloadSource) (source : SourceId) :
    memoryHeap heap (clientId source) = clientSource (heap source) := by
  unfold memoryHeap
  rw [owner_clientId]

/-- A `BytesIO` of the client is one beside the streams of the target. -/
theorem clientStream_bytesStream {streams : StreamEnvironment W} {stream : StreamId} {unread : W → Bytes}
    (h : BytesStream streams stream unread) :
    BytesStream (memoryStreams (T := T) streams) (clientId stream) fun w => unread w.client where
  read size w := by
    unfold memoryStreams
    dsimp only
    rw [owner_clientId]
    exact h.read size w.client
  unread_read size w := by
    unfold memoryStreams
    dsimp only
    rw [owner_clientId]
    exact h.unread_read size w.client
  close w := by
    unfold memoryStreams
    dsimp only
    rw [owner_clientId]
    exact h.close w.client

theorem clientFactory_opens {streams : StreamEnvironment W} {factory : FactoryId} {stream : StreamId} {w : MemoryWorld T W}
    {client : W} (h : streams.factory factory w.client = (.ok (some stream), client)) :
    (memoryStreams streams).factory (clientId factory) w = (.ok (some (clientId stream)), { w with client := client }) := by
  unfold memoryStreams MemoryWorld.callClient
  dsimp only
  rw [owner_clientId]
  dsimp only
  rw [h]
  rfl

/-- A source of the client opens beside those of the target as it does alone. -/
theorem clientSource_opensBytes {source : SourceId} {content : Bytes} {stream : StreamId} {w : MemoryWorld T W} {client : W}
    (h : OpensBytes host.streams content (host.heap source) w.client stream client) :
    OpensBytes (memoryStreams host.streams) content (memoryHeap host.heap (clientId source)) w (clientId stream)
      { w with client := client } := by
  rw [memoryHeap_clientId]
  generalize host.heap source = opened at h ⊢
  cases h with
  | stream hb hcontent => exact .stream (clientStream_bytesStream hb) hcontent
  | factory hfactory hb hcontent =>
    exact .factory (clientFactory_opens hfactory) (clientStream_bytesStream hb) hcontent

/-! ## What a read registers -/

/-- The bytes that a read delivers of a content. -/
def Execution.delivered (x : Execution T) (data : Bytes) : Bytes :=
  match x.request with
  | .readRange _ range => range.requested data
  | _ => data

/-- The reference of a read. -/
def Execution.readReference? (x : Execution T) : Option (LogicalReference T.toPackages) :=
  match x.request with
  | .read reference => some reference
  | .readRange reference _ => some reference
  | _ => none

/-- A result without a payload. -/
theorem payloadResult_none {result : JsonMapping} {message : Message} {payload : PayloadReference}
    (hnone : Dict.get? result.val "payload" = none) : payloadResult result message ≠ .ok payload := by
  unfold payloadResult
  rw [hnone]
  exact fun h => nomatch h

theorem payloadResult_some {result : JsonMapping} {message : Message} {payload registered : PayloadReference}
    (hsome : Dict.get? result.val "payload" = some (.obj registered.toDict))
    (h : payloadResult result message = .ok payload) : payload = registered := by
  unfold payloadResult at h
  rw [hsome] at h
  exact Except.ok.inj (h.symm.trans registered.fromMapping_toDict)

/-- **An answered read that returns a payload** registered the bytes it delivers, with their length and no digest but
their own. -/
theorem read_registers (hT : T.Documented) (hH : host.hasher.Sha256) (hs : Consistent hH s) {fuel : Nat}
    (h : execute T host fuel x.operation s = some (x.answer, s')) {result : JsonMapping} (hanswer : x.answer = .ok result)
    {message : Message} {payload : PayloadReference} (hpayload : payloadResult result message = .ok payload) :
    ∃ reference o d, x.readReference? = some reference ∧
      Dict.get? s.world.objects (x.referencedKey reference) = some o ∧
      payload = ownReference host s.world.captured.length (x.delivered o.data) d ∧
      s' = registered host s (x.delivered o.data) d ∧
      ∀ d' ∈ d, d' = (Hasher.identity hH (x.delivered o.data)).digest := by
  have hallowed := (execution_serves hT hH hs x h).allowed
  obtain ⟨operation, method, resource, request, hasks, answer⟩ := x
  dsimp only at hanswer h
  subst hanswer
  unfold Execution.Allowed at hallowed
  cases request with
  | publishSchema =>
    obtain ⟨message, hmessage⟩ := hallowed
    cases hmessage
  | createResource profile options =>
    obtain ⟨message, hmessage⟩ := hallowed
    cases hmessage
  | put p =>
    obtain ⟨m, rfl, -, -⟩ := hallowed.2 result rfl
    exact absurd hpayload (payloadResult_none rfl)
  | list limit =>
    obtain ⟨first, entries, -, -, -, hlist⟩ := hallowed
    cases hlist
    exact absurd hpayload (payloadResult_none rfl)
  | delete reference =>
    obtain ⟨rfl, -⟩ := hasks.reads
    obtain ⟨e, -, hexec⟩ | ⟨o, ho, hexec⟩ := execute_delete host fuel hasks s
    · cases hexec.symm.trans h
    · obtain ⟨-, hintact⟩ := hs.lookedUp ho
      cases (hexec (hintact.objectId_of_reference hT)).symm.trans h
      exact absurd hpayload (payloadResult_none rfl)
  | read reference =>
    obtain ⟨rfl | rfl, -⟩ := hasks.reads
    · obtain ⟨e, -, hexec⟩ | ⟨o, ho, hexec⟩ := execute_get host fuel hasks s
      · cases hexec.symm.trans h
      obtain ⟨hget, hintact⟩ := hs.lookedUp ho
      cases (hexec _ hintact.digest).symm.trans h
      refine ⟨reference, o, _, rfl, hget, payloadResult_some rfl hpayload, rfl, fun d' hd' => ?_⟩
      exact (Option.some.inj hd').symm
    · have hexec := execute_stat host fuel hasks s
      cases hfound : lookedUp s resource reference with
      | error e =>
        rw [hfound] at hexec
        cases hexec.symm.trans h
      | ok o =>
        rw [hfound] at hexec
        cases hexec.symm.trans h
        exact absurd hpayload (payloadResult_none rfl)
  | readRange reference range =>
    obtain ⟨rfl, -⟩ := hasks.reads
    obtain ⟨e, -, hexec⟩ | ⟨o, ho, ⟨e, -, hexec⟩ | ⟨resolved, hresolved, hexec⟩⟩ :=
      execute_readRange host fuel hasks s
    · cases hexec.symm.trans h
    · cases hexec.symm.trans h
    obtain ⟨hget, -⟩ := hs.lookedUp ho
    obtain ⟨-, -, -, hslice⟩ := ByteRange.resolve_positions hresolved
    have hdata : rangeData o.data resolved = range.requested o.data := (hslice UInt8 o.data rfl).1
    rw [hdata] at hexec
    cases hexec.symm.trans h
    exact ⟨reference, o, none, rfl, hget, payloadResult_some rfl hpayload, rfl, fun d' hd' => nomatch hd'⟩

/-! ## Registered contents -/

variable {es : List (TargetEvent T)}

theorem run_captured (hT : T.Documented) (hH : host.hasher.Sha256) (hs : Consistent hH s)
    (h : Runs.Run (TargetStep host) s es s') : Consistent hH s' ∧ s.world.captured <+: s'.world.captured := by
  induction h with
  | nil => exact ⟨hs, List.prefix_refl _⟩
  | snoc run last ih =>
    exact ⟨step_consistent hT hH ih.1 last, ih.2.trans (step_captured hT hH ih.1 last)⟩

/-- A registered content is opened as a `BytesIO`. -/
theorem openSections_own {store : PayloadStore} {n : Nat} {data : Bytes} {d : Option Digest}
    (h : Dict.get? store.sources (ownReference host n data d).token.val = some (ownId n)) :
    openSections (memoryHeap host.heap) store (ownReference host n data d) =
      (.ok (ownId n), { store with opened := ownId n :: store.opened }) :=
  openSections_replayable (memoryHeap_ownId _ n) rfl h

/-- **A registered content is received whole**, as often as it is transferred. -/
theorem transferPayload_own (host : MemoryHost W) (hH : host.hasher.Sha256) {store : PayloadStore} {w : MemoryWorld T W}
    {n : Nat} {data : Bytes} {d : Option Digest} {size limit fuel : Nat}
    (hsource : Dict.get? store.sources (ownReference host n data d).token.val = some (ownId n))
    (hcaptured : w.captured.getD n [] = data) (hd : ∀ d' ∈ d, d' = (Hasher.identity hH data).digest) (hpos : 0 < size)
    (hmax : size ≤ maxChunkSize) (hlimit : data.length ≤ limit) (hfuel : data.length < fuel) :
    ∃ p, transferPayload (memoryHeap host.heap) ((memoryStreams host.streams).intoBuffer limit) host.hasher fuel
        (.reference (ownReference host n data d)) (.int size) ⟨store, (w, []), []⟩ =
      some (.ok (Hasher.identity hH data), p) ∧ p.world.2 = data := by
  have hparse : parsePayloadReference (.reference (ownReference host n data d)) = .ok _ := rfl
  have hbytes : OpensBytes (memoryStreams host.streams) data (memoryHeap host.heap (ownId n)) w (ownId w.unread.length)
      (opened w n) := by
    rw [memoryHeap_ownId]
    exact .factory (memoryStreams_factory _ _ _) (memoryStreams_bytesStream _ _) ((unread_opened _ _).trans hcaptured)
  obtain ⟨p, hp, hdelivered, -⟩ := transferPayload_received (H := host.hasher) (p := ⟨store, (w, []), []⟩) hH hparse
    (openSections_own hsource) hbytes rfl hpos hmax hlimit hfuel (fun n hn => (Option.some.inj hn).symm)
  refine ⟨p, ?_, hdelivered⟩
  rw [hp, if_neg]
  rintro ⟨d', hd', hne⟩
  exact hne (hd d' hd')

/-- **A content that was registered is received whole** after every run, as long as the registry holds its source. -/
theorem registered_delivers (hT : T.Documented) (hH : host.hasher.Sha256) {data : Bytes} {d : Option Digest}
    (hs : Consistent hH (registered host s data d)) (hrun : Runs.Run (TargetStep host) (registered host s data d) es s')
    (hregistered : Dict.get? s'.store.sources (ownReference host s.world.captured.length data d).token.val =
      Dict.get? (registered host s data d).store.sources (ownReference host s.world.captured.length data d).token.val)
    (hd : ∀ d' ∈ d, d' = (Hasher.identity hH data).digest) {size limit fuel : Nat} (hpos : 0 < size)
    (hmax : size ≤ maxChunkSize) (hlimit : data.length ≤ limit) (hfuel : data.length < fuel) :
    ∃ p, transferPayload (memoryHeap host.heap) ((memoryStreams host.streams).intoBuffer limit) host.hasher fuel
        (.reference (ownReference host s.world.captured.length data d)) (.int size) ⟨s'.store, (s'.world, []), []⟩ =
      some (.ok (Hasher.identity hH data), p) ∧ p.world.2 = data := by
  have hsource : Dict.get? s'.store.sources (ownReference host s.world.captured.length data d).token.val =
      some (ownId s.world.captured.length) := hregistered.trans (Dict.get?_set_self _ _ _)
  obtain ⟨-, rest, hrest⟩ := run_captured hT hH hs hrun
  have hcaptured : s'.world.captured.getD s.world.captured.length [] = data := by
    rw [← hrest]
    show (s.world.captured ++ [data] ++ rest).getD s.world.captured.length [] = _
    rw [List.append_assoc, List.getD_append_right _ _ _ _ (le_refl _), Nat.sub_self]
    rfl
  exact transferPayload_own host hH hsource hcaptured hd hpos hmax hlimit hfuel

/-- **The payload of a read delivers what was stored at the read.** A get or a range read of any run returns a payload
that, as long as the registry holds its source, every later transfer receives whole: the content stored under the
key at that time or the part requested of it, whatever is put, deleted or read in between. -/
theorem handle_delivers (hT : T.Documented) (hH : host.hasher.Sha256) (hempty : s₀.world.objects = [])
    {before after : List (TargetEvent T)} {s₁ s₂ s₃ : TargetState T W}
    (hbefore : Runs.Run (TargetStep host) s₀ before s₁) (hread : TargetStep host s₁ (.executed x) s₂)
    (hafter : Runs.Run (TargetStep host) s₂ after s₃) {result : JsonMapping} (hanswer : x.answer = .ok result)
    {message : Message} {payload : PayloadReference} (hpayload : payloadResult result message = .ok payload)
    (hregistered : Dict.get? s₃.store.sources payload.token.val = Dict.get? s₂.store.sources payload.token.val) :
    ∃ reference o, x.readReference? = some reference ∧
      Dict.get? s₁.world.objects (x.referencedKey reference) = some o ∧
      ∀ size limit fuel, 0 < size → size ≤ maxChunkSize → (x.delivered o.data).length ≤ limit →
        (x.delivered o.data).length < fuel →
        ∃ p, transferPayload (memoryHeap host.heap) ((memoryStreams host.streams).intoBuffer limit) host.hasher fuel
            (.reference payload) (.int size) ⟨s₃.store, (s₃.world, []), []⟩ =
          some (.ok (Hasher.identity hH (x.delivered o.data)), p) ∧ p.world.2 = x.delivered o.data := by
  have hs := run_consistent hT hH hempty hbefore
  have hs₂ := step_consistent hT hH hs hread
  cases hread with
  | executed hexec =>
    obtain ⟨reference, o, d, href, hget, rfl, rfl, hd⟩ := read_registers hT hH hs hexec hanswer hpayload
    refine ⟨reference, o, href, hget, fun size limit fuel hpos hmax hlimit hfuel => ?_⟩
    exact registered_delivers hT hH hs₂ hafter hregistered hd hpos hmax hlimit hfuel

/-! ## The fixture -/

/-- Each stream is a `BytesIO`. -/
theorem bytesStreams_bytesStream (content : FactoryId → Bytes) (stream : StreamId) :
    BytesStream (bytesStreams content) stream fun w => w.streams.getD stream [] where
  read _ _ := rfl
  unread_read size w := getD_set_drop w.streams stream size
  close _ := rfl

/-- Each source of the host of the fixture gives the fixture. -/
theorem memoryFixture_opens (source : SourceId) (w : ScriptedWorld) :
    OpensBytes memoryFixture.streams fixturePayload (memoryFixture.heap source) w w.streams.length
      { w with streams := w.streams ++ [fixturePayload] } := by
  refine .factory rfl (bytesStreams_bytesStream _ _) ?_
  show (w.streams ++ [fixturePayload]).getD w.streams.length [] = fixturePayload
  rw [List.getD_append_right _ _ _ _ (le_refl _), Nat.sub_self]
  rfl

/-- The fixture is put and fetched. -/
def fetchSession : TargetRoutine storeContracts ScriptedWorld PayloadReference := do
  let _ ← executeExpression sessionPut
  let (_, result) ← executeExpression (ObjectCatalogSurface.get fixtureResource sessionReference)
  .lift (payloadResult result [])

theorem handle_delivers_session : ∃ (x : Execution storeContracts) (s₁ s₂ : TargetState storeContracts ScriptedWorld)
    (data : Bytes), TargetStep memoryFixture s₁ (.executed x) s₂ ∧ ∃ payload p,
      transferPayload (memoryHeap memoryFixture.heap) ((memoryStreams memoryFixture.streams).intoBuffer data.length)
          memoryFixture.hasher (data.length + 1) (.reference payload) (.int 7) ⟨s₂.store, (s₂.world, []), []⟩ =
        some (.ok (Hasher.identity memoryFixture_sha256 data), p) ∧ p.world.2 = data := by
  obtain ⟨payload, s, hs⟩ : ∃ payload s, fetchSession.Returns memoryStart payload s :=
    exists_returns_of_isOk (by decide +kernel)
  simp only [fetchSession, returns_bind, returns_lift, Prod.exists] at hs
  obtain ⟨op₁, a₁, s₁, h₁, op₂, a₂, s₂, h₂, hpayload, -⟩ := hs
  obtain ⟨-, resource₁, r₁, asks₁, -, hput⟩ := executeExpression_returns h₁
  obtain ⟨-, resource₂, r₂, asks₂, -, hget⟩ := executeExpression_returns h₂
  obtain ⟨reference, o, -, -, hdelivers⟩ := handle_delivers Contracts.store_documented memoryFixture_sha256 rfl
    (Runs.Run.nil.snoc hput) hget .nil rfl hpayload rfl
  obtain ⟨p, hp, hdata⟩ := hdelivers 7 _ _ (by decide) (by decide) (le_refl _) (Nat.lt_succ_self _)
  exact ⟨_, s₁, s₂, _, hget, payload, p, hp, hdata⟩

end ObjectCommon
