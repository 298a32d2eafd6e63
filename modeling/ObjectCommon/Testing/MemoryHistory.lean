import ObjectCommon.Testing.MemoryStore
import ObjectCommon.Testing.Scripted

/-!
# What clients of the in-memory target see

* `Execution.Stores`, `Execution.Removes` : an answered put or delete of a key;
* `LastStored` : the last of these in a history is a put with this metadata;
* `lookups_follow_history`, `lists_follow_history` : what references find and lists return, from the history;
* `createOnly_exclusive` : between two answered puts, the second create-only, the Object was deleted;
* `refines_store`, `stored_intact` : the specification, and the invariant, over every run;
* `session_run`, `listSession_run` : runs with answered puts.
-/

namespace ObjectCommon

open Outcome PyError Routine KeyedStore MemoryObjectTarget

variable {T : StorePackages} {W : Type}

/-! ## Histories -/

/-- An answered put of the key. -/
def Execution.Stores (x : Execution T) (k : ObjectKey) : Prop :=
  ∃ p result, x.request = .put p ∧ x.answer = .ok result ∧ key x.resource p.objectId.val = k

/-- An answered delete of the key. -/
def Execution.Removes (x : Execution T) (k : ObjectKey) : Prop :=
  ∃ reference result, x.request = .delete reference ∧ x.answer = .ok result ∧ x.referencedKey reference = k

/-- An answered put or delete of the key. -/
def TargetEvent.Touches (e : TargetEvent T) (k : ObjectKey) : Prop :=
  ∃ x, e = .executed x ∧ (x.Stores k ∨ x.Removes k)

/-- The last answered put or delete of the key in the history is a put, and answered this metadata. -/
def LastStored (es : List (TargetEvent T)) (k : ObjectKey) (m : T.ObjectMetadata) : Prop :=
  ∃ before x after, es = before ++ .executed x :: after ∧ x.Stores k ∧ x.answer = .ok (metadataMember T m) ∧
    ∀ e ∈ after, ¬ e.Touches k

/-- The reference of a request for one Object. -/
def Execution.reference? (x : Execution T) : Option (LogicalReference T.toPackages) :=
  match x.request with
  | .read reference => some reference
  | .delete reference => some reference
  | _ => none

variable {host : MemoryHost W} {s s₀ : TargetState T W} {x : Execution T} {es : List (TargetEvent T)} {k : ObjectKey}
  {m : T.ObjectMetadata}

/-- Only an answered put or delete changes a key. -/
theorem touches_of_change {e : TargetEvent T} (h : e.change.key? = some k) : e.Touches k := by
  cases e with
  | outside => cases h
  | executed x =>
    refine ⟨x, rfl, ?_⟩
    change x.change.key? = some k at h
    unfold Execution.change at h
    split at h
    · next p result hrequest hanswer =>
      split at h
      · exact Or.inl ⟨p, result, hrequest, hanswer, Option.some.inj h⟩
      · cases h
    · next reference result hrequest hanswer => exact Or.inr ⟨reference, result, hrequest, hanswer, Option.some.inj h⟩
    · cases h

/-- An answered put writes the metadata answered. -/
theorem change_of_stores (hT : T.Documented) {held : ObjectKey → Option T.ObjectMetadata} (hx : x.Allowed held)
    (h : x.Stores k) : ∃ m, x.answer = .ok (metadataMember T m) ∧ x.change = .write k m := by
  obtain ⟨p, result, hrequest, hanswer, rfl⟩ := h
  unfold Execution.Allowed at hx
  rw [hrequest] at hx
  obtain ⟨m, rfl, -, -⟩ := hx.2 result hanswer
  refine ⟨m, hanswer, ?_⟩
  unfold Execution.change
  rw [hrequest, hanswer]
  dsimp only
  rw [metadataResult_member hT]

theorem change_of_removes (h : x.Removes k) : x.change = .erase k := by
  obtain ⟨reference, result, hrequest, hanswer, rfl⟩ := h
  unfold Execution.change
  rw [hrequest, hanswer]

section Runs

variable (hT : T.Documented) (hH : host.hasher.Sha256) (hempty : s₀.world.objects = [])

include hT hH hempty

theorem change_of_touches {before after : List (TargetEvent T)} {e : TargetEvent T}
    (h : Runs.Run (TargetStep host) s₀ (before ++ e :: after) s) (he : e.Touches k) : e.change.key? = some k := by
  obtain ⟨x, rfl, hx⟩ := he
  obtain hstores | hremoves := hx
  · obtain ⟨m, -, hchange⟩ := change_of_stores hT (run_serves hT hH hempty h) hstores
    show x.change.key? = _
    rw [hchange]
    rfl
  · show x.change.key? = _
    rw [change_of_removes hremoves]
    rfl

/-- The events that touch a key are those whose change is one of it. -/
theorem touches_iff {e : TargetEvent T} (h : Runs.Run (TargetStep host) s₀ es s) (he : e ∈ es) :
    e.Touches k ↔ e.change.key? = some k := by
  refine ⟨fun htouches => ?_, touches_of_change⟩
  obtain ⟨before, after, rfl⟩ := List.append_of_mem he
  exact change_of_touches hT hH hempty h htouches

/-- **What the answers so far make of an empty store** is what the last put of each key answered. -/
theorem contents_eq_some_iff_lastStored (h : Runs.Run (TargetStep host) s₀ es s) :
    contents (es.map TargetEvent.change) k = some m ↔ LastStored es k m := by
  rw [contents_eq_some_iff]
  constructor
  · rintro ⟨before, after, hsplit, hafter⟩
    obtain ⟨before, rest, rfl, rfl, hrest⟩ := List.map_eq_append_iff.mp hsplit
    obtain ⟨e, after, rfl, he, rfl⟩ := List.map_eq_cons_iff.mp hrest
    obtain ⟨x, rfl, hstores | hremoves⟩ := touches_of_change (congrArg Change.key? he)
    · obtain ⟨m', hanswer, hchange⟩ := change_of_stores hT (run_serves hT hH hempty h) hstores
      cases hchange.symm.trans he
      refine ⟨before, x, after, rfl, hstores, hanswer, fun e he htouches => ?_⟩
      have hmem : e ∈ before ++ .executed x :: after := by simp [he]
      exact hafter _ (List.mem_map_of_mem he) ((touches_iff hT hH hempty h hmem).mp htouches)
    · cases (change_of_removes hremoves).symm.trans he
  · rintro ⟨before, x, after, rfl, hstores, hanswer, hafter⟩
    obtain ⟨m', hanswer', hchange⟩ := change_of_stores hT (run_serves hT hH hempty h) hstores
    have hm : metadataResult T.toClientPackages (metadataMember T m') = .ok m := by
      rw [Except.ok.inj (hanswer'.symm.trans hanswer), metadataResult_member hT]
    obtain rfl : m' = m := Except.ok.inj ((metadataResult_member hT m').symm.trans hm)
    refine ⟨before.map TargetEvent.change, after.map TargetEvent.change, ?_, ?_⟩
    · rw [List.map_append, List.map_cons]
      exact congrArg (fun c => _ ++ c :: _) hchange
    · intro d hd hkey
      obtain ⟨e, he, rfl⟩ := List.mem_map.mp hd
      exact hafter e he (touches_of_change hkey)

end Runs

/-! ## A session -/

/-- Core and Semantics as their schemas describe them are as documented. -/
theorem Contracts.store_documented : storeContracts.Documented where
  roundTrips := Contracts.roundTrips
  findsOperations := Contracts.findsOperations
  resolvesResources := Contracts.resolvesResources
  storesReference := Contracts.storesReference
  normalizesIds := Contracts.normalizesIds
  storesMetadata := Contracts.storesMetadata
  readsMetadata := Contracts.readsMetadata

/-- Other random bytes for each number: its digits to base 256. -/
def exampleBytes (n : Nat) : Bytes := (List.range 32).map fun i => UInt8.ofNat (n / 256 ^ i)

theorem length_exampleBytes (n : Nat) : (exampleBytes n).length = 32 := by simp [exampleBytes]

def exampleRandom (n : Nat) : RandomBytes 32 := ⟨exampleBytes n, length_exampleBytes n⟩

/-- A host whose client uploads the fixture. -/
def memoryFixture : MemoryHost ScriptedWorld where
  heap source := .factory source true
  streams := bytesStreams fun _ => fixturePayload
  hasher := .retaining (listedDigest fixtureHexdigests)
  bufferLimit := 64
  random n := exampleRandom (2 * n)

theorem memoryFixture_sha256 : memoryFixture.hasher.Sha256 := 
  Hasher.retaining_sha256 (digestRe_listedDigest digestRe_fixtureHexdigests)

def fixtureUpload : PayloadReference := ⟨⟨"p_upload", by decide⟩, none, some fixtureDigest, true, ⟨_, rfl⟩⟩

/-- A new target; the registry has the upload. -/
def memoryStart : TargetState storeContracts ScriptedWorld :=
  ⟨⟨[(str "p_upload", clientId 0)], []⟩, { client := {} }⟩

/-- Normalize an Expression and execute it. -/
def executeExpression (e : Expression) : TargetRoutine storeContracts ScriptedWorld (Operation × JsonMapping) := do
  let operation ← .lift (normalize storeContracts.toPackages e)
  let result ← execute storeContracts memoryFixture 65 operation
  return (operation, result)

def sessionPut : Expression := putExpression fixtureUpload fixtureDigest.val

def fixtureResourceRef : ResourceRef := ⟨"object", "conformance", "objects"⟩

theorem parse_fixtureResource : parseResource storeContracts.toPackages fixtureResource.val = .ok fixtureResourceRef := by
  decide +kernel

def sessionReference : ObjectCatalogSurface.Wire := referenceWire contracts fixtureMetadata.objectRef.val

/-- The fixture is put, read, listed, deleted and put again. -/
def session : TargetRoutine storeContracts ScriptedWorld Unit := do
  let _ ← executeExpression sessionPut
  let _ ← executeExpression (ObjectCatalogSurface.stat fixtureResource sessionReference)
  let _ ← executeExpression (ObjectCatalogSurface.list fixtureResource "fixture/" 1)
  let _ ← executeExpression (ObjectCatalogSurface.delete fixtureResource sessionReference)
  let _ ← executeExpression sessionPut

/-- An Expression that is executed is an execution of a run, of the request that its arguments denote. -/
theorem executeExpression_returns {s s' : TargetState storeContracts ScriptedWorld} {e : Expression}
    {operation : Operation} {result : JsonMapping}
    (h : (executeExpression e).Returns s (operation, result) s') :
    normalize storeContracts.toPackages e = .ok operation ∧
      ∃ (resource : ResourceRef) (r : Request storeContracts.toPackages)
        (hasks : Asks operation e.method resource r.canonical), r.Reads e.method e.arguments resource ∧
          TargetStep memoryFixture s (.executed ⟨operation, e.method, resource, r.canonical, hasks, .ok result⟩) s' := by
  simp only [executeExpression, returns_bind, returns_lift, returns_pure, Prod.mk.injEq] at h
  obtain ⟨op, _, ⟨hnormal, rfl⟩, result', t, hexec, ⟨rfl, rfl⟩, rfl⟩ := h
  have hT := Contracts.store_documented
  obtain ⟨resource, r, hreads, hasks⟩ := normalized_asks hT.roundTrips hT.findsOperations hnormal
  exact ⟨hnormal, resource, r, hasks, hreads, .executed hexec⟩

/-- A create-only put of the upload in the fixture's Resource is executed as such. -/
theorem put_returns {s s' : TargetState storeContracts ScriptedWorld} {e : Expression} {operation : Operation}
    {result : JsonMapping} (h : (executeExpression e).Returns s (operation, result) s') {id : Str}
    (hmethod : e.method = str "put") (hresource : Dict.get? e.arguments "resource" = some fixtureResource.val)
    (hid : Dict.get? e.arguments "objectId" = some (.str id))
    (hpayload : Dict.get? e.arguments "payload" = some (.obj fixtureUpload.toDict))
    (hcreate : Dict.get? e.arguments "createOnly" = some (.bool true)) :
    ∃ (x : Execution storeContracts) (p : PutRequest), TargetStep memoryFixture s (.executed x) s' ∧
      x.request = .put p ∧ x.answer = .ok result ∧ x.resource = fixtureResourceRef ∧ p.objectId.val = id ∧
      p.payload.token = fixtureUpload.token ∧ p.createOnly = true := by
  obtain ⟨-, resource, r, hasks, hreads, hstep⟩ := executeExpression_returns h
  rw [hmethod] at hreads
  obtain ⟨p, rfl, hp⟩ := hreads.exists_put
  have hparsed : parseResource storeContracts.toPackages ((Dict.get? e.arguments "resource").getD .null) = .ok resource :=
    hreads.2.1
  rw [hresource] at hparsed
  obtain rfl := Except.ok.inj (parse_fixtureResource.symm.trans hparsed)
  obtain ⟨raw, hraw, hparse⟩ := hp.integrity.payload
  obtain rfl : fixtureUpload.toDict = raw := Json.obj.inj (Option.some.inj (hpayload.symm.trans hraw))
  have htoken : p.payload.token = fixtureUpload.token :=
    congrArg PayloadReference.token (Except.ok.inj (hparse.symm.trans fixtureUpload.fromMapping_toDict))
  exact ⟨_, p.canonical, hstep, rfl, rfl, rfl, Json.str.inj (Option.some.inj (hp.identity.objectId.symm.trans hid)),
    htoken, Json.bool.inj (Option.some.inj (hp.createOnly.symm.trans hcreate))⟩

/-- **The session is a run**: two answered create-only puts of one Object, and between them a stat, a list and a
delete. -/
theorem session_run : ∃ (x₁ x₂ x₃ x₄ x₅ : Execution storeContracts) (s : TargetState storeContracts ScriptedWorld),
    Runs.Run (TargetStep memoryFixture) memoryStart
      [.executed x₁, .executed x₂, .executed x₃, .executed x₄, .executed x₅] s ∧
    (∃ k, x₁.Stores k ∧ x₅.Stores k) ∧ (∃ q, x₅.request = .put q ∧ q.createOnly = true) ∧
    (∃ reference result, x₂.request = .read reference ∧ x₂.method = str "stat" ∧ x₂.answer = .ok result) ∧
    ∃ limit, x₃.request = .list limit := by
  obtain ⟨u, s, hs⟩ : ∃ u s, session.Returns memoryStart u s := exists_returns_of_isOk (by decide +kernel)
  simp only [session, returns_bind, Prod.exists] at hs
  obtain ⟨op₁, a₁, s₁, h₁, op₂, a₂, s₂, h₂, op₃, a₃, s₃, h₃, op₄, a₄, s₄, h₄, op₅, a₅, s₅, h₅, -⟩ := hs
  obtain ⟨x₁, p₁, t₁, hrequest₁, hanswer₁, hresource₁, hid₁, -⟩ := put_returns h₁ rfl rfl rfl rfl rfl
  obtain ⟨-, resource₂, r₂, asks₂, reads₂, t₂⟩ := executeExpression_returns h₂
  obtain ⟨reference, rfl⟩ := reads₂.exists_read (Or.inr rfl)
  obtain ⟨-, resource₃, r₃, asks₃, reads₃, t₃⟩ := executeExpression_returns h₃
  obtain ⟨limit, rfl⟩ := reads₃.exists_list
  obtain ⟨-, resource₄, r₄, asks₄, -, t₄⟩ := executeExpression_returns h₄
  obtain ⟨x₅, p₅, t₅, hrequest₅, hanswer₅, hresource₅, hid₅, -, hcreate⟩ := put_returns h₅ rfl rfl rfl rfl rfl
  have hkey : key x₁.resource p₁.objectId.val = key x₅.resource p₅.objectId.val := by
    rw [hresource₁, hresource₅, hid₁, hid₅]
  have run := ((((Runs.Run.nil.snoc t₁).snoc t₂).snoc t₃).snoc t₄).snoc t₅
  exact ⟨x₁, _, _, _, x₅, s₅, run, ⟨_, ⟨p₁, a₁, hrequest₁, hanswer₁, hkey⟩, ⟨p₅, a₅, hrequest₅, hanswer₅, rfl⟩⟩,
    ⟨p₅, hrequest₅, hcreate⟩, ⟨reference, a₂, rfl, rfl, rfl⟩, ⟨_, rfl⟩⟩

/-! ## Lookups -/

theorem foundMetadata_eq_ok {held : Option T.ObjectMetadata} {digest : Option Str} :
    foundMetadata held digest = .ok m ↔ held = some m ∧ ∀ d ∈ digest, d = T.metadataDigest m := by
  unfold foundMetadata
  cases held with
  | none => simp
  | some m' =>
    dsimp only
    split
    · next hne =>
      simp only [reduceCtorEq, Option.some.injEq, false_iff, not_and]
      rintro rfl hd
      cases digest with
      | none => exact hne.1 rfl
      | some d => exact hne.2 (congrArg some (hd d rfl))
    · next heq =>
      simp only [Except.ok.injEq, Option.some.injEq]
      constructor
      · rintro rfl
        refine ⟨rfl, fun d hd => ?_⟩
        obtain rfl := Option.mem_def.mp hd
        exact Option.some.inj (not_not.mp fun hne => heq ⟨by simp, hne⟩)
      · exact fun h => h.1

theorem foundMetadata_raises {held : Option T.ObjectMetadata} {digest : Option Str} {e : PyError}
    (h : foundMetadata held digest = .error e) : e = ObjectNotFound := by
  unfold foundMetadata at h
  split at h
  · cases h
    rfl
  · split at h
    · cases h
      rfl
    · cases h

/-- What a stat, a get or a delete answers is decided by what its reference finds. -/
theorem Execution.Allowed.reference {held : ObjectKey → Option T.ObjectMetadata} (hx : x.Allowed held)
    {reference : LogicalReference T.toPackages} (href : x.reference? = some reference) :
    (∃ e, x.finds held reference = .error e ∧ x.answer = .error e) ∨
      ∃ m result, x.finds held reference = .ok m ∧ x.answer = .ok result ∧
        (x.request = .read reference → Dict.get? result.val "metadata" = some (.obj (T.metadataToDict m))) := by
  unfold Execution.reference? at href
  unfold Execution.Allowed at hx
  split at href
  · next read hrequest =>
    obtain rfl := Option.some.inj href
    rw [hrequest] at hx
    dsimp only at hx
    split at hx
    · rw [hx]
      cases hfinds : x.finds held read with
      | error e => exact Or.inl ⟨e, rfl, rfl⟩
      | ok m => exact Or.inr ⟨m, _, rfl, rfl, fun _ => rfl⟩
    · unfold Execution.AllowedGet at hx
      cases hfinds : x.finds held read with
      | error e =>
        rw [hfinds] at hx
        exact Or.inl ⟨e, rfl, hx⟩
      | ok m =>
        rw [hfinds] at hx
        obtain ⟨payload, hanswer, -, -⟩ := hx
        exact Or.inr ⟨m, _, rfl, hanswer, fun _ => rfl⟩
  · next deleted hrequest =>
    obtain rfl := Option.some.inj href
    rw [hrequest] at hx
    dsimp only at hx
    rw [hx]
    cases hfinds : x.finds held deleted with
    | error e => exact Or.inl ⟨e, rfl, rfl⟩
    | ok m =>
      refine Or.inr ⟨m, _, rfl, rfl, fun hread => ?_⟩
      cases hrequest.symm.trans hread
  · cases href

/-- **References follow the history.** In every run a stat, a get or a delete is answered exactly when the last
answered put or delete of the key referenced is a put, whose digest is the one referenced if there is one; a stat and
a get return the metadata of this put. Else the Object is not found. -/
theorem lookups_follow_history (hT : T.Documented) (hH : host.hasher.Sha256) (hempty : s₀.world.objects = [])
    {after : List (TargetEvent T)} (h : Runs.Run (TargetStep host) s₀ (es ++ .executed x :: after) s)
    {reference : LogicalReference T.toPackages} (href : x.reference? = some reference) :
    (∀ result, x.answer = .ok result → ∃ m, LastStored es (x.referencedKey reference) m ∧
      (∀ d ∈ T.digest reference.objectRef, d = T.metadataDigest m) ∧
      (x.request = .read reference → Dict.get? result.val "metadata" = some (.obj (T.metadataToDict m)))) ∧
    ∀ e, x.answer = .error e → e = ObjectNotFound ∧ ∀ m, LastStored es (x.referencedKey reference) m →
      ∃ d ∈ T.digest reference.objectRef, d ≠ T.metadataDigest m := by
  obtain ⟨s₁, hbefore⟩ := h.of_append
  have hx := run_serves hT hH hempty h
  have hlast : ∀ m, contents (es.map TargetEvent.change) (x.referencedKey reference) = some m ↔
      LastStored es (x.referencedKey reference) m := fun m => contents_eq_some_iff_lastStored hT hH hempty hbefore
  obtain ⟨e, hfinds, hanswer⟩ | ⟨m, result, hfinds, hanswer, hmetadata⟩ := hx.reference href
  · refine ⟨fun result hresult => ?_, fun e' he' => ?_⟩
    · cases hanswer.symm.trans hresult
    · cases hanswer.symm.trans he'
      refine ⟨foundMetadata_raises hfinds, fun m hm => ?_⟩
      by_contra hpinned
      push Not at hpinned
      cases (foundMetadata_eq_ok.mpr ⟨(hlast m).mpr hm, hpinned⟩).symm.trans hfinds
  · obtain ⟨hheld, hpinned⟩ := foundMetadata_eq_ok.mp hfinds
    refine ⟨fun result' hresult => ?_, fun e he => ?_⟩
    · cases hanswer.symm.trans hresult
      exact ⟨m, (hlast m).mp hheld, hpinned, hmetadata⟩
    · cases hanswer.symm.trans he

theorem lookups_follow_history_session : ∃ (es : List (TargetEvent storeContracts)) (x : Execution storeContracts)
    (k : ObjectKey) (m : Contracts.StoredMetadata) (result : JsonMapping), x.method = str "stat" ∧ x.answer = .ok result ∧
      LastStored es k m ∧ Dict.get? result.val "metadata" = some (.obj (storeContracts.metadataToDict m)) := by
  obtain ⟨x₁, x₂, x₃, x₄, x₅, s, run, -, -, ⟨reference, result, hrequest, hstat, hanswer⟩, -⟩ := session_run
  have href : x₂.reference? = some reference := by
    unfold Execution.reference?
    rw [hrequest]
  have hrun : Runs.Run (TargetStep memoryFixture) memoryStart
      ([.executed x₁] ++ .executed x₂ :: [.executed x₃, .executed x₄, .executed x₅]) s := run
  obtain ⟨hanswered, -⟩ := lookups_follow_history Contracts.store_documented memoryFixture_sha256 rfl hrun href
  obtain ⟨m, hlast, -, hmetadata⟩ := hanswered result hanswer
  exact ⟨_, x₂, _, m, result, hstat, hanswer, hlast, hmetadata hrequest⟩

/-! ## Create-only puts -/

/-- **Create-only puts are exclusive.** In every run, between two answered puts of a key of which the second is
create-only, the Object was deleted. -/
theorem createOnly_exclusive (hT : T.Documented) (hH : host.hasher.Sha256) (hempty : s₀.world.objects = [])
    {before between after : List (TargetEvent T)} {y : Execution T} {q : PutRequest}
    (h : Runs.Run (TargetStep host) s₀ (before ++ .executed x :: (between ++ .executed y :: after)) s)
    (hx : x.Stores k) (hy : y.Stores k) (hq : y.request = .put q) (hcreate : q.createOnly = true) :
    ∃ z, .executed z ∈ between ∧ z.Removes k := by
  have hxAllowed := run_serves hT hH hempty h
  rw [← List.cons_append, ← List.append_assoc] at h
  have hyAllowed := run_serves hT hH hempty h
  obtain ⟨q', result, hq', hanswer, hkey⟩ := hy
  obtain rfl : q = q' := Request.put.inj (hq.symm.trans hq')
  have hfree : contents ((before ++ .executed x :: between).map TargetEvent.change) k = none := by
    by_contra htaken
    unfold Execution.Allowed at hyAllowed
    rw [hq] at hyAllowed
    rw [← hkey] at htaken
    cases (hyAllowed.1 hcreate htaken).symm.trans hanswer
  obtain ⟨m, -, hchange⟩ := change_of_stores hT hxAllowed hx
  rw [List.map_append, List.map_cons, show (TargetEvent.executed x).change = .write k m from hchange] at hfree
  obtain ⟨e, he, herased⟩ := List.mem_map.mp (erased_between hfree)
  obtain ⟨z, rfl, hstores | hremoves⟩ := touches_of_change (congrArg Change.key? herased)
  · obtain ⟨p, result', hrequest, hanswer', -⟩ := hstores
    change z.change = .erase k at herased
    unfold Execution.change at herased
    rw [hrequest, hanswer'] at herased
    dsimp only at herased
    split at herased
    · cases herased
    · cases herased
  · exact ⟨z, he, hremoves⟩

theorem createOnly_exclusive_session : ∃ (x₁ x₅ z : Execution storeContracts) (k : ObjectKey),
    x₁.Stores k ∧ x₅.Stores k ∧ z.Removes k := by
  obtain ⟨x₁, x₂, x₃, x₄, x₅, s, run, ⟨k, h₁, h₅⟩, ⟨q, hq, hcreate⟩, -⟩ := session_run
  have hrun : Runs.Run (TargetStep memoryFixture) memoryStart
      ([] ++ .executed x₁ :: ([.executed x₂, .executed x₃, .executed x₄] ++ .executed x₅ :: [])) s := run
  obtain ⟨z, -, hz⟩ :=
    createOnly_exclusive Contracts.store_documented memoryFixture_sha256 rfl hrun h₁ h₅ hq hcreate
  exact ⟨x₁, x₅, z, k, h₁, h₅, hz⟩

/-! ## Lists -/

/-- **Lists follow the history.** In every run a list returns the metadata of the Objects of its Resource under its
prefix that the history stored last, in the order of their keys, and as many of them as the limit allows. -/
theorem lists_follow_history (hT : T.Documented) (hH : host.hasher.Sha256) (hempty : s₀.world.objects = [])
    {after : List (TargetEvent T)} (h : Runs.Run (TargetStep host) s₀ (es ++ .executed x :: after) s)
    {limit : Positive} (hlist : x.request = .list limit) :
    ∃ (first : Str) (entries : List (ObjectKey × T.ObjectMetadata)),
      Dict.get? x.operation.input "prefix" = some (.str first) ∧ entries.Pairwise (fun a b => a.1 < b.1) ∧
      (∀ k m, (k, m) ∈ entries ↔ LastStored es k m ∧ matchesKey x.resource first k = true) ∧
      x.answer = .ok (listMembers T ((entries.take limit.val).map Prod.snd)) := by
  obtain ⟨s₁, hbefore⟩ := h.of_append
  have hx := run_serves hT hH hempty h
  unfold Execution.Allowed at hx
  rw [hlist] at hx
  obtain ⟨first, entries, hfirst, hsorted, hmem, hanswer⟩ := hx
  refine ⟨first, entries, hfirst, hsorted, fun k m => ?_, hanswer⟩
  rw [hmem, contents_eq_some_iff_lastStored hT hH hempty hbefore]

/-- Two Objects are put, the first in order last, and one Object is listed. -/
def listSession : TargetRoutine storeContracts ScriptedWorld Unit := do
  let _ ← executeExpression sessionPut
  let _ ← executeExpression (createExpression "fixture/earlier" fixtureUpload fixtureDigest.val)
  let _ ← executeExpression (ObjectCatalogSurface.list fixtureResource "fixture/" 1)

/-- **The session is a run** of two answered puts under the prefix, and of a list of one Object. -/
theorem listSession_run : ∃ (x₁ x₂ x₃ : Execution storeContracts) (k₁ k₂ : ObjectKey) (limit : Positive)
    (s : TargetState storeContracts ScriptedWorld), Runs.Run (TargetStep memoryFixture) memoryStart
      [.executed x₁, .executed x₂, .executed x₃] s ∧
    x₁.Stores k₁ ∧ x₂.Stores k₂ ∧ k₂ < k₁ ∧ x₃.request = .list limit ∧ limit.val = 1 ∧
    Dict.get? x₃.operation.input "prefix" = some (.str "fixture/") ∧
    matchesKey x₃.resource "fixture/" k₁ = true ∧ matchesKey x₃.resource "fixture/" k₂ = true := by
  obtain ⟨u, s, hs⟩ : ∃ u s, listSession.Returns memoryStart u s := exists_returns_of_isOk (by decide +kernel)
  simp only [listSession, returns_bind, Prod.exists] at hs
  obtain ⟨op₁, a₁, s₁, h₁, op₂, a₂, s₂, h₂, op₃, a₃, s₃, h₃, -⟩ := hs
  obtain ⟨x₁, p₁, t₁, hrequest₁, hanswer₁, hresource₁, hid₁, -⟩ := put_returns h₁ rfl rfl rfl rfl rfl
  obtain ⟨x₂, p₂, t₂, hrequest₂, hanswer₂, hresource₂, hid₂, -⟩ := put_returns h₂ rfl rfl rfl rfl rfl
  obtain ⟨n₃, resource₃, r₃, asks₃, reads₃, t₃⟩ := executeExpression_returns h₃
  obtain ⟨limit, rfl⟩ := reads₃.exists_list
  obtain rfl := Except.ok.inj (parse_fixtureResource.symm.trans reads₃.2.1)
  have hlt : key fixtureResourceRef "fixture/earlier" < key fixtureResourceRef fixtureObjectId := by decide +kernel
  have hmatches : matchesKey fixtureResourceRef "fixture/" (key fixtureResourceRef fixtureObjectId) = true ∧
      matchesKey fixtureResourceRef "fixture/" (key fixtureResourceRef "fixture/earlier") = true := by decide +kernel
  have hunder : Dict.get? op₃.input "prefix" = some (.str "fixture/") := by
    obtain ⟨contract, resource, r, haccepts, ho⟩ := normalize_eq_ok.mp n₃
    obtain ⟨limit, rfl⟩ := haccepts.reads.exists_list
    rw [ho]
    rfl
  refine ⟨x₁, x₂, _, _, _, limit, s₃, ((Runs.Run.nil.snoc t₁).snoc t₂).snoc t₃, ⟨p₁, a₁, hrequest₁, hanswer₁, ?_⟩,
    ⟨p₂, a₂, hrequest₂, hanswer₂, ?_⟩, hlt, rfl, ?_, hunder, hmatches⟩
  · rw [hresource₁, hid₁]
  · rw [hresource₂, hid₂]
  · exact (Int.ofNat.inj (Json.int.inj (Option.some.inj reads₃.2.2.page))).symm

/-- Of the two Objects under the prefix the list returns the one that is first in order, which was put last. -/
theorem lists_follow_history_session : ∃ (es : List (TargetEvent storeContracts)) (x : Execution storeContracts)
    (s : TargetState storeContracts ScriptedWorld) (k₁ k₂ : ObjectKey) (m₁ m₂ : Contracts.StoredMetadata),
    Runs.Run (TargetStep memoryFixture) memoryStart (es ++ [.executed x]) s ∧ k₂ < k₁ ∧
      LastStored es k₁ m₁ ∧ matchesKey x.resource "fixture/" k₁ = true ∧
      LastStored es k₂ m₂ ∧ matchesKey x.resource "fixture/" k₂ = true ∧
      x.answer = .ok (listMembers storeContracts [m₂]) := by
  obtain ⟨x₁, x₂, x₃, k₁, k₂, limit, s, hrun, hx₁, hx₂, hlt, hlist, hlimit, hunder, hk₁, hk₂⟩ := listSession_run
  have hT := Contracts.store_documented
  have hH := memoryFixture_sha256
  have hrun : Runs.Run (TargetStep memoryFixture) memoryStart
      ([.executed x₁, .executed x₂] ++ .executed x₃ :: []) s := hrun
  obtain ⟨first, entries, hfirst, hsorted, hmem, hanswer⟩ := lists_follow_history hT hH rfl hrun hlist
  obtain rfl : str "fixture/" = first := Json.str.inj (Option.some.inj (hunder.symm.trans hfirst))
  have hrun₁ : Runs.Run (TargetStep memoryFixture) memoryStart
      ([] ++ .executed x₁ :: [.executed x₂, .executed x₃]) s := hrun
  have hrun₂ : Runs.Run (TargetStep memoryFixture) memoryStart
      ([.executed x₁] ++ .executed x₂ :: [.executed x₃]) s := hrun
  obtain ⟨m₁, -, hchange₁⟩ := change_of_stores hT (run_serves hT hH rfl hrun₁) hx₁
  obtain ⟨m₂, -, hchange₂⟩ := change_of_stores hT (run_serves hT hH rfl hrun₂) hx₂
  obtain ⟨s₂, hbefore⟩ := hrun.of_append
  -- what is stored before the list is what the two puts answered
  have hstored : ∀ k m, LastStored [.executed x₁, .executed x₂] k m ↔
      k = k₂ ∧ m = m₂ ∨ k = k₁ ∧ m = m₁ := by
    intro k m
    rw [← contents_eq_some_iff_lastStored hT hH rfl hbefore]
    show contents [x₁.change, x₂.change] k = some m ↔ _
    rw [hchange₁, hchange₂]
    show Function.update (Function.update (fun _ => none) k₁ (some m₁)) k₂ (some m₂) k = some m ↔ _
    by_cases h₂ : k = k₂
    · simp [h₂, hlt.ne, eq_comm]
    · by_cases h₁ : k = k₁
      · simp [h₁, hlt.ne', eq_comm]
      · simp [h₁, h₂]
  have hentries : entries = [(k₂, m₂), (k₁, m₁)] := by
    have hpair : List.Pairwise (fun a b => a.1 < b.1) [(k₂, m₂), (k₁, m₁)] := List.pairwise_pair.mpr hlt
    refine hsorted.eq_of_mem_iff hpair fun ⟨k, m⟩ => ?_
    rw [hmem, hstored]
    simp only [List.mem_cons, List.not_mem_nil, or_false, Prod.mk.injEq, and_iff_left_iff_imp]
    rintro (⟨rfl, -⟩ | ⟨rfl, -⟩)
    · exact hk₂
    · exact hk₁
  refine ⟨_, x₃, s, k₁, k₂, m₁, m₂, hrun, hlt, (hstored _ _).mpr (Or.inr ⟨rfl, rfl⟩), hk₁,
    (hstored _ _).mpr (Or.inl ⟨rfl, rfl⟩), hk₂, ?_⟩
  rw [hanswer, hentries, hlimit]
  rfl

/-! ## The specification over every run -/

/-- **The target refines the store.** After every run it holds the metadata that the answers make of an empty store of
metadata by key, and each answer is one that this store may give where it was given. -/
theorem refines_store (hT : T.Documented) (hH : host.hasher.Sha256) (hempty : s₀.world.objects = [])
    (h : Runs.Run (TargetStep host) s₀ es s) :
    s.metadata = contents (es.map TargetEvent.change) ∧
      ∀ before x after, es = before ++ .executed x :: after →
        x.Allowed (contents (before.map TargetEvent.change)) := by
  refine ⟨run_contents hT hH hempty h, ?_⟩
  rintro before x after rfl
  exact run_serves hT hH hempty h

theorem refines_store_session : ∃ (x₁ x₂ x₃ x₄ x₅ : Execution storeContracts)
    (s : TargetState storeContracts ScriptedWorld), s.metadata = contents ([x₁, x₂, x₃, x₄, x₅].map Execution.change) ∧
      x₅.Allowed (contents ([x₁, x₂, x₃, x₄].map Execution.change)) := by
  obtain ⟨x₁, x₂, x₃, x₄, x₅, s, run, -⟩ := session_run
  obtain ⟨hmetadata, hallowed⟩ := refines_store Contracts.store_documented memoryFixture_sha256 rfl run
  exact ⟨x₁, x₂, x₃, x₄, x₅, s, hmetadata, hallowed [.executed x₁, .executed x₂, .executed x₃, .executed x₄] x₅ [] rfl⟩

/-- **What is stored is intact** after every run: the metadata stored under a key names the Resource of the key, the
normal form of its id, and the exact version whose digest is the SHA-256 of the content stored beside it, and its
length. -/
theorem stored_intact (hT : T.Documented) (hH : host.hasher.Sha256) (hempty : s₀.world.objects = [])
    (h : Runs.Run (TargetStep host) s₀ es s) {o : StoredObject T} (ho : Dict.get? s.world.objects k = some o) :
    o.Intact hH k := (run_consistent hT hH hempty h).intact k o ho

theorem stored_intact_session : ∃ (s : TargetState storeContracts ScriptedWorld) (k : ObjectKey)
    (o : StoredObject storeContracts), Dict.get? s.world.objects k = some o ∧ o.Intact memoryFixture_sha256 k := by
  obtain ⟨x₁, x₂, x₃, x₄, x₅, s, run, ⟨k, -, hstores⟩, -⟩ := session_run
  have hrun : Runs.Run (TargetStep memoryFixture) memoryStart
      ([.executed x₁, .executed x₂, .executed x₃, .executed x₄] ++ .executed x₅ :: []) s := run
  have hallowed := run_serves Contracts.store_documented memoryFixture_sha256 rfl hrun
  obtain ⟨m, -, hchange⟩ := change_of_stores Contracts.store_documented hallowed hstores
  have hmetadata : s.metadata k = some m := by
    rw [run_contents Contracts.store_documented memoryFixture_sha256 rfl hrun, List.map_append, List.map_singleton,
      contents_append_singleton, show (TargetEvent.executed x₅).change = .write k m from hchange,
      Change.apply_of_key?_eq rfl]
    rfl
  obtain ⟨o, ho, -⟩ := Option.map_eq_some_iff.mp hmetadata
  exact ⟨s, k, o, ho, stored_intact Contracts.store_documented memoryFixture_sha256 rfl run ho⟩

end ObjectCommon
