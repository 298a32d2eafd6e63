import ObjectCommon.Catalog.Requirements
import ObjectCommon.Testing.MemoryRoundTrip

/-!
# Operations that only read, and Operations that are executed again

The Catalog marks Operations as read-only and as idempotent; the target keeps both promises.

* `TargetState.versions` : the digests stored by key;
* `put_answered`, `delete_answered` : what was answered was done, and stored with the digest declared;
* `readOnly_run` : read-only Operations change no Object;
* `idempotent_retry` : an idempotent Operation that was answered changes no version when it is executed again.
-/

namespace ObjectCommon

open Outcome PyError Routine MemoryObjectTarget

variable {T : StorePackages} {W : Type} {host : MemoryHost W} {s s' s₀ : TargetState T W} {x y : Execution T} {fuel : Nat}
  {k : ObjectKey}

/-- The digest that is stored under each key. -/
def TargetState.versions (s : TargetState T W) (k : ObjectKey) : Option Str :=
  (Dict.get? s.world.objects k).map fun o => T.metadataDigest o.metadata

/-! ## Operations and requests -/

variable {e : Expression}

/-- The request that an execution is of is read for the method of the Expression. -/
theorem method_eq (hT : T.Documented) (h : normalize T.toPackages e = .ok x.operation) : x.method = e.method := by
  obtain ⟨resource, r, -, hasks⟩ := normalized_asks hT.roundTrips hT.findsOperations h
  exact List.append_cancel_left (x.asks.contract.symm.trans hasks.contract)

/-- Operations that change Objects are not read-only. -/
theorem readOnly_eq_false (hT : T.Documented) (h : normalize T.toPackages e = .ok x.operation)
    (hm : x.method = str "put" ∨ x.method = str "delete") : x.operation.readOnly = false := by
  rw [method_eq hT h] at hm
  obtain ⟨contract, resource, r, haccepts, ho⟩ := normalize_eq_ok.mp h
  have hcontract := haccepts.method
  rw [ho]
  show contract.readOnly = false
  obtain hm | hm := hm
  · rw [hm] at hcontract
    obtain rfl := Except.ok.inj ((hT.findsOperations.operationFor objectOperations _ _ rfl).symm.trans hcontract)
    rfl
  · rw [hm] at hcontract
    obtain rfl := Except.ok.inj ((hT.findsOperations.operationFor objectOperations _ _ rfl).symm.trans hcontract)
    rfl

theorem Execution.Stores.method (h : x.Stores k) : x.method = str "put" := by
  obtain ⟨p, result, hrequest, -⟩ := h
  have hreads := x.asks.reads
  rw [hrequest] at hreads
  exact hreads.1

theorem Execution.Removes.method (h : x.Removes k) : x.method = str "delete" := by
  obtain ⟨reference, result, hrequest, -⟩ := h
  have hreads := x.asks.reads
  rw [hrequest] at hreads
  exact hreads.1

/-- **A read-only Operation changes no Object.** -/
theorem readOnly_keeps (hT : T.Documented) (hH : host.hasher.Sha256) (hs : Consistent hH s)
    (hnormal : normalize T.toPackages e = .ok x.operation) (hread : x.operation.readOnly = true)
    (h : execute T host fuel x.operation s = some (x.answer, s')) : s'.world.objects = s.world.objects := by
  obtain hobjects | ⟨k, o, hstores, -⟩ | ⟨k, hremoves, -⟩ := execute_objects hT hH hs h
  · exact hobjects
  · cases hread.symm.trans (readOnly_eq_false hT hnormal (Or.inl hstores.method))
  · cases hread.symm.trans (readOnly_eq_false hT hnormal (Or.inr hremoves.method))

/-! ## What an Operation says -/

/-- Two puts of one Operation. -/
theorem PutRequest.Reads.same {P : Packages} {p q : PutRequest} {value : Object} {resource resource' : ResourceRef}
    (hp : p.Reads P value resource) (hq : q.Reads P value resource') :
    p.payload = q.payload ∧ p.objectId.val = q.objectId.val ∧ p.createOnly = q.createOnly := by
  refine ⟨?_, ?_, ?_⟩
  · obtain ⟨raw, hraw, hparse⟩ := hp.integrity.payload
    obtain ⟨raw', hraw', hparse'⟩ := hq.integrity.payload
    cases hraw.symm.trans hraw'
    exact Except.ok.inj (hparse.symm.trans hparse')
  · exact Json.str.inj (Option.some.inj (hp.identity.objectId.symm.trans hq.identity.objectId))
  · exact Json.bool.inj (Option.some.inj (hp.createOnly.symm.trans hq.createOnly))

/-- A put of an idempotent Operation only creates, or declares the digest of its payload. -/
theorem idempotent_put (hT : T.Documented) (h : normalize T.toPackages e = .ok x.operation)
    (hidempotent : x.operation.idempotent = true) {p : PutRequest} (hrequest : x.request = .put p) :
    p.createOnly = true ∨ ∃ d, p.payload.expectedDigest = some d := by
  obtain ⟨contract, resource, r, haccepts, ho⟩ := normalize_eq_ok.mp h
  have hreads := x.asks.reads
  rw [hrequest] at hreads
  obtain ⟨hm, -, hp⟩ := hreads
  have hr := haccepts.reads
  rw [← method_eq hT h, hm] at hr
  obtain ⟨q, rfl, hq⟩ := hr.exists_put
  have hcanonical : q.canonical.Reads T.toPackages x.operation.input resource := by
    rw [ho]
    exact hq.canonical e.wellFormed
  obtain ⟨hpayload, -, hcreate⟩ := hp.same hcanonical
  have hdemands : (q.createOnly || q.expectedDigest.isSome) = true := by
    rw [ho] at hidempotent
    exact hidempotent
  rw [hpayload, hcreate]
  obtain hc | hd := (Bool.or_eq_true _ _).mp hdemands
  · exact Or.inl hc
  · exact Or.inr (Option.isSome_iff_exists.mp hd)

/-- Two references of one Operation. -/
theorem ReadsReference.same {P : Packages} {value : Object} {resource resource' : ResourceRef} {method method' : Str}
    {requireDigest requireDigest' : Bool} {reference reference' : LogicalReference P}
    (h : ReadsReference value resource method requireDigest reference)
    (h' : ReadsReference value resource' method' requireDigest' reference') : reference = reference' := by
  obtain ⟨raw, hraw, hparse⟩ := h.document
  obtain ⟨raw', hraw', hparse'⟩ := h'.document
  cases hraw.symm.trans hraw'
  exact Except.ok.inj (hparse.symm.trans hparse')

/-- Two executions of one Operation are of one method, on one Resource. -/
theorem Execution.same_operation (h : y.operation = x.operation) : y.method = x.method ∧ y.resource = x.resource := by
  have hcontract := y.asks.contract
  have hresources := y.asks.resources
  rw [h] at hcontract hresources
  exact ⟨List.append_cancel_left (hcontract.symm.trans x.asks.contract),
    List.singleton_inj.mp (hresources.symm.trans x.asks.resources)⟩

/-! ## What was answered was done -/

/-- What is about to be stored has the digest that the put declares. -/
theorem prepare_declared (hT : T.Documented) (hH : host.hasher.Sha256) {operation : Operation} {resource : ResourceRef}
    {p : PutRequest} (hres : operation.resources = [resource])
    (hvalue : ReadsResource T.toPackages operation.input resource) (hp : p.Reads T.toPackages operation.input resource)
    {o : StoredObject T} (h : (prepare T host fuel operation).Returns s (k, o) s') :
    ∀ d ∈ p.payload.expectedDigest, T.metadataDigest o.metadata = d.val := by
  simp only [prepare, returns_bind, returns_lift, returns_step, returns_pure, Prod.exists, Prod.mk.injEq] at h
  obtain ⟨resource', _, ⟨hresource, rfl⟩, objectId, _, ⟨-, rfl⟩, createOnly, _, ⟨-, rfl⟩, _, _, ⟨-, rfl⟩, raw, _,
    ⟨hraw, rfl⟩, payload, _, ⟨hpayload, rfl⟩, i, data, t, hreceive, m, _, ⟨hm, rfl⟩, ⟨rfl, rfl⟩, rfl⟩ := h
  obtain rfl : resource = resource' := Except.ok.inj ((resourceOf_eq hres).symm.trans hresource)
  obtain ⟨raw', hraw', hpayload'⟩ := hp.integrity.payload
  cases (mappingArgument_eq_ok.mp hraw).symm.trans hraw'
  cases hpayload.symm.trans hpayload'
  obtain rfl := receive_returns hH hreceive
  intro d hd
  obtain ⟨⟨result, q⟩, hresult, hq⟩ := Option.map_eq_some_iff.mp hreceive
  cases result with
  | error e => cases hq
  | ok i' =>
    obtain rfl : i' = Hasher.identity hH data := congrArg Prod.fst (Except.ok.inj (Prod.mk.inj hq).1)
    rw [(newMetadata_intact hT hH (mapError_eq_ok.mp hvalue) hm).digest, (transferPayload_declared hresult rfl).1 d hd]

theorem put_answered (hT : T.Documented) (hH : host.hasher.Sha256) {p : PutRequest} (hrequest : x.request = .put p)
    {stored : JsonMapping} (hanswer : x.answer = .ok stored)
    (h : execute T host fuel x.operation s = some (x.answer, s')) :
    ∃ o, s'.world.objects = Dict.set s.world.objects (key x.resource p.objectId.val) o ∧
      (∀ d ∈ p.payload.expectedDigest, T.metadataDigest o.metadata = d.val) ∧
      (p.createOnly = true → Dict.get? s.world.objects (key x.resource p.objectId.val) = none) := by
  obtain ⟨operation, method, resource, request, hasks, answer⟩ := x
  dsimp only at hrequest hanswer h
  subst hrequest hanswer
  obtain ⟨rfl, hvalue, hp⟩ := hasks.reads
  obtain ⟨e, he, -⟩ | ⟨k, o, t, hreturns, -, hobjects, -⟩ := execute_put hasks h
  · cases he
  · obtain ⟨rfl, -, hfree⟩ := prepare_returns hT hH hasks.resources hvalue hp hreturns
    exact ⟨o, hobjects, prepare_declared hT hH hasks.resources hvalue hp hreturns, hfree⟩

theorem delete_answered (hT : T.Documented) {H : Hasher} {hH : H.Sha256} (hs : Consistent hH s)
    {reference : LogicalReference T.toPackages} (hrequest : x.request = .delete reference) {result : JsonMapping}
    (hanswer : x.answer = .ok result)
    (h : execute T host fuel x.operation s = some (x.answer, s')) :
    s'.world.objects = Dict.pop s.world.objects (x.referencedKey reference) := by
  obtain ⟨operation, method, resource, request, hasks, answer⟩ := x
  dsimp only at hrequest hanswer h
  subst hrequest hanswer
  obtain ⟨rfl, -⟩ := hasks.reads
  obtain ⟨e, -, hexec⟩ | ⟨o, ho, hexec⟩ := execute_delete host fuel hasks s
  · cases hexec.symm.trans h
  · obtain ⟨-, hintact⟩ := hs.lookedUp ho
    cases (hexec (hintact.objectId_of_reference hT)).symm.trans h
    rfl

/-! ## Only reading -/

/-- **Read-only Operations change no Object**, whatever the client does between them. -/
theorem readOnly_run (hT : T.Documented) (hH : host.hasher.Sha256) (hs : Consistent hH s) {es : List (TargetEvent T)}
    (h : Runs.Run (TargetStep host) s es s')
    (hread : ∀ x, TargetEvent.executed x ∈ es → x.operation.readOnly = true ∧
      ∃ e, normalize T.toPackages e = .ok x.operation) : s'.world.objects = s.world.objects := by
  induction h with
  | nil => rfl
  | @snoc es s₁ event s₂ run last ih =>
    have hs₁ := run.keep (fun _ _ _ hs hstep => step_consistent hT hH hs hstep) hs
    have hkept := ih fun x hx => hread x (List.mem_append_left _ hx)
    cases last with
    | outside hheld => exact (Prod.mk.inj hheld).1.trans hkept
    | executed hexec =>
      obtain ⟨hreadOnly, e, hnormal⟩ := hread _ (List.mem_append_right _ (List.mem_singleton_self _))
      exact (readOnly_keeps hT hH hs₁ hnormal hreadOnly hexec).trans hkept

/-- The fixture is put, then looked up and listed. -/
def readSession : TargetRoutine storeContracts ScriptedWorld Unit := do
  let _ ← executeExpression sessionPut
  let _ ← executeExpression (ObjectCatalogSurface.stat fixtureResource sessionReference)
  let _ ← executeExpression (ObjectCatalogSurface.list fixtureResource "fixture/" 1)

/-- An answered stat and an answered list of an Object that was put before: it stays. -/
theorem readOnly_run_session : ∃ (x y : Execution storeContracts) (s s' : TargetState storeContracts ScriptedWorld)
    (o : StoredObject storeContracts), Dict.get? s.world.objects sessionKey = some o ∧
      Runs.Run (TargetStep memoryFixture) s [.executed x, .executed y] s' ∧ (∃ result, x.answer = .ok result) ∧
      (∃ result, y.answer = .ok result) ∧ s'.world.objects = s.world.objects := by
  obtain ⟨u, t, hs⟩ : ∃ u t, readSession.Returns memoryStart u t := exists_returns_of_isOk (by decide +kernel)
  simp only [readSession, returns_bind, Prod.exists] at hs
  obtain ⟨op₁, a₁, s₁, h₁, op₂, a₂, s₂, h₂, op₃, a₃, s₃, h₃, -⟩ := hs
  have hT := Contracts.store_documented
  have hH := memoryFixture_sha256
  obtain ⟨x₁, p, t₁, hrequest, hstored, -, hkey⟩ := sessionPut_returns h₁
  obtain ⟨n₂, resource₂, r₂, asks₂, -, t₂⟩ := executeExpression_returns h₂
  obtain ⟨n₃, resource₃, r₃, asks₃, -, t₃⟩ := executeExpression_returns h₃
  let x : Execution storeContracts := ⟨op₂, _, resource₂, _, asks₂, .ok a₂⟩
  let y : Execution storeContracts := ⟨op₃, _, resource₃, _, asks₃, .ok a₃⟩
  have hrun : Runs.Run (TargetStep memoryFixture) s₁ ([.executed x] ++ [.executed y]) s₃ :=
    (Runs.Run.nil.snoc t₂).snoc t₃
  have hconsistent : Consistent hH s₁ := step_consistent hT hH (consistent_of_empty hH rfl) t₁
  obtain ⟨o, ho⟩ : ∃ o, Dict.get? s₁.world.objects sessionKey = some o := by
    cases t₁ with
    | executed hexec =>
      obtain ⟨o, hobjects, -⟩ := put_answered hT hH hrequest hstored hexec
      rw [hobjects, hkey]
      exact ⟨o, Dict.get?_set_self _ _ _⟩
  have hstat : (normalize storeContracts.toPackages (ObjectCatalogSurface.stat fixtureResource sessionReference)).map
      Operation.readOnly = .ok true := by decide +kernel
  have hlist : (normalize storeContracts.toPackages (ObjectCatalogSurface.list fixtureResource "fixture/" 1)).map
      Operation.readOnly = .ok true := by decide +kernel
  rw [n₂] at hstat
  rw [n₃] at hlist
  refine ⟨x, y, s₁, s₃, o, ho, hrun, ⟨a₂, rfl⟩, ⟨a₃, rfl⟩, readOnly_run hT hH hconsistent hrun fun z hz => ?_⟩
  obtain hz | hz := List.mem_append.mp hz
  · cases List.mem_singleton.mp hz
    exact ⟨Except.ok.inj hstat, _, n₂⟩
  · cases List.mem_singleton.mp hz
    exact ⟨Except.ok.inj hlist, _, n₃⟩

/-! ## Executing again -/

theorem versions_of_objects (h : s'.world.objects = s.world.objects) : s'.versions = s.versions := by
  unfold TargetState.versions
  rw [h]

/-- Storing another Object of the version that is there changes no version. -/
theorem versions_set {o : StoredObject T} (h : s'.world.objects = Dict.set s.world.objects k o)
    (hthere : s.versions k = some (T.metadataDigest o.metadata)) : s'.versions = s.versions := by
  funext k'
  unfold TargetState.versions at hthere ⊢
  rw [h, Dict.get?_set]
  split
  · next heq => rw [heq, hthere]; rfl
  · rfl

/-- Removing what is not there changes no version. -/
theorem versions_pop (h : s'.world.objects = Dict.pop s.world.objects k) (hthere : Dict.get? s.world.objects k = none) :
    s'.versions = s.versions := by
  funext k'
  unfold TargetState.versions
  rw [h]
  by_cases heq : k' = k
  · rw [heq, Dict.get?_pop_self, hthere]
  · rw [Dict.get?_pop_ne _ heq]

/-- **An idempotent Operation that was answered changes no version when it is executed again**, as long as no other
answered put or delete of its key came between. -/
theorem idempotent_retry (hT : T.Documented) (hH : host.hasher.Sha256) (hempty : s₀.world.objects = [])
    {before between : List (TargetEvent T)} {s₁ s₂ s₃ s₄ : TargetState T W}
    (hbefore : Runs.Run (TargetStep host) s₀ before s₁) (hfirst : TargetStep host s₁ (.executed x) s₂)
    (hbetween : Runs.Run (TargetStep host) s₂ between s₃) (hagain : TargetStep host s₃ (.executed y) s₄)
    (hnormal : normalize T.toPackages e = .ok x.operation) (hidempotent : x.operation.idempotent = true)
    {result : JsonMapping} (hanswer : x.answer = .ok result) (hsame : y.operation = x.operation)
    (huntouched : ∀ k, x.Stores k ∨ x.Removes k → ∀ e ∈ between, ¬ e.Touches k) : s₄.versions = s₃.versions := by
  have hs₁ := run_consistent hT hH hempty hbefore
  have hs₂ := step_consistent hT hH hs₁ hfirst
  have hs₃ := hbetween.keep (fun _ _ _ hs hstep => step_consistent hT hH hs hstep) hs₂
  obtain ⟨hmethod, hresource⟩ := Execution.same_operation hsame
  cases hfirst with
  | executed hfirst =>
  cases hagain with
  | executed hagain =>
  obtain hobjects | ⟨k, o, ⟨q, stored, hput, hstored, rfl⟩, -⟩ | ⟨k, ⟨reference, deleted, hdelete, hdeleted, rfl⟩, -⟩ :=
    execute_objects hT hH hs₃ hagain
  · exact versions_of_objects hobjects
  · have hreads := y.asks.reads
    rw [hput, hsame] at hreads
    obtain ⟨hput', -, hq⟩ := hreads
    have hreads := x.asks.reads
    rw [← hmethod, hput'] at hreads
    obtain ⟨p, hrequest, hp⟩ := hreads.exists_put
    obtain ⟨hpayload, hid, hcreate⟩ := hp.same hq
    obtain ⟨o₁, hobjects₁, hdeclared₁, -⟩ := put_answered hT hH hrequest hanswer hfirst
    obtain ⟨o₂, hobjects₂, hdeclared₂, hfree⟩ := put_answered hT hH hput hstored hagain
    rw [hresource, ← hid] at hobjects₂ hfree
    have hthere : Dict.get? s₃.world.objects (key x.resource p.objectId.val) = some o₁ := by
      rw [run_untouched hT hH hs₂ hbetween (huntouched _ (Or.inl ⟨p, result, hrequest, hanswer, rfl⟩)), hobjects₁]
      exact Dict.get?_set_self _ _ _
    obtain hc | ⟨d, hd⟩ := idempotent_put hT hnormal hidempotent hrequest
    · cases hthere.symm.trans (hfree (hcreate.symm.trans hc))
    · refine versions_set hobjects₂ ?_
      unfold TargetState.versions
      rw [hthere, hdeclared₂ d (hpayload ▸ hd)]
      exact congrArg some (hdeclared₁ d hd)
  · have hreads := y.asks.reads
    rw [hdelete, hsame] at hreads
    obtain ⟨hdelete', -, -, href, -⟩ := hreads
    have hreads := x.asks.reads
    rw [← hmethod, hdelete'] at hreads
    obtain ⟨reference', hrequest, href'⟩ := hreads.exists_delete
    obtain rfl : reference = reference' := href.same href'
    have hkey : y.referencedKey reference = x.referencedKey reference := by
      unfold Execution.referencedKey
      rw [hresource]
    have hobjects₁ := delete_answered hT hs₁ hrequest hanswer hfirst
    have hobjects₂ := delete_answered hT hs₃ hdelete hdeleted hagain
    refine versions_pop hobjects₂ ?_
    rw [hkey, run_untouched hT hH hs₂ hbetween (huntouched _ (Or.inr ⟨reference, result, hrequest, hanswer, rfl⟩)),
      hobjects₁]
    exact Dict.get?_pop_self _ _

/-- A create-only put is executed twice. -/
theorem idempotent_retry_session : ∃ (x y : Execution storeContracts) (s s' : TargetState storeContracts ScriptedWorld),
    TargetStep memoryFixture memoryStart (.executed x) s ∧ (∃ result, x.answer = .ok result) ∧
      TargetStep memoryFixture s (.executed y) s' ∧ y.operation = x.operation ∧ s'.versions = s.versions := by
  obtain ⟨⟨operation, result⟩, s, hput⟩ : ∃ a s, (executeExpression sessionPut).Returns memoryStart a s :=
    exists_returns_of_isOk (by decide +kernel)
  obtain ⟨hnormal, resource, r, hasks, -, hfirst⟩ := executeExpression_returns hput
  have hT := Contracts.store_documented
  let x : Execution storeContracts := ⟨operation, _, resource, _, hasks, .ok result⟩
  obtain ⟨answer, s', hagain⟩ := execute_ends (T := storeContracts) (Nat.lt_succ_self memoryFixture.bufferLimit) operation s
  let y : Execution storeContracts := ⟨operation, _, resource, _, hasks, answer⟩
  have hidempotent : x.operation.idempotent = true := by
    obtain ⟨contract, resource, q, haccepts, ho⟩ := normalize_eq_ok.mp hnormal
    show operation.idempotent = true
    rw [ho]
    exact (Request.idempotent_iff haccepts.reads).mpr fun _ => Or.inl rfl
  have hsecond : TargetStep memoryFixture s (.executed y) s' := .executed hagain
  refine ⟨x, y, s, s', hfirst, ⟨result, rfl⟩, hsecond, rfl, ?_⟩
  exact idempotent_retry hT memoryFixture_sha256 rfl .nil hfirst .nil hsecond hnormal hidempotent rfl rfl (by simp)

end ObjectCommon
