import ObjectCommon.Catalog.Failures
import ObjectCommon.Testing.Received
import ObjectCommon.Testing.Scripted

/-!
# What a passed conformance report means

The target may answer, raise and leave the registry as it likes, and so may the streams it registers.

* `Answered`, `Refused` : a normalized Expression that the target answered, or stopped with an error;
* `PassedRun`, `PassedRun.log` : the exchanges of a run in which every check passed;
* `Harness.run_succeeds` : a run returns a report, since a buffer cannot grow for ever;
* `Harness.run_sound` : its report has the nine checks, and when it passed the run was a `PassedRun`.
-/

namespace ObjectCommon

open Outcome PyError Routine

variable {T : ClientPackages} {W : Type} {h : Harness W} {s s' s'' : RunnerState T W} {l l' : List Exchange}

/-! ## What the steps leave -/

/-- Exchanges were made; the runner's metadata stayed. -/
structure Extends (s s' : RunnerState T W) (l : List Exchange) : Prop where
  log : s'.log = s.log ++ l
  metadata : s'.metadata = s.metadata

theorem Extends.trans (h : Extends s s' l) (h' : Extends s' s'' l') : Extends s s'' (l ++ l') :=
  ⟨by rw [h'.log, h.log, List.append_assoc], h'.metadata.trans h.metadata⟩

/-- An error of a check of a request or of an answer, not of an Object operation. -/
def IsRequestError (e : PyError) : Prop := e.code? = none ∨ e.code? = some .invalidRequest

theorem IsRequestError.of_isTypeOrValueError {e : PyError} (he : IsTypeOrValueError e) : IsRequestError e := by
  cases e with
  | builtin kind m => exact Or.inl rfl
  | meridian code m c => cases he

theorem IsRequestError.of_isObjectInvalidRequest {e : PyError} (he : IsObjectInvalidRequest e) : IsRequestError e := by
  obtain ⟨m, c, rfl⟩ := he
  exact Or.inr rfl

/-- Such an error is none that the runner waits for. -/
theorem IsRequestError.absurd {e : PyError} (he : IsRequestError e) {code : ObjectErrorCode}
    (hcode : code ≠ .invalidRequest) (h : e.code? = some code) : False := by
  rcases he with he | he
  · rw [he] at h
    cases h
  · rw [he] at h
    exact hcode (Option.some.inj h).symm

theorem Harness.executeOperation_returns {operation : Operation} {a : JsonMapping}
    (hr : (h.executeOperation T operation).Returns s a s') : Extends s s' [.executed operation (.ok a)] := by
  simp only [executeOperation, returns_step, Prod.mk.injEq] at hr
  obtain ⟨hanswer, rfl⟩ := hr
  exact ⟨by rw [hanswer], rfl⟩

theorem Harness.executeOperation_raises {operation : Operation} {e : PyError}
    (hr : (h.executeOperation T operation).Raises s e s') : Extends s s' [.executed operation (.error e)] := by
  simp only [executeOperation, raises_step, Prod.mk.injEq] at hr
  obtain ⟨hanswer, rfl⟩ := hr
  exact ⟨by rw [hanswer], rfl⟩

/-- What is executed is the Operation of the Expression. -/
theorem Harness.execute_returns {expression : Expression} {a : JsonMapping}
    (hr : (h.execute T expression).Returns s a s') :
    ∃ operation, normalize T.toPackages expression = .ok operation ∧
      Extends s s' [.executed operation (.ok a)] := by
  simp only [execute, returns_bind, returns_lift] at hr
  obtain ⟨_, _, ⟨-, rfl⟩, operation, _, ⟨hnormal, rfl⟩, hexecute⟩ := hr
  exact ⟨operation, hnormal, executeOperation_returns hexecute⟩

theorem Contracts.client_raisesRequestErrors : clientContracts.RaisesDocumented IsRequestError :=
  Contracts.client_raisesDocumented.mono fun _ => .of_isTypeOrValueError

/-- The checks of a request raise such errors when the packages do. -/
theorem normalize_requestErrors (hT : T.RaisesDocumented IsRequestError) (expression : Expression) :
    RaisesOnly IsRequestError (normalize T.toPackages expression) := by
  refine normalize_raises hT.packages ?_ (fun _ => .of_isObjectInvalidRequest) (fun _ => Or.inr) ?_ ?_
  · rintro e (he | he)
    · exact .of_isTypeOrValueError he
    · exact .of_isObjectInvalidRequest he
  · exact fun _ _ _ _ q _ => hT.checkRequirement q
  · exact fun _ _ _ _ => hT.checkOperation _

/-- An error comes from the checks of the request, or from the target's own execution of it. -/
theorem Harness.execute_raises (hT : T.RaisesDocumented IsRequestError) {expression : Expression}
    {e : PyError} (hr : (h.execute T expression).Raises s e s') :
    IsRequestError e ∨ ∃ operation, normalize T.toPackages expression = .ok operation ∧
      Extends s s' [.executed operation (.error e)] := by
  simp only [execute, raises_bind, returns_lift, raises_lift] at hr
  rcases hr with ⟨hcheck, rfl⟩ | ⟨_, _, ⟨-, rfl⟩, ⟨hnormal, rfl⟩ | ⟨operation, _, ⟨hnormal, rfl⟩, hexecute⟩⟩
  · exact Or.inl (hT.checkExpression _ e hcheck)
  · exact Or.inl (normalize_requestErrors hT _ e hnormal)
  · exact Or.inr ⟨operation, hnormal, executeOperation_raises hexecute⟩

theorem Harness.payloadReference_returns {digestValue : Option Str} {reference : PayloadReference}
    (hr : (h.payloadReference T digestValue).Returns s reference s') : Extends s s' [] := by
  simp only [payloadReference, returns_step] at hr
  split at hr
  · cases hr
  · cases hr
    exact ⟨(List.append_nil _).symm, rfl⟩

theorem Harness.payloadReference_raises {digestValue : Option Str} {e : PyError}
    (hr : (h.payloadReference T digestValue).Raises s e s') : IsRequestError e := by
  simp only [payloadReference, raises_step] at hr
  split at hr
  · next he =>
    cases hr
    exact .of_isTypeOrValueError (PayloadReference.new_raises _ _ _ _ _ e he)
  · cases hr

theorem Harness.receive_returns {fuel : Nat} {reference : PayloadReference} {identity : ContentIdentity}
    {received : Bytes} (hr : (h.receive T fuel reference).Returns s (identity, received) s') :
    Extends s s' [.transferred reference (.ok identity) received] := by
  obtain ⟨⟨result, p⟩, -, hp⟩ := Option.map_eq_some_iff.mp hr
  cases result with
  | error e => cases hp
  | ok i =>
    cases hp
    exact ⟨rfl, rfl⟩

theorem Harness.requiredMetadata_returns {metadata : T.ObjectMetadata}
    (hr : (requiredMetadata T : RunnerRoutine T W _).Returns s metadata s') :
    s.metadata = some metadata ∧ s = s' := by
  unfold Routine.Returns requiredMetadata at hr
  split at hr
  · cases hr
  · next hm =>
    cases hr
    exact ⟨hm, rfl⟩

theorem assertThat_eq_ok {c : Prop} [Decidable c] {message : Message} {u : Unit} :
    assertThat c message = .ok u ↔ c := by
  rw [assertThat, raiseIf_eq_ok, not_not]

theorem Harness.requiredMetadata_raises {e : PyError}
    (hr : (requiredMetadata T : RunnerRoutine T W _).Raises s e s') : IsRequestError e := by
  unfold Routine.Raises requiredMetadata at hr
  split at hr
  · cases hr
    exact Or.inl rfl
  · cases hr

theorem Harness.reference_raises {e : PyError}
    (hr : (reference T : RunnerRoutine T W _).Raises s e s') : IsRequestError e := by
  simp only [reference, raises_bind, not_raises_pure, and_false, exists_false, or_false] at hr
  exact requiredMetadata_raises hr

theorem Harness.reference_returns {wire : ObjectCatalogSurface.Wire}
    (hr : (reference T : RunnerRoutine T W _).Returns s wire s') :
    ∃ metadata, s.metadata = some metadata ∧
      wire = referenceWire T.toPackages (T.metadataObjectRef metadata) ∧ s = s' := by
  simp only [reference, returns_bind, returns_pure] at hr
  obtain ⟨metadata, _, hrequired, rfl, rfl⟩ := hr
  obtain ⟨hm, rfl⟩ := requiredMetadata_returns hrequired
  exact ⟨metadata, hm, rfl, rfl⟩

theorem assertThat_raises (c : Prop) [Decidable c] (message : Message) :
    RaisesOnly IsRequestError (assertThat c message) :=
  RaisesOnly.raiseIf fun _ => Or.inl rfl

theorem metadataResult_raises (hT : T.RaisesDocumented IsRequestError) (result : JsonMapping) :
    RaisesOnly IsRequestError (metadataResult T result) := by
  unfold metadataResult
  split
  · exact parseObjectMetadata_raises hT (fun _ => .of_isTypeOrValueError) _
  · exact RaisesOnly.error (Or.inl rfl)

theorem payloadResult_eq_ok {result : JsonMapping} {message : Message} {reference : PayloadReference} :
    payloadResult result message = .ok reference ↔
      ∃ document, Dict.get? result.val "payload" = some (.obj document) ∧
        PayloadReference.fromMapping document = .ok reference := by
  unfold payloadResult
  split
  · next value hv => simp [hv]
  · next hn =>
    constructor
    · intro h
      cases h
    · rintro ⟨document, hd, -⟩
      exact absurd hd (hn document)

theorem Harness.listItem_eq_ok {result : JsonMapping} {item : Json} :
    listItem result = .ok item ↔ Dict.get? result.val "items" = some (.arr [item]) := by
  unfold listItem
  split
  · next v hv => simp [hv]
  · next hn =>
    constructor
    · intro h
      cases h
    · intro h
      exact absurd h (hn item)

/-! ## What a passed run is -/

/-- The names of the checks, in their order. -/
def conformanceChecks : List Str :=
  ["unknown-length-streaming-put", "stat-content-identity", "streaming-get", "inclusive-range-read",
    "bounded-prefix-list", "conditional-create-conflict", "digest-mismatch", "exact-version-delete", "missing-object"]

/-- An Expression that is normalized, and the target's answer to its Operation. -/
structure Answered (P : Packages) (expression : Expression) where
  operation : Operation
  answer : JsonMapping
  normalized : normalize P expression = .ok operation

def Answered.exchange {P : Packages} {expression : Expression} (a : Answered P expression) : Exchange :=
  .executed a.operation (.ok a.answer)

/-- An Expression that is normalized, and whose Operation the target's own execution stopped with an error of a
class. -/
structure Refused (P : Packages) (expression : Expression) (code : ObjectErrorCode) where
  operation : Operation
  error : PyError
  normalized : normalize P expression = .ok operation
  hasCode : error.code? = some code

def Refused.exchange {P : Packages} {expression : Expression} {code : ObjectErrorCode}
    (r : Refused P expression code) : Exchange :=
  .executed r.operation (.error r.error)

/-- The bytes that `transfer_payload` wrote for the payload of an answer. -/
structure Delivered (answer : JsonMapping) (content : Bytes) where
  document : Object
  reference : PayloadReference
  identity : ContentIdentity
  payload : Dict.get? answer.val "payload" = some (.obj document)
  parsed : PayloadReference.fromMapping document = .ok reference

def Delivered.exchange {answer : JsonMapping} {content : Bytes} (d : Delivered answer content) : Exchange :=
  .transferred d.reference (.ok d.identity) content

variable (T h)

/-- A put of the fixture that was answered with its metadata. -/
structure StoredFixture where
  payload : PayloadReference
  put : Answered T.toPackages (putExpression payload h.digest)
  metadata : T.ObjectMetadata
  result : metadataResult T put.answer = .ok metadata
  digest : T.metadataDigest metadata = h.digest
  byteLength : T.metadataByteLength metadata = fixturePayload.length
  reference : T.digest (T.metadataObjectRef metadata) = some h.digest

/-- The reference to a stored Object. -/
def storedWire (metadata : T.ObjectMetadata) : ObjectCatalogSurface.Wire :=
  referenceWire T.toPackages (T.metadataObjectRef metadata)

/-- A stat that was answered with equal metadata. -/
structure EqualStat (stored : T.ObjectMetadata) where
  stat : Answered T.toPackages (ObjectCatalogSurface.stat fixtureResource (storedWire T stored))
  metadata : T.ObjectMetadata
  result : metadataResult T stat.answer = .ok metadata
  equal : Json.pyEq (.obj (T.metadataToDict metadata)) (.obj (T.metadataToDict stored)) = true

/-- A get whose payload was the fixture. -/
structure WholeGet (stored : T.ObjectMetadata) where
  get : Answered T.toPackages (ObjectCatalogSurface.get fixtureResource (storedWire T stored))
  delivered : Delivered get.answer fixturePayload
  digest : delivered.identity.digest.val = h.digest

/-- A range read whose payload was bytes 2 to 9 of the fixture, with the range it was resolved to. -/
structure ExactRange (stored : T.ObjectMetadata) where
  read : Answered T.toPackages (ObjectCatalogSurface.readRangeOf fixtureResource (storedWire T stored) fixtureRange)
  delivered : Delivered read.answer ((fixturePayload.take 10).drop 2)
  resolved : ResolvedByteRange
  resolve : fixtureRange.resolve (.int fixturePayload.length) = .ok resolved
  range : Json
  result : Dict.get? read.answer.val "range" = some range
  equal : range.pyEq (.obj resolved.toDict) = true

/-- A list that was answered with one item, of the fixture's digest. -/
structure OneItem where
  list : Answered T.toPackages (ObjectCatalogSurface.list fixtureResource "fixture/" 1)
  item : Json
  items : Dict.get? list.answer.val "items" = some (.arr [item])
  metadata : T.ObjectMetadata
  parsed : parseObjectMetadata T item = .ok metadata
  digest : T.metadataDigest metadata = h.digest

/-- A delete that was answered with what equals `{"deleted": True}`. -/
structure Deleted (stored : T.ObjectMetadata) where
  delete : Answered T.toPackages
    (ObjectCatalogSurface.delete fixtureResource (storedWire T stored) (some (str "conformance-cleanup")))
  equal : Json.pyEq (.obj delete.answer.val) (.obj [("deleted", .bool true)]) = true

/-- The exchanges of a run in which every check passed. -/
structure PassedRun where
  stored : StoredFixture T h
  stat : EqualStat T stored.metadata
  get : WholeGet T h stored.metadata
  range : ExactRange T stored.metadata
  list : OneItem T h
  duplicatePayload : PayloadReference
  duplicate : Refused T.toPackages (createExpression fixtureObjectId duplicatePayload h.digest) .conditionalConflict
  mismatchPayload : PayloadReference
  mismatch : Refused T.toPackages (createExpression "fixture/digest-mismatch" mismatchPayload wrongDigest)
    .digestMismatch
  deleted : Deleted T stored.metadata
  missing : Refused T.toPackages (ObjectCatalogSurface.stat fixtureResource (storedWire T stored.metadata)) .notFound

variable {T h}

/-- All that happened between the runner and the target. -/
def PassedRun.log (r : PassedRun T h) : List Exchange :=
  [r.stored.put.exchange, r.stat.stat.exchange, r.get.get.exchange, r.get.delivered.exchange, r.range.read.exchange,
    r.range.delivered.exchange, r.list.list.exchange, r.duplicate.exchange, r.mismatch.exchange,
    r.deleted.delete.exchange, r.missing.exchange]

/-! ## The actions -/

namespace Harness

theorem put_returns (hr : (h.put T).Returns s () s') :
    ∃ stored : StoredFixture T h, s'.log = s.log ++ [stored.put.exchange] ∧ s'.metadata = some stored.metadata := by
  simp only [put, returns_bind, returns_lift, returns_step, assertThat_eq_ok, Prod.mk.injEq] at hr
  obtain ⟨payload, s₁, hpayload, answer, s₂, hexecute, metadata, _, ⟨hresult, rfl⟩, _, _, ⟨hdigest, rfl⟩, _, _,
    ⟨hlength, rfl⟩, _, _, ⟨hreference, rfl⟩, -, rfl⟩ := hr
  obtain ⟨operation, hnormal, hlog⟩ := execute_returns hexecute
  have hall := (payloadReference_returns hpayload).trans hlog
  exact ⟨⟨payload, ⟨operation, answer, hnormal⟩, metadata, hresult, hdigest, hlength, hreference⟩, hall.log, rfl⟩

theorem stat_returns {stored : T.ObjectMetadata} (hm : s.metadata = some stored)
    (hr : (h.stat T).Returns s () s') : ∃ st : EqualStat T stored, Extends s s' [st.stat.exchange] := by
  simp only [stat, returns_bind, returns_lift, assertThat_eq_ok] at hr
  obtain ⟨wire, _, hwire, answer, s₁, hexecute, metadata, _, ⟨hresult, rfl⟩, expected, _, hexpected, hequal, rfl⟩ := hr
  obtain ⟨stored', hm', rfl, rfl⟩ := reference_returns hwire
  obtain rfl : stored' = stored := Option.some.inj (hm'.symm.trans hm)
  obtain ⟨operation, hnormal, hlog⟩ := execute_returns hexecute
  obtain ⟨hm₁, rfl⟩ := requiredMetadata_returns hexpected
  obtain rfl : stored' = expected := Option.some.inj (hm.symm.trans (hlog.metadata.symm.trans hm₁))
  exact ⟨⟨⟨operation, answer, hnormal⟩, metadata, hresult, hequal⟩, hlog⟩

/-- An execution that raises what no check of a request raises was stopped by the target. -/
theorem refused_of_raises (hT : T.RaisesDocumented IsRequestError) {expression : Expression}
    {e : PyError} {code : ObjectErrorCode} (hcode : code ≠ .invalidRequest) (he : e.code? = some code)
    (hr : (h.execute T expression).Raises s e s') :
    ∃ refused : Refused T.toPackages expression code, Extends s s' [refused.exchange] := by
  rcases execute_raises hT hr with hrequest | ⟨operation, hnormal, hlog⟩
  · exact (hrequest.absurd hcode he).elim
  · exact ⟨⟨operation, e, hnormal, he⟩, hlog⟩

/-- A stat that raises what no check of a request raises was stopped by the target. -/
theorem stat_raises (hT : T.RaisesDocumented IsRequestError) {stored : T.ObjectMetadata}
    (hm : s.metadata = some stored) {e : PyError} {code : ObjectErrorCode} (hcode : code ≠ .invalidRequest)
    (he : e.code? = some code) (hr : (h.stat T).Raises s e s') :
    ∃ refused : Refused T.toPackages (ObjectCatalogSurface.stat fixtureResource (storedWire T stored)) code,
      Extends s s' [refused.exchange] := by
  simp only [stat, raises_bind, returns_lift, raises_lift] at hr
  rcases hr with hr | ⟨wire, s₁, hwire, hr⟩
  · exact ((reference_raises hr).absurd hcode he).elim
  rcases hr with hr | ⟨answer, s₂, -, hr⟩
  · obtain ⟨stored', hm', rfl, rfl⟩ := reference_returns hwire
    obtain rfl : stored' = stored := Option.some.inj (hm'.symm.trans hm)
    exact refused_of_raises hT hcode he hr
  -- an answer, whatever it is, is rejected by the checks of the runner alone
  refine (IsRequestError.absurd ?_ hcode he).elim
  rcases hr with ⟨hresult, -⟩ | ⟨metadata, s₃, -, hr⟩
  · exact metadataResult_raises hT answer e hresult
  rcases hr with hr | ⟨stored', s₄, -, hassert, -⟩
  · exact requiredMetadata_raises hr
  · exact assertThat_raises _ _ e hassert

/-- A create-only put that raises what no check of a request raises was stopped by the target. -/
theorem create_raises (hT : T.RaisesDocumented IsRequestError) {digestValue : Option Str}
    {expression : PayloadReference → Expression} {e : PyError} {code : ObjectErrorCode}
    (hcode : code ≠ .invalidRequest) (he : e.code? = some code)
    (hr : (do
      let payload ← h.payloadReference T digestValue
      let _ ← h.execute T (expression payload) : RunnerRoutine T W Unit).Raises s e s') :
    ∃ (payload : PayloadReference) (refused : Refused T.toPackages (expression payload) code),
      Extends s s' [refused.exchange] := by
  simp only [raises_bind, not_raises_pure, and_false, exists_false, or_false] at hr
  rcases hr with hr | ⟨payload, s₁, hpayload, hr⟩
  · exact ((payloadReference_raises hr).absurd hcode he).elim
  · obtain ⟨refused, hlog⟩ := refused_of_raises hT hcode he hr
    exact ⟨payload, refused, (payloadReference_returns hpayload).trans hlog⟩

theorem get_returns {fuel : Nat} {stored : T.ObjectMetadata} (hm : s.metadata = some stored)
    (hr : (h.get T fuel).Returns s () s') :
    ∃ g : WholeGet T h stored, Extends s s' [g.get.exchange, g.delivered.exchange] := by
  simp only [get, returns_bind, returns_lift, assertThat_eq_ok, payloadResult_eq_ok, Prod.exists] at hr
  obtain ⟨wire, _, hwire, answer, s₁, hexecute, metadata, _, ⟨hresult, rfl⟩, _, _, ⟨hdigest, rfl⟩, reference, _,
    ⟨⟨document, hdocument, hparsed⟩, rfl⟩, identity, received, s₂, hreceive, _, _, ⟨hidentity, rfl⟩, rfl, rfl⟩ := hr
  obtain ⟨stored', hm', rfl, rfl⟩ := reference_returns hwire
  obtain rfl : stored' = stored := Option.some.inj (hm'.symm.trans hm)
  obtain ⟨operation, hnormal, hlog⟩ := execute_returns hexecute
  exact ⟨⟨⟨operation, answer, hnormal⟩, ⟨document, reference, identity, hdocument, hparsed⟩, hidentity⟩,
    hlog.trans (receive_returns hreceive)⟩

theorem range_returns {fuel : Nat} {stored : T.ObjectMetadata} (hm : s.metadata = some stored)
    (hr : (h.range T fuel).Returns s () s') :
    ∃ x : ExactRange T stored, Extends s s' [x.read.exchange, x.delivered.exchange] := by
  simp only [range, returns_bind, returns_lift, assertThat_eq_ok, payloadResult_eq_ok, Prod.exists] at hr
  obtain ⟨wire, _, hwire, answer, s₁, hexecute, reference, _, ⟨⟨document, hdocument, hparsed⟩, rfl⟩, identity,
    received, s₂, hreceive, _, _, ⟨rfl, rfl⟩, resolved, _, ⟨hresolve, rfl⟩, hequal, rfl⟩ := hr
  obtain ⟨stored', hm', rfl, rfl⟩ := reference_returns hwire
  obtain rfl : stored' = stored := Option.some.inj (hm'.symm.trans hm)
  obtain ⟨operation, hnormal, hlog⟩ := execute_returns hexecute
  cases hrange : Dict.get? answer.val (str "range") with
  | none =>
    rw [hrange] at hequal
    cases hequal
  | some v =>
    rw [hrange] at hequal
    exact ⟨⟨⟨operation, answer, hnormal⟩, ⟨document, reference, identity, hdocument, hparsed⟩, resolved, hresolve, v,
      hrange, hequal⟩, hlog.trans (receive_returns hreceive)⟩

theorem list_returns (hr : (h.list T).Returns s () s') : ∃ x : OneItem T h, Extends s s' [x.list.exchange] := by
  simp only [list, returns_bind, returns_lift, assertThat_eq_ok, listItem_eq_ok] at hr
  obtain ⟨answer, s₁, hexecute, item, _, ⟨hitem, rfl⟩, metadata, _, ⟨hparsed, rfl⟩, _, _, ⟨hdigest, rfl⟩, -, rfl⟩ := hr
  obtain ⟨operation, hnormal, hlog⟩ := execute_returns hexecute
  exact ⟨⟨⟨operation, answer, hnormal⟩, item, hitem, metadata, hparsed, hdigest⟩, hlog⟩

theorem delete_returns {stored : T.ObjectMetadata} (hm : s.metadata = some stored)
    (hr : (h.delete T).Returns s () s') : ∃ x : Deleted T stored, Extends s s' [x.delete.exchange] := by
  simp only [delete, returns_bind, returns_lift, assertThat_eq_ok] at hr
  obtain ⟨wire, _, hwire, answer, s₁, hexecute, hequal, rfl⟩ := hr
  obtain ⟨stored', hm', rfl, rfl⟩ := reference_returns hwire
  obtain rfl : stored' = stored := Option.some.inj (hm'.symm.trans hm)
  obtain ⟨operation, hnormal, hlog⟩ := execute_returns hexecute
  exact ⟨⟨⟨operation, answer, hnormal⟩, hequal⟩, hlog⟩

/-! ## Checks -/

theorem check_returns {name : Str} {action : RunnerRoutine T W Unit} {c : ConformanceCheck}
    (hr : (check T name action).Returns s c s') : c.name = name ∧ (c.passed = true → action.Returns s () s') := by
  simp only [check, returns_bind, returns_outcome] at hr
  obtain ⟨result, s₁, haction, hr⟩ := hr
  cases result with
  | error e =>
    obtain ⟨rfl, rfl⟩ := returns_pure.mp hr
    exact ⟨rfl, fun hp => by cases hp⟩
  | ok u =>
    obtain ⟨rfl, rfl⟩ := returns_pure.mp hr
    exact ⟨rfl, fun _ => haction⟩

theorem expected_returns {name : Str} {code : ObjectErrorCode} {action : RunnerRoutine T W Unit}
    {c : ConformanceCheck} (hr : (expected T name code action).Returns s c s') :
    c.name = name ∧ (c.passed = true → ∃ e, e.code? = some code ∧ action.Raises s e s') := by
  simp only [expected, returns_bind, returns_outcome] at hr
  obtain ⟨result, s₁, haction, hr⟩ := hr
  cases result with
  | error e =>
    obtain ⟨rfl, rfl⟩ := returns_pure.mp hr
    split
    · next he => exact ⟨rfl, fun _ => ⟨e, he, haction⟩⟩
    · exact ⟨rfl, fun hp => by cases hp⟩
  | ok u =>
    obtain ⟨rfl, rfl⟩ := returns_pure.mp hr
    exact ⟨rfl, fun hp => by cases hp⟩

/-- A run that returns. -/
theorem run_returns (hT : T.RaisesDocumented IsRequestError) {fuel : Nat} {report : ConformanceReport}
    (hr : (h.run T fuel).Returns s report s') :
    report.checks.map ConformanceCheck.name = conformanceChecks ∧
      (report.passed = true → ∃ r : PassedRun T h, s'.log = s.log ++ r.log) := by
  simp only [run, returns_bind, returns_step, returns_pure, Prod.mk.injEq] at hr
  obtain ⟨_, s₀, ⟨-, rfl⟩, c₁, s₁, h₁, c₂, s₂, h₂, c₃, s₃, h₃, c₄, s₄, h₄, c₅, s₅, h₅, c₆, s₆, h₆, c₇, s₇, h₇,
    c₈, s₈, h₈, c₉, s₉, h₉, targetId, s₁₀, ⟨-, rfl⟩, rfl, rfl⟩ := hr
  obtain ⟨n₁, h₁⟩ := check_returns h₁
  obtain ⟨n₂, h₂⟩ := check_returns h₂
  obtain ⟨n₃, h₃⟩ := check_returns h₃
  obtain ⟨n₄, h₄⟩ := check_returns h₄
  obtain ⟨n₅, h₅⟩ := check_returns h₅
  obtain ⟨n₆, h₆⟩ := expected_returns h₆
  obtain ⟨n₇, h₇⟩ := expected_returns h₇
  obtain ⟨n₈, h₈⟩ := check_returns h₈
  obtain ⟨n₉, h₉⟩ := expected_returns h₉
  refine ⟨by simp only [List.map_cons, List.map_nil, n₁, n₂, n₃, n₄, n₅, n₆, n₇, n₈, n₉, conformanceChecks], ?_⟩
  intro hpassed
  simp only [ConformanceReport.passed, List.isEmpty_cons, Bool.not_false, Bool.true_and, List.all_cons,
    List.all_nil, Bool.and_true, Bool.and_eq_true] at hpassed
  obtain ⟨p₁, p₂, p₃, p₄, p₅, p₆, p₇, p₈, p₉⟩ := hpassed
  obtain ⟨stored, log₁, m₁⟩ := put_returns (h₁ p₁)
  obtain ⟨stat, e₂⟩ := stat_returns m₁ (h₂ p₂)
  have m₂ := e₂.metadata.trans m₁
  obtain ⟨get, e₃⟩ := get_returns m₂ (h₃ p₃)
  have m₃ := e₃.metadata.trans m₂
  obtain ⟨range, e₄⟩ := range_returns m₃ (h₄ p₄)
  have m₄ := e₄.metadata.trans m₃
  obtain ⟨list, e₅⟩ := list_returns (h₅ p₅)
  have m₅ := e₅.metadata.trans m₄
  obtain ⟨_, code₆, r₆⟩ := h₆ p₆
  obtain ⟨duplicatePayload, duplicate, e₆⟩ := create_raises hT (by decide) code₆ r₆
  have m₆ := e₆.metadata.trans m₅
  obtain ⟨_, code₇, r₇⟩ := h₇ p₇
  obtain ⟨mismatchPayload, mismatch, e₇⟩ := create_raises hT (by decide) code₇ r₇
  have m₇ := e₇.metadata.trans m₆
  obtain ⟨deleted, e₈⟩ := delete_returns m₇ (h₈ p₈)
  have m₈ := e₈.metadata.trans m₇
  obtain ⟨_, code₉, r₉⟩ := h₉ p₉
  obtain ⟨missing, e₉⟩ := stat_raises hT m₈ (by decide) code₉ r₉
  refine ⟨⟨stored, stat, get, range, list, duplicatePayload, duplicate, mismatchPayload, mismatch, deleted, missing⟩, ?_⟩
  have hall := e₂.trans (e₃.trans (e₄.trans (e₅.trans (e₆.trans (e₇.trans (e₈.trans e₉))))))
  rw [hall.log, log₁, List.append_assoc]
  rfl

/-! ## Ending -/

theorem receive_ends {fuel : Nat} (hfuel : h.bufferLimit < fuel) (reference : PayloadReference) :
    (h.receive T fuel reference).Ends := by
  refine Ends.of_exists fun s => ?_
  obtain ⟨r, hr⟩ : ∃ r, transferPayload h.heap (h.streams.intoBuffer h.bufferLimit) h.hasher fuel (.reference reference)
      (.int defaultChunkSize) ⟨s.store, (s.world, []), []⟩ = some r := transferPayload_ends hfuel _ _
  unfold receive
  rw [hr]
  exact ⟨_, rfl⟩

theorem executeOperation_ends (operation : Operation) : (h.executeOperation T operation).Ends := Ends.step _

theorem execute_ends (expression : Expression) : (h.execute T expression).Ends :=
  (Ends.lift _).bind fun _ => (Ends.lift _).bind fun operation => executeOperation_ends operation

theorem payloadReference_ends (digestValue : Option Str) : (h.payloadReference T digestValue).Ends := Ends.step _

theorem requiredMetadata_ends : (requiredMetadata T : RunnerRoutine T W _).Ends := by
  refine Ends.of_exists fun s => ?_
  unfold requiredMetadata
  cases s.metadata with
  | none => exact ⟨_, rfl⟩
  | some m => exact ⟨_, rfl⟩

theorem reference_ends : (reference T : RunnerRoutine T W _).Ends :=
  requiredMetadata_ends.bind fun _ => Ends.pure _

theorem put_ends : (h.put T).Ends :=
  (payloadReference_ends _).bind fun _ => (execute_ends _).bind fun _ => (Ends.lift _).bind fun _ =>
    (Ends.lift _).bind fun _ => (Ends.lift _).bind fun _ => (Ends.lift _).bind fun _ => Ends.step _

theorem stat_ends : (h.stat T).Ends :=
  reference_ends.bind fun _ => (execute_ends _).bind fun _ => (Ends.lift _).bind fun _ =>
    requiredMetadata_ends.bind fun _ => Ends.lift _

theorem get_ends {fuel : Nat} (hfuel : h.bufferLimit < fuel) : (h.get T fuel).Ends :=
  reference_ends.bind fun _ => (execute_ends _).bind fun _ => (Ends.lift _).bind fun _ =>
    (Ends.lift _).bind fun _ => (Ends.lift _).bind fun _ => (receive_ends hfuel _).bind fun _ =>
    (Ends.lift _).bind fun _ => Ends.lift _

theorem range_ends {fuel : Nat} (hfuel : h.bufferLimit < fuel) : (h.range T fuel).Ends :=
  reference_ends.bind fun _ => (execute_ends _).bind fun _ => (Ends.lift _).bind fun _ =>
    (receive_ends hfuel _).bind fun _ => (Ends.lift _).bind fun _ => (Ends.lift _).bind fun _ => Ends.lift _

theorem list_ends : (h.list T).Ends :=
  (execute_ends _).bind fun _ => (Ends.lift _).bind fun _ => (Ends.lift _).bind fun _ =>
    (Ends.lift _).bind fun _ => Ends.lift _

theorem duplicate_ends : (h.duplicate T).Ends :=
  (payloadReference_ends _).bind fun _ => (execute_ends _).bind fun _ => Ends.pure _

theorem digestMismatch_ends : (h.digestMismatch T).Ends :=
  (payloadReference_ends _).bind fun _ => (execute_ends _).bind fun _ => Ends.pure _

theorem delete_ends : (h.delete T).Ends :=
  reference_ends.bind fun _ => (execute_ends _).bind fun _ => Ends.lift _

theorem check_succeeds {action : RunnerRoutine T W Unit} (ha : action.Ends) (name : Str) :
    (check T name action).Succeeds := by
  refine (Succeeds.outcome ha).bind fun result => ?_
  cases result with
  | error e => exact Succeeds.pure _
  | ok u => exact Succeeds.pure _

theorem expected_succeeds {action : RunnerRoutine T W Unit} (ha : action.Ends) (name : Str)
    (code : ObjectErrorCode) : (expected T name code action).Succeeds := by
  refine (Succeeds.outcome ha).bind fun result => ?_
  cases result with
  | error e => exact Succeeds.pure _
  | ok u => exact Succeeds.pure _

/-- **A run returns a report**, whatever the target and the streams do: a transfer that does not end would have to
fill the buffer for ever. -/
theorem run_succeeds {fuel : Nat} (hfuel : h.bufferLimit < fuel) : (h.run T fuel).Succeeds := by
  unfold run
  refine Succeeds.bind (Succeeds.step fun s => ⟨_, _, rfl⟩) fun _ => ?_
  refine (check_succeeds put_ends _).bind fun _ => ?_
  refine (check_succeeds stat_ends _).bind fun _ => ?_
  refine (check_succeeds (get_ends hfuel) _).bind fun _ => ?_
  refine (check_succeeds (range_ends hfuel) _).bind fun _ => ?_
  refine (check_succeeds list_ends _).bind fun _ => ?_
  refine (expected_succeeds duplicate_ends _ _).bind fun _ => ?_
  refine (expected_succeeds digestMismatch_ends _ _).bind fun _ => ?_
  refine (check_succeeds delete_ends _).bind fun _ => ?_
  refine (expected_succeeds stat_ends _ _).bind fun _ => ?_
  refine Succeeds.bind (Succeeds.step fun s => ⟨_, _, rfl⟩) fun _ => ?_
  exact Succeeds.pure _

/-- **The verdict is sound for every target**: a run returns a report with the nine checks, and when it passed,
all that happened between the runner and the target is a `PassedRun`. -/
theorem run_sound (hT : T.RaisesDocumented IsRequestError) (h : Harness W) {fuel : Nat}
    (hfuel : h.bufferLimit < fuel) (world : W) :
    ∃ report s', h.run T fuel { world := world } = some (.ok report, s') ∧
      report.checks.map ConformanceCheck.name = conformanceChecks ∧
      (report.passed = true → ∃ r : PassedRun T h, s'.log = r.log) := by
  obtain ⟨report, s', hr⟩ := run_succeeds (T := T) hfuel { world := world }
  obtain ⟨hnames, hpassed⟩ := run_returns hT hr
  exact ⟨report, s', hr, hnames, hpassed⟩

/-- The store of the fixture passes, so its run was a `PassedRun`. -/
theorem run_sound_fixture :
    ∃ report s', fixtureHarness.run clientContracts 65 { world := {} } = some (.ok report, s') ∧
      report.passed = true ∧ ∃ r : PassedRun clientContracts fixtureHarness, s'.log = r.log := by
  obtain ⟨report, s', hr, -, hsound⟩ :=
    run_sound Contracts.client_raisesRequestErrors fixtureHarness (show 64 < 65 by decide) {}
  have hpassed : (fixtureHarness.run clientContracts 65 { world := {} }).any
      (fun r => r.1.toOption.any ConformanceReport.passed) = true := by decide +kernel
  rw [hr] at hpassed
  have hpassed : report.passed = true := hpassed
  exact ⟨report, s', hr, hpassed, hsound hpassed⟩

end Harness

end ObjectCommon
