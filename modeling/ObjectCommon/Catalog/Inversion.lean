import ObjectCommon.Catalog.Request

/-!
# Normalization inverted

* `validatePut_eq_ok`, `validateRead_eq_ok`, ... : when each validator accepts, and what it returns;
* `ReadAs`, `Packages.Admits` : the requests that arguments denote, of which Core accepts the records;
* `Accepts` : an Expression is accepted as a request on a Resource;
* `normalizeArguments_eq_ok`, `normalize_eq_ok` : normalization accepts exactly the arguments that
  denote a request, and emits them with its updates.
-/

namespace ObjectCommon

open Outcome PyError

variable {P : Packages}

/-! ## Put -/

theorem new_merged (payload : PayloadReference) (d : Option Digest) (l : Option Nat) :
    PayloadReference.new (.str payload.token.val) (ByteRange.wireNat l) (wireDigest d)
      (.bool payload.replayable) = .ok { payload with expectedDigest := d, expectedLength := l } :=
  PayloadReference.new_eq_ok.mpr ⟨rfl, rfl, rfl, rfl, by rw [payload.formatVersion.2]⟩

theorem putPayload_eq_ok {value v : Object} {d : Option Digest} {l : Option Nat} :
    putPayload value = .ok (v, d, l) ↔
      ∃ raw payload, Dict.get? value "payload" = some (.obj raw) ∧
        PayloadReference.fromMapping raw = .ok payload ∧
        Dict.get? value "expectedDigest" = some (wireDigest d) ∧
        Dict.get? value "expectedLength" = some (ByteRange.wireNat l) ∧
        (payload.expectedDigest ≠ none → payload.expectedDigest = d) ∧
        (payload.expectedLength ≠ none → payload.expectedLength = l) ∧
        v = Dict.update value
          [("payload", .obj { payload with expectedDigest := d, expectedLength := l }.toDict),
            ("expectedDigest", wireDigest d), ("expectedLength", ByteRange.wireNat l)] := by
  simp only [putPayload, bind_eq_ok, exists_unit, getItem_eq_ok, asMapping_eq_ok, unlessNone_digest,
    ByteRange.unlessNone_nonNegativeInt, raiseIf_eq_ok, not_and, not_not, new_merged, Except.ok.injEq,
    pure_eq_ok, Prod.mk.injEq]
  constructor
  · rintro ⟨_, hp, raw, rfl, payload, hpay, _, hd, _, rfl, _, hl, _, rfl, had, hal, _, rfl, rfl, rfl, rfl⟩
    exact ⟨raw, payload, hp, hpay, hd, hl, had, hal, rfl⟩
  · rintro ⟨raw, payload, hp, hpay, hd, hl, had, hal, rfl⟩
    exact ⟨_, hp, raw, rfl, payload, hpay, _, hd, d, rfl, _, hl, l, rfl, had, hal, _, rfl, rfl, rfl, rfl⟩

theorem putIdentity_eq_ok {value : Object} {resource : ResourceRef} {d : Option Digest} {u : Unit} :
    putIdentity P value resource d = .ok u ↔
      ∃ (m : MediaType) (o : BoundedString 1024), Dict.get? value "mediaType" = some (.str m.val.val) ∧
        Dict.get? value "objectId" = some (.str o.val) ∧
        ∃ sr r, P.newResourceReference resource.namespaceName resource.name = .ok sr ∧
          P.newObjectReference sr (.str o.val) (wireDigest d) = .ok r := by
  simp only [putIdentity, bind_eq_ok, getItem_eq_ok, mediaType_eq_ok, boundedString_eq_ok, pure_eq_ok]
  constructor
  · rintro ⟨_, hm, m, rfl, _, ho, o, rfl, sr, hsr, r, hr, -⟩
    exact ⟨m, o, hm, ho, sr, r, hsr, hr⟩
  · rintro ⟨m, o, hm, ho, sr, r, hsr, hr⟩
    exact ⟨_, hm, m, rfl, _, ho, o, rfl, sr, hsr, r, hr, trivial⟩

theorem putMetadata_eq_ok {value v : Object} {n : Nat} :
    putMetadata value = .ok (v, n) ↔
      ∃ raw userMetadata creationContext provenance, Dict.get? value "userMetadata" = some (.obj raw) ∧
        stringMapping (.obj raw) "user metadata" 128 128 2048 = .ok userMetadata ∧
        Dict.get? value "creationContext" = some (.obj creationContext) ∧
        Dict.get? value "provenance" = some (.obj provenance) ∧
        v = Dict.update value [("userMetadata", .obj (wireStrings userMetadata)),
          ("creationContext", .obj creationContext), ("provenance", .obj provenance)] ∧
        n = userMetadata.length := by
  have hne : ∀ (d : Object) (w : Json), Dict.get? (Dict.set d "userMetadata" w) (str "creationContext") =
      Dict.get? d (str "creationContext") := fun d w => Dict.get?_set_ne d w (by simp)
  have hne' : ∀ (d : Object) (w w' : Json),
      Dict.get? (Dict.set (Dict.set d "userMetadata" w) "creationContext" w') (str "provenance") =
        Dict.get? d (str "provenance") := fun d w w' => by
    rw [Dict.get?_set_ne _ _ (by simp), Dict.get?_set_ne _ _ (by simp)]
  simp only [putMetadata, bind_eq_ok, getItem_eq_ok, jsonMapping, asMapping_eq_ok, pure_eq_ok,
    Prod.mk.injEq, hne, hne']
  constructor
  · rintro ⟨_, hu, m, hm, _, hc, c, rfl, _, hp, p, rfl, rfl, rfl⟩
    obtain ⟨raw, rfl⟩ := stringMapping_obj hm
    exact ⟨raw, m, c, p, hu, hm, hc, hp, rfl, rfl⟩
  · rintro ⟨raw, m, c, p, hu, hm, hc, hp, rfl, rfl⟩
    exact ⟨_, hu, m, hm, _, hc, c, rfl, _, hp, p, rfl, rfl, rfl⟩

theorem putImmutability_eq_ok {value v : Object} {gs gs' : List Str} :
    putImmutability value gs = .ok (v, gs') ↔
      ∃ immutability, (∃ j, Dict.get? value "immutability" = some j ∧
          NullableDocument ImmutabilityRequest.fromMapping j immutability) ∧
        v = Dict.update value (immutabilityUpdates immutability) ∧
        gs' = addSelected gs (immutabilityGuarantees immutability) := by
  simp only [putImmutability, bind_eq_ok, getItem_eq_ok, unlessNone_document_eq_ok]
  constructor
  · rintro ⟨j, hj, im, him, h⟩
    refine ⟨im, ⟨j, hj, him⟩, ?_⟩
    cases im <;> cases h <;> simp [immutabilityUpdates, immutabilityGuarantees, addSelected]
  · rintro ⟨im, ⟨j, hj, him⟩, rfl, rfl⟩
    refine ⟨j, hj, im, him, ?_⟩
    cases im <;> simp [immutabilityUpdates, immutabilityGuarantees, addSelected, pure_eq_ok]

theorem putRetention_eq_ok {value v : Object} {gs gs' : List Str} :
    putRetention value gs = .ok (v, gs') ↔
      ∃ retention, (∃ j, Dict.get? value "retention" = some j ∧
          NullableDocument RetentionRequest.fromMapping j retention) ∧
        v = Dict.update value (retentionUpdates retention) ∧
        gs' = addSelected gs (retentionGuarantees retention) := by
  simp only [putRetention, bind_eq_ok, getItem_eq_ok, unlessNone_document_eq_ok]
  constructor
  · rintro ⟨j, hj, rt, hrt, h⟩
    refine ⟨rt, ⟨j, hj, hrt⟩, ?_⟩
    cases rt <;> cases h <;> simp [retentionUpdates, retentionGuarantees, addSelected]
  · rintro ⟨rt, ⟨j, hj, hrt⟩, rfl, rfl⟩
    refine ⟨j, hj, rt, hrt, ?_⟩
    cases rt <;> simp [retentionUpdates, retentionGuarantees, addSelected, pure_eq_ok]

namespace PutRequest

/-- What each stage of a put's validation reads is what the arguments had at first. -/
structure Stages (p : PutRequest) (value : Object) : Prop where
  integrity : ∀ {k}, k ∉ ["payload", "expectedDigest", "expectedLength"] →
    Dict.get? (Dict.update value p.integrityUpdates) (str k) = Dict.get? value (str k)
  metadata : ∀ {k}, k ∉ ["payload", "expectedDigest", "expectedLength", "userMetadata", "creationContext",
      "provenance"] →
    Dict.get? (Dict.update (Dict.update value p.integrityUpdates) p.metadataUpdates) (str k) =
      Dict.get? value (str k)
  immutability : ∀ {k}, k ∉ ["payload", "expectedDigest", "expectedLength", "userMetadata", "creationContext",
      "provenance", "immutability"] →
    Dict.get? (Dict.update (Dict.update (Dict.update value p.integrityUpdates) p.metadataUpdates)
      (immutabilityUpdates p.immutability)) (str k) = Dict.get? value (str k)
  retention : ∀ {k}, k ∉ ["payload", "expectedDigest", "expectedLength", "userMetadata", "creationContext",
      "provenance", "immutability", "retention"] →
    Dict.get? (Dict.update (Dict.update (Dict.update (Dict.update value p.integrityUpdates) p.metadataUpdates)
      (immutabilityUpdates p.immutability)) (retentionUpdates p.retention)) (str k) = Dict.get? value (str k)

theorem notMem_integrityUpdates {p : PutRequest} {k : String}
    (h : k ∉ ["payload", "expectedDigest", "expectedLength"]) : str k ∉ Dict.keys p.integrityUpdates := by
  simpa [integrityUpdates] using h

theorem notMem_metadataUpdates {p : PutRequest} {k : String}
    (h : k ∉ ["userMetadata", "creationContext", "provenance"]) : str k ∉ Dict.keys p.metadataUpdates := by
  simpa [metadataUpdates] using h

theorem notMem_immutabilityUpdates {i : Option ImmutabilityRequest} {k : String} (h : k ≠ "immutability") :
    str k ∉ Dict.keys (immutabilityUpdates i) := by
  cases i <;> simp [immutabilityUpdates, h]

theorem notMem_retentionUpdates {r : Option RetentionRequest} {k : String} (h : k ≠ "retention") :
    str k ∉ Dict.keys (retentionUpdates r) := by
  cases r <;> simp [retentionUpdates, h]

theorem get?_stages (p : PutRequest) (value : Object) : p.Stages value where
  integrity h := Dict.get?_update_of_notMem (notMem_integrityUpdates h)
  metadata h := by
    simp only [List.mem_cons, List.not_mem_nil, not_or] at h
    rw [Dict.get?_update_of_notMem (notMem_metadataUpdates (by simp [h])),
      Dict.get?_update_of_notMem (notMem_integrityUpdates (by simp [h]))]
  immutability h := by
    simp only [List.mem_cons, List.not_mem_nil, not_or] at h
    rw [Dict.get?_update_of_notMem (notMem_immutabilityUpdates (by simp [h])),
      Dict.get?_update_of_notMem (notMem_metadataUpdates (by simp [h])),
      Dict.get?_update_of_notMem (notMem_integrityUpdates (by simp [h]))]
  retention h := by
    simp only [List.mem_cons, List.not_mem_nil, not_or] at h
    rw [Dict.get?_update_of_notMem (notMem_retentionUpdates (by simp [h])),
      Dict.get?_update_of_notMem (notMem_immutabilityUpdates (by simp [h])),
      Dict.get?_update_of_notMem (notMem_metadataUpdates (by simp [h])),
      Dict.get?_update_of_notMem (notMem_integrityUpdates (by simp [h]))]

theorem guarantees_nodup (p : PutRequest) :
    ((immutabilityGuarantees p.immutability ++ retentionGuarantees p.retention ++
      [(guaranteeConditionalCreate, p.createOnly)]).map Prod.fst).Nodup := by
  simp [immutabilityGuarantees, retentionGuarantees, guaranteeConditionalCreate,
    guaranteeImmutabilityIntent, guaranteeRetentionIntent, guaranteeRetentionEnforcement]

/-- The set that `_validate_put` builds has the guarantees of the request. -/
theorem addSelected_guarantees (p : PutRequest) :
    (if p.createOnly then
      setAdd (addSelected (addSelected [] (immutabilityGuarantees p.immutability))
        (retentionGuarantees p.retention)) guaranteeConditionalCreate
      else addSelected (addSelected [] (immutabilityGuarantees p.immutability))
        (retentionGuarantees p.retention)) = p.guarantees := by
  have hn := p.guarantees_nodup
  have hn' : ((immutabilityGuarantees p.immutability ++ retentionGuarantees p.retention).map Prod.fst).Nodup := by
    rw [List.map_append] at hn
    exact hn.of_append_left
  calc _ = addSelected (addSelected (addSelected (selected []) (immutabilityGuarantees p.immutability))
        (retentionGuarantees p.retention)) [(guaranteeConditionalCreate, p.createOnly)] := rfl
    _ = p.guarantees := by
      rw [addSelected_selected (by simp [immutabilityGuarantees]), List.nil_append,
        addSelected_selected hn', addSelected_selected hn]
      rfl

/-- The limits that `_validate_put` builds are those of the request. -/
theorem limits_eq (p : PutRequest) :
    (match p.expectedLength with
      | none => [(limitMaxUserMetadataEntries, p.userMetadata.length)]
      | some length =>
        Dict.set [(limitMaxUserMetadataEntries, p.userMetadata.length)] limitMaxObjectBytes length) =
      p.limits := by
  unfold limits
  cases p.expectedLength <;> rfl

/-- What `_validate_put` accumulates is what the request demands. -/
theorem demands_eq (p : PutRequest) :
    Demands.mk
      (if p.createOnly then
        setAdd (addSelected (addSelected [] (immutabilityGuarantees p.immutability))
          (retentionGuarantees p.retention)) guaranteeConditionalCreate
        else addSelected (addSelected [] (immutabilityGuarantees p.immutability))
          (retentionGuarantees p.retention))
      (match p.expectedLength with
        | none => [(limitMaxUserMetadataEntries, p.userMetadata.length)]
        | some length =>
          Dict.set [(limitMaxUserMetadataEntries, p.userMetadata.length)] limitMaxObjectBytes length)
      (p.createOnly || p.expectedDigest.isSome) = p.demands :=
  congrArg₂ (Demands.mk · · (p.createOnly || p.expectedDigest.isSome)) p.addSelected_guarantees p.limits_eq

end PutRequest

/-- **A put is accepted exactly when its arguments denote a request.** -/
theorem validatePut_eq_ok {value v : Object} {resource : ResourceRef} {demands : Demands} :
    validatePut P value resource = .ok (v, demands) ↔
      ∃ p : PutRequest, p.Reads P value resource ∧ v = Dict.update value p.updates ∧ demands = p.demands := by
  simp only [validatePut, bind_eq_ok, exists_unit, Prod.exists, putPayload_eq_ok, putIdentity_eq_ok,
    putMetadata_eq_ok, putImmutability_eq_ok, putRetention_eq_ok, getItem_eq_ok, asBool_eq_ok, pure_eq_ok,
    Prod.mk.injEq]
  constructor
  · rintro ⟨hf, _, d, l, ⟨raw, payload, hp, hpay, hd, hl, had, hal, rfl⟩, ⟨m, o, hm, ho, sr, r, hsr, hr⟩, _, _,
      ⟨um, u, c, pv, hum, hsm, hc, hpv, rfl, rfl⟩, _, _, ⟨im, ⟨j, hj, him⟩, rfl, rfl⟩, _, _,
      ⟨rt, ⟨j', hj', hrt⟩, rfl, rfl⟩, _, hco, b, rfl, rfl, rfl⟩
    let p : PutRequest := ⟨payload, d, l, m, o, u, c, pv, im, rt, b⟩
    have h := p.get?_stages value
    refine ⟨p, ⟨hf, ⟨⟨raw, hp, hpay⟩, hd, hl, had, hal⟩,
      ⟨(h.integrity (by decide)).symm.trans hm, (h.integrity (by decide)).symm.trans ho, sr, r, hsr, hr⟩,
      ⟨⟨um, (h.integrity (by decide)).symm.trans hum, hsm⟩, (h.integrity (by decide)).symm.trans hc,
        (h.integrity (by decide)).symm.trans hpv⟩,
      ⟨⟨j, (h.metadata (by decide)).symm.trans hj, him⟩, ⟨j', (h.immutability (by decide)).symm.trans hj', hrt⟩⟩,
      (h.retention (by decide)).symm.trans hco⟩, ?_, ?_⟩
    · rw [PutRequest.updates, Dict.update_append, Dict.update_append, Dict.update_append]
      rfl
    · exact p.demands_eq
  · rintro ⟨p, hr, rfl, rfl⟩
    have h := p.get?_stages value
    obtain ⟨hf, ⟨⟨raw, hp, hpay⟩, hd, hl, had, hal⟩, ⟨hm, ho, sr, r, hsr, hnr⟩, ⟨⟨um, hum, hsm⟩, hc, hpv⟩,
      ⟨⟨j, hj, him⟩, ⟨j', hj', hrt⟩⟩, hco⟩ := hr
    refine ⟨hf, _, p.expectedDigest, p.expectedLength, ⟨raw, p.payload, hp, hpay, hd, hl, had, hal, rfl⟩,
      ⟨p.mediaType, p.objectId, (h.integrity (by decide)).trans hm, (h.integrity (by decide)).trans ho, sr, r,
        hsr, hnr⟩, _, _,
      ⟨um, p.userMetadata, p.creationContext, p.provenance, (h.integrity (by decide)).trans hum, hsm,
        (h.integrity (by decide)).trans hc, (h.integrity (by decide)).trans hpv, rfl, rfl⟩, _, _,
      ⟨p.immutability, ⟨j, (h.metadata (by decide)).trans hj, him⟩, rfl, rfl⟩, _, _,
      ⟨p.retention, ⟨j', (h.immutability (by decide)).trans hj', hrt⟩, rfl, rfl⟩, _,
      (h.retention (by decide)).trans hco, p.createOnly, rfl, ?_, ?_⟩
    · rw [PutRequest.updates, Dict.update_append, Dict.update_append, Dict.update_append]
      rfl
    · exact p.demands_eq

/-! ## The other methods -/

theorem unlessNone_boundedString {value : Json} {field : String} {m : Nat} {r : Option (BoundedString m)} :
    unlessNone value (boundedString · field m) = .ok r ↔ value = wireString r :=
  unlessNone_eq_ok (fun _ _ => boundedString_eq_ok) (by simp)

theorem validatePublishSchema_eq_ok {value v : Object} :
    validatePublishSchema P value = .ok v ↔ ReadsPublishSchema P value ∧ v = value := by
  simp only [validatePublishSchema, bind_eq_ok, exists_unit, getItem_eq_ok, jsonMapping, asMapping_eq_ok,
    asBool_eq_ok, ByteRange.unlessNone_nonNegativeInt, pure_eq_ok]
  constructor
  · rintro ⟨hf, ns, hns, nm, hnm, ref, href, ver, hver, hs, _, hd, d, rfl, _, ha, b, rfl, _, hr, n, rfl, rfl⟩
    exact ⟨⟨hf, ⟨ns, nm, ver, ref, hns, hnm, href, hver, hs⟩, ⟨d, hd⟩, ⟨b, ha⟩, ⟨n, hr⟩⟩, rfl⟩
  · rintro ⟨⟨hf, ⟨ns, nm, ver, ref, hns, hnm, href, hver, hs⟩, ⟨d, hd⟩, ⟨b, ha⟩, ⟨n, hr⟩⟩, rfl⟩
    exact ⟨hf, ns, hns, nm, hnm, ref, href, ver, hver, hs, _, hd, d, rfl, _, ha, b, rfl, _, hr, n, rfl, rfl⟩

theorem validateCreateResource_eq_ok {value v : Object} :
    validateCreateResource P value = .ok v ↔
      ∃ profile options, ReadsCreateResource P value profile options ∧
        v = Dict.update value [("profile", .obj (P.profileToDict profile)), ("options", .obj options)] := by
  have hne : ∀ w, Dict.get? (Dict.set value "profile" w) (str "options") = Dict.get? value (str "options") :=
    fun w => Dict.get?_set_ne value w (by simp)
  simp only [validateCreateResource, bind_eq_ok, exists_unit, getItem_eq_ok, jsonMapping, asMapping_eq_ok,
    pure_eq_ok, hne]
  constructor
  · rintro ⟨hf, ns, hns, nm, hnm, ref, href, _, hp, raw, rfl, profile, hprofile, _, ho, options, rfl, rfl⟩
    exact ⟨profile, options, ⟨hf, ⟨ns, nm, ref, hns, hnm, href⟩, ⟨raw, hp, hprofile⟩, ho⟩, rfl⟩
  · rintro ⟨profile, options, ⟨hf, ⟨ns, nm, ref, hns, hnm, href⟩, ⟨raw, hp, hprofile⟩, ho⟩, rfl⟩
    exact ⟨hf, ns, hns, nm, hnm, ref, href, _, hp, raw, rfl, profile, hprofile, _, ho, options, rfl, rfl⟩

theorem validateRead_eq_ok {method : Str} {value v : Object} {resource : ResourceRef} {demands : Demands} :
    validateRead P method value resource = .ok (v, demands) ↔
      exactFields value ["resource", "reference"] = .ok () ∧
      ∃ reference, ReadsReference (P := P) value resource method false reference ∧
        v = Dict.update value [("reference", .obj reference.toDict)] ∧
        demands = { guarantees := referenceGuarantees reference.isSigned } := by
  simp only [validateRead, bind_eq_ok, exists_unit, Prod.exists, normalizeReference_eq_ok, pure_eq_ok,
    Prod.mk.injEq]
  refine and_congr_right fun _ => ?_
  constructor
  · rintro ⟨_, _, ⟨reference, hr, rfl, rfl⟩, rfl, rfl⟩
    exact ⟨reference, hr, rfl, rfl⟩
  · rintro ⟨reference, hr, rfl, rfl⟩
    exact ⟨_, _, ⟨reference, hr, rfl, rfl⟩, rfl, rfl⟩

theorem validateReadRange_eq_ok {method : Str} {value v : Object} {resource : ResourceRef}
    {demands : Demands} :
    validateReadRange P method value resource = .ok (v, demands) ↔
      exactFields value ["resource", "reference", "range"] = .ok () ∧
      ∃ reference range, ReadsReference (P := P) value resource method false reference ∧
        ReadsRange value range ∧
        v = Dict.update value [("reference", .obj reference.toDict), ("range", .obj range.toDict)] ∧
        demands = (Request.readRange reference range).demands := by
  have hne : ∀ w, Dict.get? (Dict.set value "reference" w) (str "range") = Dict.get? value (str "range") :=
    fun w => Dict.get?_set_ne value w (by simp)
  simp only [validateReadRange, bind_eq_ok, exists_unit, Prod.exists, normalizeReference_eq_ok, getItem_eq_ok,
    asMapping_eq_ok, ByteRange.requestedLength_eq, Except.ok.injEq, pure_eq_ok, Prod.mk.injEq]
  refine and_congr_right fun _ => ?_
  constructor
  · rintro ⟨_, _, ⟨reference, hr, rfl, rfl⟩, _, hrange, raw, rfl, range, hparse, _, rfl, rfl, rfl⟩
    exact ⟨reference, range, hr, ⟨raw, (hne _).symm.trans hrange, hparse⟩, rfl, rfl⟩
  · rintro ⟨reference, range, hr, ⟨raw, hrange, hparse⟩, rfl, rfl⟩
    exact ⟨_, _, ⟨reference, hr, rfl, rfl⟩, _, (hne _).trans hrange, raw, rfl, range, hparse, _, rfl, rfl, rfl⟩

theorem listPrefix_eq_ok {value : Json} {s : Str} :
    listPrefix value = .ok s ↔
      value = .str s ∧ ∃ n, utf8Length s = some n ∧ n ≤ 1024 ∧ s.any isControl = false := by
  cases value with
  | str s' =>
    unfold listPrefix
    dsimp only
    cases hn : utf8Length s' with
    | none =>
      simp only [reduceCtorEq, Json.str.injEq, false_iff]
      rintro ⟨rfl, n, h, -⟩
      rw [hn] at h
      cases h
    | some n =>
      simp only [bind_eq_ok, exists_unit, raiseIf_eq_ok, pure_eq_ok, Json.str.injEq, not_lt,
        Bool.not_eq_true]
      constructor
      · rintro ⟨hle, hc, rfl⟩
        exact ⟨rfl, n, hn, hle, hc⟩
      · rintro ⟨rfl, n', hn', hle, hc⟩
        obtain rfl : n = n' := Option.some.inj (hn.symm.trans hn')
        exact ⟨hle, hc, rfl⟩
  | _ => simp [listPrefix]

theorem validateList_eq_ok {value v : Object} {demands : Demands} :
    validateList value = .ok (v, demands) ↔
      ∃ limit, ReadsList value limit ∧ v = value ∧
        demands = { limits := [(limitMaxListPageSize, limit.val)] } := by
  simp only [validateList, bind_eq_ok, exists_unit, getItem_eq_ok, listPrefix_eq_ok, positiveInt_eq_ok,
    raiseIf_eq_ok, not_lt, unlessNone_boundedString, Bool.not_eq_false, Json.isStr_iff, pure_eq_ok,
    Prod.mk.injEq]
  constructor
  · rintro ⟨hf, _, hp, s, ⟨rfl, n, hn, hle, hc⟩, _, hl, limit, rfl, hlim, _, hcur, c, rfl, _, hpur, rfl, rfl, rfl⟩
    exact ⟨limit, ⟨hf, ⟨s, n, hp, hn, hle, hc⟩, hl, hlim, ⟨c, hcur⟩, hpur⟩, rfl, rfl⟩
  · rintro ⟨limit, ⟨hf, ⟨s, n, hp, hn, hle, hc⟩, hl, hlim, ⟨c, hcur⟩, hpur⟩, rfl, rfl⟩
    exact ⟨hf, _, hp, s, ⟨rfl, n, hn, hle, hc⟩, _, hl, limit, rfl, hlim, _, hcur, c, rfl, _, hpur, rfl, rfl, rfl⟩

theorem validateDelete_eq_ok {method : Str} {value v : Object} {resource : ResourceRef} {demands : Demands} :
    validateDelete P method value resource = .ok (v, demands) ↔
      exactFields value ["resource", "reference", "reason"] = .ok () ∧
      ∃ reference, ReadsReference (P := P) value resource method true reference ∧ ReadsReason value ∧
        v = Dict.update value [("reference", .obj reference.toDict)] ∧ demands = {} := by
  have hne : ∀ w, Dict.get? (Dict.set value "reference" w) (str "reason") = Dict.get? value (str "reason") :=
    fun w => Dict.get?_set_ne value w (by simp)
  simp only [validateDelete, bind_eq_ok, exists_unit, Prod.exists, normalizeReference_eq_ok, getItem_eq_ok,
    unlessNone_boundedString, pure_eq_ok, Prod.mk.injEq]
  refine and_congr_right fun _ => ?_
  constructor
  · rintro ⟨_, _, ⟨reference, hr, rfl, rfl⟩, _, hreason, c, rfl, rfl, rfl⟩
    exact ⟨reference, hr, ⟨c, (hne _).symm.trans hreason⟩, rfl, rfl⟩
  · rintro ⟨reference, hr, ⟨c, hreason⟩, rfl, rfl⟩
    exact ⟨_, _, ⟨reference, hr, rfl, rfl⟩, _, (hne _).trans hreason, c, rfl, rfl, rfl⟩

/-! ## Normalization -/

/-- The arguments accepted for a method on a Resource are those that denote a request. -/
theorem validateDataArguments_eq_ok {method : Str} {value v : Object} {resource : ResourceRef}
    {demands : Demands} (hm : method ≠ str "publish_schema" ∧ method ≠ str "create_resource")
    (hr : ReadsResource P value resource) :
    validateDataArguments P method value resource = .ok (v, demands) ↔
      ∃ r : Request P, r.Reads method value resource ∧ v = Dict.update value r.updates ∧ demands = r.demands := by
  unfold validateDataArguments
  constructor
  · intro h
    split at h
    · next hp =>
      obtain ⟨p, hp', rfl, rfl⟩ := validatePut_eq_ok.mp h
      exact ⟨.put p, ⟨hp, hr, hp'⟩, rfl, rfl⟩
    split at h
    · next hg =>
      obtain ⟨hf, reference, href, rfl, rfl⟩ := validateRead_eq_ok.mp h
      exact ⟨.read reference, ⟨hg, hr, hf, href⟩, rfl, rfl⟩
    split at h
    · next hg =>
      obtain ⟨hf, reference, range, href, hrange, rfl, rfl⟩ := validateReadRange_eq_ok.mp h
      exact ⟨.readRange reference range, ⟨hg, hr, hf, href, hrange⟩, rfl, rfl⟩
    split at h
    · next hg =>
      obtain ⟨limit, hl, rfl, rfl⟩ := validateList_eq_ok.mp h
      exact ⟨.list limit, ⟨hg, hr, hl⟩, rfl, rfl⟩
    split at h
    · next hg =>
      obtain ⟨hf, reference, href, hreason, rfl, rfl⟩ := validateDelete_eq_ok.mp h
      exact ⟨.delete reference, ⟨hg, hr, hf, href, hreason⟩, rfl, rfl⟩
    · cases h
  · rintro ⟨r, hreads, rfl, rfl⟩
    cases r with
    | publishSchema => exact absurd hreads.1 hm.1
    | createResource => exact absurd hreads.1 hm.2
    | put p =>
      obtain ⟨rfl, -, hp⟩ := hreads
      rw [if_pos rfl]
      exact validatePut_eq_ok.mpr ⟨p, hp, rfl, rfl⟩
    | read reference =>
      obtain ⟨hg, -, hf, href⟩ := hreads
      have hput : method ≠ str "put" := by rcases hg with rfl | rfl <;> simp
      rw [if_neg hput, if_pos hg]
      exact validateRead_eq_ok.mpr ⟨hf, reference, href, rfl, rfl⟩
    | readRange reference range =>
      obtain ⟨rfl, -, hf, href, hrange⟩ := hreads
      rw [if_neg (by simp), if_neg (by simp), if_pos rfl]
      exact validateReadRange_eq_ok.mpr ⟨hf, reference, range, href, hrange, rfl, rfl⟩
    | list limit =>
      obtain ⟨rfl, -, hl⟩ := hreads
      rw [if_neg (by simp), if_neg (by simp), if_neg (by simp), if_pos rfl]
      exact validateList_eq_ok.mpr ⟨limit, hl, rfl, rfl⟩
    | delete reference =>
      obtain ⟨rfl, -, hf, href, hreason⟩ := hreads
      rw [if_neg (by simp), if_neg (by simp), if_neg (by simp), if_neg (by simp), if_pos rfl]
      exact validateDelete_eq_ok.mpr ⟨hf, reference, href, hreason, rfl, rfl⟩

/-- **The arguments accepted for a method are those that denote a request and have no private key**;
they are emitted with the request's updates. -/
theorem normalizeArguments_eq_ok {method : Str} {arguments v : Object} {resource : ResourceRef}
    {demands : Demands} :
    normalizeArguments P method arguments = .ok (v, resource, demands) ↔
      ¬ HasPrivateKey (.obj arguments) ∧ ∃ r : Request P, r.Reads method arguments resource ∧
        v = Dict.update arguments r.updates ∧ demands = r.demands := by
  rw [normalizeArguments, bind_eq_ok, exists_unit, rejectPrivateConfiguration_eq_ok]
  refine and_congr_right fun _ => ?_
  by_cases hps : method = str "publish_schema"
  · subst hps
    simp only [true_or, if_true, bind_eq_ok, validateRegistryArguments, validatePublishSchema_eq_ok,
      pure_eq_ok, Prod.mk.injEq]
    constructor
    · rintro ⟨_, ⟨h, rfl⟩, rfl, rfl, rfl⟩
      exact ⟨.publishSchema, ⟨rfl, rfl, h⟩, rfl, rfl⟩
    · rintro ⟨r, hr, rfl, rfl⟩
      cases r with
      | publishSchema => exact ⟨_, ⟨hr.2.2, rfl⟩, rfl, hr.2.1.symm, rfl⟩
      | _ => simp [Request.Reads] at hr
  · by_cases hcr : method = str "create_resource"
    · subst hcr
      simp only [hps, or_true, if_true, if_false, bind_eq_ok, validateRegistryArguments,
        validateCreateResource_eq_ok, pure_eq_ok, Prod.mk.injEq]
      constructor
      · rintro ⟨_, ⟨profile, options, h, rfl⟩, rfl, rfl, rfl⟩
        exact ⟨.createResource profile options, ⟨rfl, rfl, h⟩, rfl, rfl⟩
      · rintro ⟨r, hr, rfl, rfl⟩
        cases r with
        | createResource profile options =>
          exact ⟨_, ⟨profile, options, hr.2.2, rfl⟩, rfl, hr.2.1.symm, rfl⟩
        | _ => simp [Request.Reads] at hr
    · simp only [hps, hcr, or_self, if_false, bind_eq_ok, Prod.exists, pure_eq_ok, Prod.mk.injEq]
      constructor
      · rintro ⟨res, hres, v', d, h, rfl, rfl, rfl⟩
        exact (validateDataArguments_eq_ok ⟨hps, hcr⟩ hres).mp h
      · rintro ⟨r, hr, rfl, rfl⟩
        have hres : ReadsResource P arguments resource := by
          cases r with
          | publishSchema => exact absurd hr.1 hps
          | createResource => exact absurd hr.1 hcr
          | _ => exact hr.2.1
        exact ⟨resource, hres, _, _, (validateDataArguments_eq_ok ⟨hps, hcr⟩ hres).mpr ⟨r, hr, rfl, rfl⟩,
          rfl, rfl, rfl⟩

/-- The requirement of a request on one operation. -/
def requirementOf (P : Packages) (method : Str) (demands : Demands) : CapabilityRequirement where
  operationContract := str "meridian.object." ++ method
  operationVersion := objectOperationVersion
  guarantees := P.tupleOfSet demands.guarantees
  minimumLimits := demands.limits

/-- The requirements of a request: none when nothing is demanded. -/
def requirementsOf (P : Packages) (method : Str) (demands : Demands) : List CapabilityRequirement :=
  if demands.guarantees ≠ [] ∨ demands.limits ≠ [] then [requirementOf P method demands] else []

theorem requirements_eq_ok {method : Str} {demands : Demands} {l : List CapabilityRequirement} :
    requirements P method demands = .ok l ↔
      l = requirementsOf P method demands ∧ ∀ r ∈ l, P.checkRequirement r = .ok () := by
  unfold requirements requirementsOf
  split
  · simp only [objectRequirement, bind_eq_ok, exists_unit, pure_eq_ok]
    constructor
    · rintro ⟨_, ⟨hc, rfl⟩, rfl⟩
      exact ⟨rfl, by simpa using hc⟩
    · rintro ⟨rfl, hc⟩
      exact ⟨_, ⟨hc _ (List.mem_singleton_self _), rfl⟩, rfl⟩
  · rw [pure_eq_ok]
    constructor
    · rintro rfl
      exact ⟨rfl, by simp⟩
    · rintro ⟨rfl, -⟩
      rfl

/-- The Operation of a request. -/
def operationOf (P : Packages) (e : Expression) (contract : OperationContract) (resource : ResourceRef)
    (r : Request P) : Operation where
  catalog := "object"
  operationContract := contract.operationContract
  operationVersion := contract.operationVersion
  resources := [resource]
  input := Dict.update e.arguments r.updates
  requirements := requirementsOf P e.method r.demands
  readOnly := contract.readOnly
  idempotent := r.demands.idempotent

/-- An Expression is read as a request on a Resource. -/
structure ReadAs (P : Packages) (e : Expression) (contract : OperationContract) (resource : ResourceRef)
    (r : Request P) : Prop where
  catalog : e.catalog = str "object"
  method : P.operationFor objectOperations e.method = .ok contract
  noPrivateKey : ¬ HasPrivateKey (.obj e.arguments)
  reads : r.Reads e.method e.arguments resource

/-- `CapabilityRequirement` and `Operation` accept the records that `normalize` builds. -/
structure Packages.Admits (P : Packages) : Prop where
  checkRequirement : ∀ e contract resource (r : Request P), ReadAs P e contract resource r →
    ∀ q ∈ requirementsOf P e.method r.demands, P.checkRequirement q = .ok ()
  checkOperation : ∀ e contract resource (r : Request P), ReadAs P e contract resource r →
    P.checkOperation (operationOf P e contract resource r) = .ok ()

/-- An Expression is accepted as a request on a Resource. -/
structure Accepts (P : Packages) (e : Expression) (contract : OperationContract) (resource : ResourceRef)
    (r : Request P) : Prop extends ReadAs P e contract resource r where
  requirements : ∀ q ∈ requirementsOf P e.method r.demands, P.checkRequirement q = .ok ()
  operation : P.checkOperation (operationOf P e contract resource r) = .ok ()

/-- What is read as a request is accepted, if its records are. -/
theorem ReadAs.accepts {e : Expression} {contract : OperationContract} {resource : ResourceRef} {r : Request P}
    (h : ReadAs P e contract resource r) (hA : P.Admits) : Accepts P e contract resource r :=
  ⟨h, hA.checkRequirement _ _ _ _ h, hA.checkOperation _ _ _ _ h⟩

/-- **Normalization inverted**: it returns the Operation of the request the Expression denotes. -/
theorem normalize_eq_ok {e : Expression} {o : Operation} :
    normalize P e = .ok o ↔
      ∃ contract resource r, Accepts P e contract resource r ∧ o = operationOf P e contract resource r := by
  simp only [normalize, bind_eq_ok, exists_unit, raiseIf_eq_ok, not_not, mapError_eq_ok, Prod.exists,
    normalizeArguments_eq_ok, requirements_eq_ok, pure_eq_ok]
  constructor
  · rintro ⟨hcat, contract, hcon, _, resource, _, ⟨hpriv, r, hr, rfl, rfl⟩, _, ⟨rfl, hreq⟩, hop, rfl⟩
    exact ⟨contract, resource, r, ⟨⟨hcat, hcon, hpriv, hr⟩, hreq, hop⟩, rfl⟩
  · rintro ⟨contract, resource, r, ⟨⟨hcat, hcon, hpriv, hr⟩, hreq, hop⟩, rfl⟩
    exact ⟨hcat, contract, hcon, _, resource, _, ⟨hpriv, r, hr, rfl, rfl⟩, _, ⟨rfl, hreq⟩, hop, rfl⟩

theorem Contracts.admits : contracts.Admits := ⟨fun _ _ _ _ _ _ _ => rfl, fun _ _ _ _ _ => rfl⟩

end ObjectCommon
