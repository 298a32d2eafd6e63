import ObjectCommon.Catalog.Inversion
import ObjectCommon.Schemas.Agreement

/-!
# Normalization and the published Expression contract

* `Packages.ParsesContract` : the parsers of Core and Semantics accept only what the schemas describe;
* `Expression.document` : the serialized Expression;
* `expressionSchema_iff` : an Expression is in the contract by the alternative of its method;
* `NullMember` : a member of an argument that is there, and null;
* `accepted_in_contract_iff` : an accepted Expression is in the contract unless the end of its range or
  the digest of its reference is such a member.
-/

namespace ObjectCommon

open Outcome PyError Schema

/-- The parsers of Core and Semantics accept only what the schemas describe. -/
structure Packages.ParsesContract (P : Packages) : Prop where
  newResourceRef : ∀ n m r, P.newResourceRef "object" n m = .ok r →
    logicalNameSchema n = true ∧ logicalNameSchema m = true
  parseResourceRef : ∀ v r, P.parseResourceRef v "object" = .ok r → resourceSchema v = true
  newSchemaRef : ∀ n m v u, P.newSchemaRef "object" n m v = .ok u → text [minLength 1, maxLength 64] v = true
  parseResourceReference : ∀ raw r, P.parseResourceReference raw = .ok r → resourceRefSchema (.obj raw) = true
  newObjectReference : ∀ resource objectId digest r, P.newObjectReference resource objectId digest = .ok r →
    objectIdSchema objectId = true ∧ nullable digestSchema digest = true
  profileFromMapping : ∀ raw q p, P.profileFromMapping raw = .ok q → P.asObjectProfile q = some p →
    profileSchema (.obj raw) = true

variable {P : Packages}

/-! ## References -/

theorem digestSchema_null : digestSchema .null = false := rfl

/-- An Object reference document is in the contract unless it has a null digest. -/
theorem objectRefSchema_iff (hP : P.ParsesContract) {raw : Object} {r : P.ObjectReference}
    (h : readObjectReference P (.document raw) = .ok r) :
    objectRefSchema (.obj raw) = true ↔ Dict.get? raw "digest" ≠ some .null := by
  obtain ⟨hf, resourceRef, resource, objectId, hres, hparse, hid, hnew⟩ := readObjectReference_document_eq_ok.mp h
  obtain ⟨hreq, hkeys⟩ := exactFields_eq_ok.mp hf
  obtain ⟨hidSchema, hdigest⟩ := hP.newObjectReference _ _ _ _ hnew
  have hresSchema := hP.parseResourceReference _ _ hparse
  constructor
  · intro hs hnull
    obtain ⟨d, hd, -, -, hp⟩ := record_iff.mp hs
    cases hd
    have hdigest : digestSchema .null = true := hp ("digest", digestSchema) (by simp) .null hnull
    rw [digestSchema_null] at hdigest
    cases hdigest
  · intro hne
    refine record_iff.mpr ⟨raw, rfl, hreq, fun k hk => ?_, ?_⟩
    · simpa [or_assoc] using hkeys k hk
    · simp only [List.forall_mem_cons, List.not_mem_nil, false_imp_iff, implies_true, and_true, hres, hid,
        Option.some.injEq, forall_eq']
      refine ⟨hresSchema, hidSchema, fun w hw => ?_⟩
      rw [hw, Option.getD_some, nullable_iff] at hdigest
      exact hdigest.resolve_right fun hnull => hne (hnull ▸ hw)

/-- An exact Object reference document is in the contract. -/
theorem exactObjectRefSchema_of_parse (hP : P.ParsesContract) (hS : P.StoresReference) {raw : Object}
    {r : P.ObjectReference} (h : parseObjectReference P (.document raw) true = .ok r) :
    exactObjectRefSchema (.obj raw) = true := by
  obtain ⟨hread, hexact⟩ := parseObjectReference_eq_ok.mp h
  obtain ⟨hf, resourceRef, resource, objectId, hres, hparse, hid, hnew⟩ :=
    readObjectReference_document_eq_ok.mp hread
  obtain ⟨-, hdigest⟩ := hS.newObjectReference _ _ _ _ hnew
  obtain ⟨d, hd⟩ := Option.ne_none_iff_exists'.mp (hexact rfl)
  have hget : Dict.get? raw (str "digest") = some (.str d) := by
    rw [hd] at hdigest
    cases hraw : Dict.get? raw (str "digest") with
    | none => rw [hraw] at hdigest; cases hdigest
    | some v => rw [hraw] at hdigest; exact congrArg some hdigest
  have hs := (objectRefSchema_iff hP hread).mpr (by rw [hget]; simp)
  obtain ⟨d', hd', hreq, hkeys, hp⟩ := record_iff.mp hs
  cases hd'
  refine record_iff.mpr ⟨raw, rfl, ?_, hkeys, hp⟩
  simp only [List.forall_mem_cons, List.not_mem_nil, false_imp_iff, implies_true, and_true] at hreq ⊢
  exact ⟨hreq.1, hreq.2, Dict.mem_keys_of_get? hget⟩

/-- A signed reference that is read is in the contract. -/
theorem signedReferenceSchema_of_read (hP : P.ParsesContract) (hS : P.StoresReference) (hR : P.RoundTrips)
    {raw : Object} {s : SignedObjectReference P} (h : SignedObjectReference.fromMapping P raw = .ok s) :
    signedReferenceSchema (.obj raw) = true := by
  obtain ⟨objectRef, ops, hsame, hread, -, -⟩ := (SignedObjectReference.fromMapping_eq_ok hR).mp h
  have hget : Dict.get? raw "objectRef" = some (.obj objectRef) := by
    rw [hsame]
    simp [SignedObjectReference.documentOver, SignedObjectReference.claimsOver]
  have hparse : parseObjectReference P (.document objectRef) true = .ok s.objectRef :=
    parseObjectReference_eq_ok.mpr ⟨hread, fun _ => s.exact⟩
  have hexact : HasExactReference P raw :=
    ⟨⟨_, hget, exactObjectRefSchema_of_parse hP hS hparse⟩, _, _, hget, hparse⟩
  exact ((signedReferenceSchema_iff hR hexact).mpr ⟨s, h⟩).1

theorem hasSignedFormat_of_schema {raw : Object} (h : signedReferenceSchema (.obj raw) = true) :
    HasSignedFormat raw := by
  obtain ⟨-, hp⟩ := record_required_iff.mp h
  obtain ⟨v, hv, hconst⟩ := hp ("formatVersion", constant "meridian.object.signed-reference.v1") List.mem_cons_self
  rw [HasSignedFormat, hv]
  exact congrArg some (constant_iff.mp hconst)

theorem not_hasSignedFormat_of_schema {raw : Object} (h : objectRefSchema (.obj raw) = true) :
    ¬ HasSignedFormat raw := by
  intro hs
  obtain ⟨d, hd, -, hkeys, -⟩ := record_iff.mp h
  cases hd
  simpa using hkeys _ (Dict.mem_keys_of_get? hs)

/-- A logical reference is in the contract unless it has a null digest. -/
theorem referenceSchema_iff (hP : P.ParsesContract) (hS : P.StoresReference) (hR : P.RoundTrips) {raw : Object}
    {reference : LogicalReference P} (h : parseLogicalReference P raw = .ok reference) :
    referenceSchema (.obj raw) = true ↔ Dict.get? raw "digest" ≠ some .null := by
  have hdisjoint : [objectRefSchema, signedReferenceSchema].Pairwise
      fun S T => S (.obj raw) = true → T (.obj raw) = false := by
    simp only [List.pairwise_cons, List.mem_singleton, forall_eq, List.not_mem_nil, false_imp_iff, implies_true,
      List.Pairwise.nil, and_true]
    intro ho
    exact Bool.eq_false_iff.mpr fun hs => not_hasSignedFormat_of_schema ho (hasSignedFormat_of_schema hs)
  rw [referenceSchema, oneOf_iff hdisjoint]
  simp only [List.mem_cons, List.not_mem_nil, or_false, exists_eq_or_imp, exists_eq_left]
  cases reference with
  | object r =>
    obtain ⟨hformat, hread⟩ := parseLogicalReference_object_eq_ok.mp h
    rw [← objectRefSchema_iff hP hread]
    exact or_iff_left fun hs => hformat (hasSignedFormat_of_schema hs)
  | signed s =>
    obtain ⟨hformat, hread⟩ := parseLogicalReference_signed_eq_ok.mp h
    have hschema := signedReferenceSchema_of_read hP hS hR hread
    obtain ⟨hf, -⟩ := record_required_iff.mp hschema
    have hdigest : Dict.get? raw (str "digest") = none := by
      rw [Dict.get?_eq_none_iff]
      intro hk
      simpa using (exactFields_eq_ok.mp hf).2 _ hk
    simp [hschema, hdigest]

/-! ## Arguments -/

theorem integer_minimum_iff {v : Json} {m : Nat} :
    allOf [types [.integer], minimum m] v = true ↔ ∃ n : Nat, v = .int n ∧ m ≤ n := by
  simp only [allOf_iff, List.forall_mem_cons, List.mem_singleton, forall_eq, types_iff, typeOf_eq_integer]
  constructor
  · rintro ⟨⟨i, rfl⟩, hm⟩
    have hm : (m : Int) ≤ i := of_decide_eq_true hm
    exact ⟨i.toNat, by rw [Int.toNat_of_nonneg (by omega)], by omega⟩
  · rintro ⟨n, rfl, hm⟩
    exact ⟨⟨n, rfl⟩, decide_eq_true (by exact_mod_cast hm)⟩

/-- A range with a start is no suffix. -/
theorem suffixSchema_eq_false {raw : Object} (h : str "start" ∈ Dict.keys raw) :
    record ["suffixLength"] [("suffixLength", allOf [types [.integer], minimum (1 : Nat)])] (.obj raw) = false := by
  refine Bool.eq_false_iff.mpr fun hsuffix => ?_
  obtain ⟨d, hd, -, hkeys, -⟩ := record_iff.mp hsuffix
  cases hd
  simpa using hkeys _ h

/-- A byte range is in the contract unless it has a null end. -/
theorem rangeSchema_iff {raw : Object} {range : ByteRange} (h : ByteRange.fromMapping raw = .ok range) :
    rangeSchema (.obj raw) = true ↔ Dict.get? raw "end" ≠ some .null := by
  have hdisjoint : [record ["start"] [("start", allOf [types [.integer], minimum (0 : Nat)]),
        ("end", allOf [types [.integer], minimum (0 : Nat)])],
      record ["suffixLength"] [("suffixLength", allOf [types [.integer], minimum (1 : Nat)])]].Pairwise
      fun S T => S (.obj raw) = true → T (.obj raw) = false := by
    simp only [List.pairwise_cons, List.mem_singleton, forall_eq, List.not_mem_nil, false_imp_iff, implies_true,
      List.Pairwise.nil, and_true]
    intro hstart
    obtain ⟨d, hd, hreq, -, -⟩ := record_iff.mp hstart
    cases hd
    exact suffixSchema_eq_false (hreq "start" List.mem_cons_self)
  refine (oneOf_iff hdisjoint).trans ?_
  simp only [List.mem_cons, List.not_mem_nil, or_false, exists_eq_or_imp, exists_eq_left]
  obtain ⟨start, rangeEnd, suffixLength, hv⟩ := range
  cases suffixLength with
  | some n =>
    obtain ⟨rfl, rfl, hn⟩ := id hv
    have hsame := ByteRange.fromMapping_suffix.mp h
    obtain ⟨hf, hget⟩ := (exactFields_and_get?_iff (u := ()) ["suffixLength"] rfl).mpr hsame
    have hend : Dict.get? raw (str "end") = none := by
      rw [hsame]
      simp
    refine iff_of_true (Or.inr (record_required_iff.mpr ⟨hf, ?_⟩)) (by simp [hend])
    simp only [List.mem_singleton, forall_eq, integer_minimum_iff]
    exact ⟨_, hget _ (List.mem_singleton_self _), n, rfl, hn⟩
  | none =>
    obtain ⟨s, rfl, -⟩ := id hv
    obtain ⟨hf, hs, he⟩ := ByteRange.fromMapping_plain.mp h
    obtain ⟨hreq, hkeys⟩ := exactFields_eq_ok.mp hf
    rw [suffixSchema_eq_false (hreq _ List.mem_cons_self), or_iff_left Bool.false_ne_true, record_iff]
    simp only [Json.obj.injEq, exists_eq_left', List.forall_mem_cons, List.not_mem_nil, false_imp_iff, implies_true,
      and_true, integer_minimum_iff, hs, Option.some.injEq, forall_eq']
    constructor
    · rintro ⟨-, -, -, hend⟩ hnull
      obtain ⟨n, hn, -⟩ := hend _ hnull
      cases hn
    · intro hne
      refine ⟨hreq _ List.mem_cons_self, fun k hk => by simpa using hkeys k hk, ⟨s, rfl, Nat.zero_le _⟩, fun w hw => ?_⟩
      rw [hw, Option.getD_some] at he
      cases rangeEnd with
      | none => exact absurd (hw.trans (congrArg some he)) hne
      | some e => exact ⟨e, he, Nat.zero_le _⟩

theorem mediaTypePattern_of_re {s : Str} (h : mediaTypeRe s = true) : mediaTypePattern s = true := by
  have hchar : ∀ c, isMediaChar c = true → c ≠ codePoint '/' ∧ c ≠ codePoint ' ' := by
    intro c hc
    simp only [isMediaChar, Bool.and_eq_true, bne_iff_ne, Bool.not_eq_true'] at hc
    refine ⟨hc.1, ?_⟩
    rintro rfl
    exact absurd hc.2 (by decide)
  unfold mediaTypeRe at h
  unfold mediaTypePattern
  cases hd : s.dropWhile (· != codePoint '/') with
  | nil =>
    rw [hd] at h
    cases h
  | cons c subtype =>
    rw [hd] at h
    simp only [Bool.and_eq_true, List.all_eq_true] at h ⊢
    obtain ⟨⟨⟨htype, htypes⟩, hsub⟩, hsubs⟩ := h
    exact ⟨⟨⟨htype, fun c hc => bne_iff_ne.mpr (hchar c (htypes c hc)).2⟩, hsub⟩, fun c hc =>
      ⟨bne_iff_ne.mpr (hchar c (hsubs c hc)).1, bne_iff_ne.mpr (hchar c (hsubs c hc)).2⟩⟩

theorem objectIdSchema_of_bounded (s : BoundedString 1024) : objectIdSchema (.str s.val) = true := by
  have hpos := List.length_pos_iff.mpr s.2.1
  have hle := s.2.length_le
  simp [objectIdSchema, text_iff, minLength, maxLength]
  omega

theorem userMetadataSchema_of_read {raw : Object} {items : Dict Str Str} (hn : (Dict.keys raw).Nodup)
    (h : stringMapping (.obj raw) "user metadata" 128 128 2048 = .ok items) :
    allOf [types [.object], maxProperties 128, additionalProperties [] (text [maxLength 2048])] (.obj raw) = true := by
  obtain ⟨entries, rfl, hlen, hb, -⟩ := (stringMapping_eq_ok hn).mp h
  simp only [allOf_iff, List.forall_mem_cons, List.not_mem_nil, false_imp_iff, implies_true, and_true]
  refine ⟨by simp [typeOf], by simpa [maxProperties, wireStrings] using hlen, ?_⟩
  refine List.all_eq_true.mpr fun e he => ?_
  obtain ⟨entry, hentry, rfl⟩ := List.mem_map.mp he
  have hle := (hb entry hentry).2.length_le
  simp [text_iff, maxLength, hle]

theorem immutabilitySchema_of_read {raw : Object} {r : ImmutabilityRequest}
    (h : ImmutabilityRequest.fromMapping raw = .ok r) : immutabilitySchema (.obj raw) = true := by
  simp only [ImmutabilityRequest.fromMapping, bind_eq_ok, exists_unit, getItem_eq_ok, ImmutabilityRequest.new_eq_ok] at h
  obtain ⟨hf, _, hm, _, hp, rfl, rfl⟩ := h
  refine record_required_iff.mpr ⟨hf, ?_⟩
  simp only [List.forall_mem_cons, List.not_mem_nil, false_imp_iff, implies_true, and_true]
  refine ⟨⟨_, hm, ?_⟩, _, hp, boolean_iff.mpr ⟨_, rfl⟩⟩
  cases r.mutability <;> simp [Mutability.value]

theorem retentionSchema_of_read {raw : Object} {r : RetentionRequest}
    (h : RetentionRequest.fromMapping raw = .ok r) : retentionSchema (.obj raw) = true := by
  simp only [RetentionRequest.fromMapping, bind_eq_ok, exists_unit, getItem_eq_ok, RetentionRequest.new_json_eq_ok] at h
  obtain ⟨hf, _, hu, _, hp, _, he, ⟨rfl, ht⟩, rfl, rfl⟩ := h
  rw [retentionSchema, allOf_iff]
  simp only [List.forall_mem_cons, List.not_mem_nil, false_imp_iff, implies_true, and_true]
  constructor
  · refine record_required_iff.mpr ⟨hf, ?_⟩
    simp only [List.forall_mem_cons, List.not_mem_nil, false_imp_iff, implies_true, and_true]
    refine ⟨⟨_, hu, ?_⟩, ⟨_, hp, ?_⟩, _, he, boolean_iff.mpr ⟨_, rfl⟩⟩
    · cases hr : r.retainUntil with
      | none => rfl
      | some s =>
        obtain ⟨d, hd⟩ := ht s hr
        simp [typeOf, pattern, timestampRe_of_strptime hd]
    · cases r.policy with
      | none => rfl
      | some s =>
        have hpos := List.length_pos_iff.mpr s.2.1
        have hle := s.2.length_le
        simp [RetentionRequest.wirePolicy, typeOf, minLength, maxLength]
        omega
  · simp only [anyOf_iff, List.mem_cons, List.not_mem_nil, or_false, exists_eq_or_imp, exists_eq_left,
      properties_iff, forall_eq, hu, hp, Option.some.injEq, forall_eq', types_iff, typeOf_eq_string]
    refine r.valid.imp (fun hu => ?_) fun hp => ?_
    · obtain ⟨s, hs⟩ := Option.ne_none_iff_exists'.mp hu
      exact ⟨s, by rw [hs]; rfl⟩
    · obtain ⟨s, hs⟩ := Option.ne_none_iff_exists'.mp hp
      exact ⟨s.val, by rw [hs]; rfl⟩

/-! ## Methods -/

/-- A member of an argument is there, and null. -/
def NullMember (value : Object) (argument member : String) : Prop :=
  ∃ raw, Dict.get? value argument = some (.obj raw) ∧ Dict.get? raw member = some .null

theorem not_nullMember_of_fields {value : Object} {fields : List String} {argument member : String}
    (h : exactFields value fields = .ok ()) (ha : argument ∉ fields) : ¬ NullMember value argument member := by
  rintro ⟨raw, hraw, -⟩
  have hmem := (exactFields_eq_ok.mp h).2 _ (Dict.mem_keys_of_get? hraw)
  simp [ha] at hmem

theorem nullMember_iff {value raw : Object} {argument member : String}
    (h : Dict.get? value argument = some (.obj raw)) :
    NullMember value argument member ↔ Dict.get? raw member = some .null := by
  constructor
  · rintro ⟨raw', hraw, hnull⟩
    rw [h] at hraw
    cases hraw
    exact hnull
  · intro hnull
    exact ⟨raw, h, hnull⟩

theorem resourceSchema_of_reads (hP : P.ParsesContract) {value : Object} {resource : ResourceRef}
    (h : ReadsResource P value resource) (hk : str "resource" ∈ Dict.keys value) :
    ∃ v, Dict.get? value "resource" = some v ∧ resourceSchema v = true := by
  obtain ⟨v, hv⟩ := Dict.mem_keys_iff.mp hk
  rw [ReadsResource, hv, Option.getD_some, parseResource, mapError_eq_ok] at h
  exact ⟨v, hv, hP.parseResourceRef _ _ h⟩

theorem publishSchemaSchema_of_reads (hP : P.ParsesContract) {value : Object} (h : ReadsPublishSchema P value) :
    publishSchemaSchema (.obj value) = true := by
  obtain ⟨hf, ⟨ns, nm, ver, ref, hns, hnm, href, hver, hschema⟩, ⟨d, hd⟩, ⟨b, hb⟩, n, hn⟩ := h
  obtain ⟨hns', hnm'⟩ := hP.newResourceRef _ _ _ href
  refine record_required_iff.mpr ⟨hf, ?_⟩
  simp only [List.forall_mem_cons, List.not_mem_nil, false_imp_iff, implies_true, and_true]
  exact ⟨⟨_, hns, hns'⟩, ⟨_, hnm, hnm'⟩, ⟨_, hver, hP.newSchemaRef _ _ _ _ hschema⟩, ⟨_, hd, by simp [typeOf]⟩,
    ⟨_, hb, boolean_iff.mpr ⟨_, rfl⟩⟩, _, hn, naturalOrNull_iff.mpr ⟨_, rfl⟩⟩

theorem createResourceSchema_of_reads (hP : P.ParsesContract) {value options : Object} {profile : P.ObjectProfile}
    (h : ReadsCreateResource P value profile options) : createResourceSchema (.obj value) = true := by
  obtain ⟨hf, ⟨ns, nm, ref, hns, hnm, href⟩, ⟨raw, hraw, hparse⟩, ho⟩ := h
  obtain ⟨hns', hnm'⟩ := hP.newResourceRef _ _ _ href
  obtain ⟨q, hq, hprofile⟩ := parseObjectProfile_eq_ok.mp hparse
  refine record_required_iff.mpr ⟨hf, ?_⟩
  simp only [List.forall_mem_cons, List.not_mem_nil, false_imp_iff, implies_true, and_true]
  exact ⟨⟨_, hns, hns'⟩, ⟨_, hnm, hnm'⟩, ⟨_, hraw, hP.profileFromMapping _ _ _ hq hprofile⟩, _, ho, by simp [typeOf]⟩

theorem nullable_of_document {α : Type} {parse : Object → Py α} {S : Schema}
    (hS : ∀ raw a, parse raw = .ok a → S (.obj raw) = true) {j : Json} {r : Option α}
    (h : NullableDocument parse j r) : nullable S j = true := by
  rw [nullable_iff]
  cases r with
  | none => exact Or.inr h
  | some a =>
    obtain ⟨raw, rfl, hparse⟩ := h
    exact Or.inl (hS raw a hparse)

theorem putSchema_of_reads (hP : P.ParsesContract) {value : Object} (hn : Json.WellFormed (.obj value))
    {resource : ResourceRef} {p : PutRequest} (hr : ReadsResource P value resource) (h : p.Reads P value resource) :
    putSchema (.obj value) = true := by
  obtain ⟨hf, ⟨⟨raw, hraw, hpay⟩, hd, hl, -, -⟩, ⟨hm, ho, -⟩, ⟨⟨strings, hmeta, hitems⟩, hc, hpv⟩, ⟨⟨i, hi, him⟩, t, ht, htn⟩, hco⟩ := h
  have hmedia : text [pattern mediaTypePattern] (.str p.mediaType.val.val) = true := by
    simp [text_iff, pattern, mediaTypePattern_of_re p.mediaType.2]
  refine record_required_iff.mpr ⟨hf, ?_⟩
  simp only [List.forall_mem_cons, List.not_mem_nil, false_imp_iff, implies_true, and_true]
  refine ⟨resourceSchema_of_reads hP hr ((exactFields_eq_ok.mp hf).1 _ (by simp [putFields])),
    ⟨_, ho, objectIdSchema_of_bounded _⟩, ⟨_, hraw, payloadReferenceSchema_iff.mpr ⟨_, hpay⟩⟩, ⟨_, hm, hmedia⟩,
    ⟨_, hd, nullable_digestSchema_iff.mpr ⟨_, rfl⟩⟩, ⟨_, hl, naturalOrNull_iff.mpr ⟨_, rfl⟩⟩,
    ⟨_, hmeta, userMetadataSchema_of_read (hn.get? hmeta).keys_nodup hitems⟩, ⟨_, hc, by simp [typeOf]⟩,
    ⟨_, hpv, by simp [typeOf]⟩, ⟨_, hi, nullable_of_document (fun _ _ => immutabilitySchema_of_read) him⟩,
    ⟨_, ht, nullable_of_document (fun _ _ => retentionSchema_of_read) htn⟩, _, hco, boolean_iff.mpr ⟨_, rfl⟩⟩

theorem referenceOperationSchema_iff (hP : P.ParsesContract) (hS : P.StoresReference) (hR : P.RoundTrips)
    {value : Object} {resource : ResourceRef} {method : Str} {reference : LogicalReference P}
    (hr : ReadsResource P value resource) (hf : exactFields value ["resource", "reference"] = .ok ())
    (h : ReadsReference (P := P) value resource method false reference) :
    referenceOperationSchema (.obj value) = true ↔
      ¬ NullMember value "range" "end" ∧ ¬ NullMember value "reference" "digest" := by
  obtain ⟨raw, hraw, hparse⟩ := h.document
  have hres := resourceSchema_of_reads hP hr ((exactFields_eq_ok.mp hf).1 _ (by simp))
  have hrange : ¬ NullMember value "range" "end" := not_nullMember_of_fields hf (by simp)
  rw [nullMember_iff hraw, ← ne_eq, ← referenceSchema_iff hP hS hR hparse]
  refine record_required_iff.trans ?_
  simp only [List.forall_mem_cons, List.not_mem_nil, false_imp_iff, implies_true, and_true, hraw, Option.some.injEq,
    exists_eq_left']
  constructor
  · rintro ⟨-, -, href⟩
    exact ⟨hrange, href⟩
  · rintro ⟨-, href⟩
    exact ⟨hf, hres, href⟩

theorem rangeOperationSchema_iff (hP : P.ParsesContract) (hS : P.StoresReference) (hR : P.RoundTrips)
    {value : Object} {resource : ResourceRef} {method : Str} {reference : LogicalReference P} {range : ByteRange}
    (hr : ReadsResource P value resource) (hf : exactFields value ["resource", "reference", "range"] = .ok ())
    (h : ReadsReference (P := P) value resource method false reference) (hrange : ReadsRange value range) :
    rangeOperationSchema (.obj value) = true ↔
      ¬ NullMember value "range" "end" ∧ ¬ NullMember value "reference" "digest" := by
  obtain ⟨raw, hraw, hparse⟩ := h.document
  obtain ⟨rawRange, hrawRange, hparseRange⟩ := hrange
  have hres := resourceSchema_of_reads hP hr ((exactFields_eq_ok.mp hf).1 _ (by simp))
  rw [nullMember_iff hraw, nullMember_iff hrawRange, ← ne_eq, ← ne_eq, ← referenceSchema_iff hP hS hR hparse,
    ← rangeSchema_iff hparseRange]
  refine record_required_iff.trans ?_
  simp only [List.forall_mem_cons, List.not_mem_nil, false_imp_iff, implies_true, and_true, hraw, hrawRange,
    Option.some.injEq, exists_eq_left']
  constructor
  · rintro ⟨-, -, href, hrange⟩
    exact ⟨hrange, href⟩
  · rintro ⟨hrange, href⟩
    exact ⟨hf, hres, href, hrange⟩

theorem nullable_string_iff {n m : Nat} (s : Option (BoundedString m)) (h : m ≤ n) :
    allOf [types [.string, .null], maxLength n] (wireString s) = true := by
  cases s with
  | none => rfl
  | some s =>
    have hle := s.2.length_le
    simp [wireString, typeOf, maxLength]
    omega

theorem listOperationSchema_of_reads (hP : P.ParsesContract) {value : Object} {resource : ResourceRef}
    {limit : Positive} (hr : ReadsResource P value resource) (h : ReadsList value limit) :
    listOperationSchema (.obj value) = true := by
  obtain ⟨hf, ⟨s, n, hs, hn, hle, -⟩, hpage, hpage_le, ⟨c, hc⟩, hpurpose⟩ := h
  have hlen := (length_le_utf8Length hn).trans hle
  have hlimit := limit.2
  refine record_required_iff.mpr ⟨hf, ?_⟩
  simp only [List.forall_mem_cons, List.not_mem_nil, false_imp_iff, implies_true, and_true]
  refine ⟨resourceSchema_of_reads hP hr ((exactFields_eq_ok.mp hf).1 _ (by simp)), ⟨_, hs, ?_⟩, ⟨_, hpage, ?_⟩,
    ⟨_, hc, nullable_string_iff c le_rfl⟩, _, hpurpose, constant_iff.mpr rfl⟩
  · simp [text_iff, maxLength, hlen]
  · simp only [allOf_iff, List.forall_mem_cons, List.not_mem_nil, false_imp_iff, implies_true, and_true]
    exact ⟨by simp [typeOf], decide_eq_true (by exact_mod_cast hlimit), decide_eq_true (by exact_mod_cast hpage_le)⟩

theorem deleteOperationSchema_iff (hP : P.ParsesContract) {value : Object} {resource : ResourceRef}
    {reference : LogicalReference P} (hr : ReadsResource P value resource)
    (hf : exactFields value ["resource", "reference", "reason"] = .ok ())
    (h : ReadsReference (P := P) value resource (str "delete") true reference) (hreason : ReadsReason value) :
    deleteOperationSchema (.obj value) = true ↔
      ¬ NullMember value "range" "end" ∧ ¬ NullMember value "reference" "digest" := by
  obtain ⟨⟨raw, hraw, hparse⟩, hpermits, -⟩ := h
  obtain ⟨c, hc⟩ := hreason
  have hres := resourceSchema_of_reads hP hr ((exactFields_eq_ok.mp hf).1 _ (by simp))
  have hrange : ¬ NullMember value "range" "end" := not_nullMember_of_fields hf (by simp)
  cases reference with
  | signed s => simpa [signedReferenceOperations] using s.operations_valid.subset _ hpermits
  | object r =>
    obtain ⟨-, hread⟩ := parseLogicalReference_object_eq_ok.mp hparse
    rw [nullMember_iff hraw, ← ne_eq, ← objectRefSchema_iff hP hread]
    refine record_required_iff.trans ?_
    simp only [List.forall_mem_cons, List.not_mem_nil, false_imp_iff, implies_true, and_true, hraw, hc,
      Option.some.injEq, exists_eq_left']
    constructor
    · rintro ⟨-, -, href, -⟩
      exact ⟨hrange, href⟩
    · rintro ⟨-, href⟩
      exact ⟨hf, hres, href, nullable_string_iff c le_rfl⟩

/-! ## Expressions -/

/-- The serialized Expression. -/
def Expression.document (e : Expression) : Json :=
  .obj [("formatVersion", .str "meridian-expression.v1"), ("catalog", .str e.catalog), ("method", .str e.method),
    ("arguments", .obj e.arguments)]

theorem alternative_iff {e : Expression} {methods : List Str} {S : Schema} :
    properties [("method", enum methods), ("arguments", S)] e.document = true ↔
      e.method ∈ methods ∧ S (.obj e.arguments) = true := by
  rw [Expression.document, properties_iff]
  simp only [List.forall_mem_cons, List.not_mem_nil, false_imp_iff, implies_true, and_true]
  simp

theorem alternatives_disjoint : expressionAlternatives.Pairwise fun a b => ∀ m ∈ a.1, m ∉ b.1 := by
  simp [expressionAlternatives]

theorem expressionRecord_iff {e : Expression} {methods : List Str} :
    record ["formatVersion", "catalog", "method", "arguments"]
      [("formatVersion", constant "meridian-expression.v1"), ("catalog", constant "object"), ("method", enum methods),
        ("arguments", types [.object])] e.document = true ↔ e.catalog = str "object" ∧ e.method ∈ methods := by
  rw [Expression.document]
  refine record_required_iff.trans ?_
  rw [exactFields_eq_ok]
  simp only [List.forall_mem_cons, List.not_mem_nil, false_imp_iff, implies_true, and_true]
  simp [typeOf]

/-- An Expression is in the contract by the alternative of its method. -/
theorem expressionSchema_iff {e : Expression} :
    expressionSchema e.document = true ↔ e.catalog = str "object" ∧
      ∃ a ∈ expressionAlternatives, e.method ∈ a.1 ∧ a.2 (.obj e.arguments) = true := by
  have hdisjoint : (expressionAlternatives.map fun a => properties [("method", enum a.1), ("arguments", a.2)]).Pairwise
      fun S T => S e.document = true → T e.document = false := by
    refine List.pairwise_map.mpr (alternatives_disjoint.imp fun {a b} hab ha => ?_)
    refine Bool.eq_false_iff.mpr fun hb => ?_
    exact hab _ (alternative_iff.mp ha).1 (alternative_iff.mp hb).1
  have hmethods : ∀ a ∈ expressionAlternatives, ∀ m ∈ a.1,
      m ∈ ["create_resource", "delete", "get", "list", "publish_schema", "put", "read_range", "stat"].map str := by
    simp [expressionAlternatives]
  rw [expressionSchema, allOf_iff]
  simp only [List.forall_mem_cons, List.not_mem_nil, false_imp_iff, implies_true, and_true, oneOf_iff hdisjoint,
    expressionRecord_iff]
  constructor
  · rintro ⟨⟨hcat, -⟩, S, hS, h⟩
    obtain ⟨a, ha, rfl⟩ := List.mem_map.mp hS
    exact ⟨hcat, a, ha, alternative_iff.mp h⟩
  · rintro ⟨hcat, a, ha, hm, hs⟩
    exact ⟨⟨hcat, hmethods a ha _ hm⟩, _, List.mem_map_of_mem ha, alternative_iff.mpr ⟨hm, hs⟩⟩

namespace Contracts

theorem logicalNameSchema_str (n : LogicalName) : logicalNameSchema (.str n.val) = true := by
  simp [logicalNameSchema, text_iff, pattern, n.2]

theorem resourceRefSchema_of_document {value : Object} {n m : LogicalName}
    (h : resourceDocument value "object" = .ok (n, m)) : resourceRefSchema (.obj value) = true := by
  have hsame := resourceDocument_eq_ok.mp h
  obtain ⟨hf, hget⟩ := (exactFields_and_get?_iff (u := ()) ["catalog", "namespace", "name"] rfl).mpr hsame
  simp only [List.forall_mem_cons, List.not_mem_nil, false_imp_iff, implies_true, and_true] at hget
  refine record_required_iff.mpr ⟨hf, ?_⟩
  simp only [List.forall_mem_cons, List.not_mem_nil, false_imp_iff, implies_true, and_true]
  exact ⟨⟨_, hget.1, constant_iff.mpr rfl⟩, ⟨_, hget.2.1, logicalNameSchema_str n⟩, _, hget.2.2, logicalNameSchema_str m⟩

theorem names_of_newResourceRef {catalog : Str} {n m : Json} {r : ResourceRef}
    (h : newResourceRef catalog n m = .ok r) : ∃ n' m' : LogicalName, n = .str n'.val ∧ m = .str m'.val := by
  simp only [newResourceRef, bind_eq_ok, logicalName_eq_ok] at h
  obtain ⟨n', hn, m', hm, -⟩ := h
  exact ⟨n', m', hn, hm⟩

/-- Names on both sides of the first dot make a qualified name. -/
theorem qualifiedNameRe_of_split {s : Str} (h : logicalNameRe (s.takeWhile (· ≠ codePoint '.')) = true)
    (h' : logicalNameRe ((s.dropWhile (· ≠ codePoint '.')).drop 1) = true) : qualifiedNameRe s = true := by
  have hsplit := List.takeWhile_append_dropWhile (p := fun c => decide (c ≠ codePoint '.')) (l := s)
  generalize hf : s.takeWhile (· ≠ codePoint '.') = front at h hsplit
  cases hb : s.dropWhile (· ≠ codePoint '.') with
  | nil =>
    rw [hb] at h'
    cases h'
  | cons c back =>
    have hdot : c = codePoint '.' := by
      have hhead := List.head?_dropWhile_not (fun c => decide (c ≠ codePoint '.')) s
      rw [hb] at hhead
      simpa using hhead
    rw [hb, List.drop_one, List.tail_cons] at h'
    rw [hb, hdot] at hsplit
    subst hsplit
    refine List.any_eq_true.mpr ⟨front.length, by simp, ?_⟩
    simp [h, h']

theorem resourceSchema_of_parse {v : Json} {r : ResourceRef} (h : parseResourceRef v "object" = .ok r) :
    resourceSchema v = true := by
  have hdisjoint : [text [pattern resourceTextRe], resourceRefSchema].Pairwise fun S T => S v = true → T v = false := by
    simp only [List.pairwise_cons, List.mem_singleton, forall_eq, List.not_mem_nil, false_imp_iff, implies_true,
      List.Pairwise.nil, and_true]
    intro htext
    obtain ⟨s, rfl, -⟩ := text_iff.mp htext
    rfl
  rw [resourceSchema, oneOf_iff hdisjoint]
  simp only [List.mem_cons, List.not_mem_nil, or_false, exists_eq_or_imp, exists_eq_left]
  unfold parseResourceRef at h
  split at h
  · next s =>
    left
    obtain ⟨n, m, hn, hm⟩ := names_of_newResourceRef h
    have hn' : logicalNameRe (splitName s).1 = true := Json.str.inj hn ▸ n.2
    have hm' : logicalNameRe (splitName s).2 = true := Json.str.inj hm ▸ m.2
    have hre : qualifiedNameRe (if s.take 7 = str "object:" then s.drop 7 else s) = true :=
      qualifiedNameRe_of_split hn' hm'
    refine text_iff.mpr ⟨s, rfl, ?_⟩
    simp only [List.mem_singleton, forall_eq, pattern, onString_iff, resourceTextRe, Bool.or_eq_true, Bool.and_eq_true,
      beq_iff_eq]
    split at hre
    · next hcatalog => exact Or.inr ⟨hcatalog, hre⟩
    · exact Or.inl hre
  · next value =>
    right
    obtain ⟨⟨n, m⟩, hdoc, -⟩ := bind_eq_ok.mp h
    exact resourceRefSchema_of_document hdoc
  · cases h

theorem profileSchema_of_read {raw : Object} {p : Profile} (h : profileFromMapping raw = .ok p) :
    profileSchema (.obj raw) = true := by
  obtain ⟨hf, hget⟩ := (exactFields_and_get?_iff (u := ()) ["kind", "profile", "mutability", "rangeReads",
    "conditionalCreate", "boundedPrefixList", "metadata"] rfl).mpr (profileFromMapping_eq_ok.mp h)
  simp only [List.forall_mem_cons, List.not_mem_nil, false_imp_iff, implies_true, and_true] at hget
  obtain ⟨h1, h2, h3, h4, h5, h6, h7⟩ := hget
  refine record_required_iff.mpr ⟨hf, ?_⟩
  simp only [List.forall_mem_cons, List.not_mem_nil, false_imp_iff, implies_true, and_true]
  exact ⟨⟨_, h1, enum_iff.mpr ⟨_, p.kind.2, rfl⟩⟩, ⟨_, h2, enum_iff.mpr ⟨_, p.profile.2, rfl⟩⟩,
    ⟨_, h3, enum_iff.mpr ⟨_, p.mutability.2, rfl⟩⟩, ⟨_, h4, boolean_iff.mpr ⟨_, rfl⟩⟩,
    ⟨_, h5, boolean_iff.mpr ⟨_, rfl⟩⟩, ⟨_, h6, boolean_iff.mpr ⟨_, rfl⟩⟩, _, h7, rfl⟩

theorem parsesContract : contracts.ParsesContract where
  newResourceRef _ _ _ h := by
    obtain ⟨n, m, rfl, rfl⟩ := names_of_newResourceRef h
    exact ⟨logicalNameSchema_str n, logicalNameSchema_str m⟩
  parseResourceRef _ _ h := resourceSchema_of_parse h
  newSchemaRef _ _ _ _ h := by
    obtain ⟨_, -, h⟩ := bind_eq_ok.mp h
    obtain ⟨_, -, h⟩ := bind_eq_ok.mp h
    obtain ⟨v, hv, -⟩ := bind_eq_ok.mp h
    rw [boundedString_eq_ok] at hv
    have hpos := List.length_pos_iff.mpr v.2.1
    have hle := v.2.length_le
    rw [hv, text_iff]
    refine ⟨_, rfl, ?_⟩
    simp [minLength, maxLength]
    omega
  parseResourceReference _ _ h := by
    obtain ⟨⟨n, m⟩, hdoc, -⟩ := bind_eq_ok.mp h
    exact resourceRefSchema_of_document hdoc
  newObjectReference _ _ _ r h := by
    obtain ⟨-, rfl, rfl⟩ := newObjectReference_eq_ok.mp h
    exact ⟨objectIdSchema_of_bounded _, nullable_digestSchema_iff.mpr ⟨r.digest, (nullable_digestText _).symm⟩⟩
  profileFromMapping _ _ _ h hp := by
    obtain rfl := Option.some.inj hp
    exact profileSchema_of_read h

end Contracts

/-! ## Accepted Expressions -/

/-- **An accepted Expression is in the published contract exactly when neither the end of its range nor
the digest of its reference is there and null.** -/
theorem accepted_in_contract_iff (hP : P.ParsesContract) (hS : P.StoresReference) (hR : P.RoundTrips)
    {e : Expression} {o : Operation} (h : normalize P e = .ok o) :
    expressionSchema e.document = true ↔
      ¬ NullMember e.arguments "range" "end" ∧ ¬ NullMember e.arguments "reference" "digest" := by
  obtain ⟨contract, resource, r, ha, -⟩ := normalize_eq_ok.mp h
  have hreads := ha.reads
  have hfree : ∀ {fields : List String}, exactFields e.arguments fields = .ok () → "range" ∉ fields →
      "reference" ∉ fields → ¬ NullMember e.arguments "range" "end" ∧ ¬ NullMember e.arguments "reference" "digest" :=
    fun hf hrange href => ⟨not_nullMember_of_fields hf hrange, not_nullMember_of_fields hf href⟩
  rw [expressionSchema_iff]
  cases r with
  | publishSchema =>
    obtain ⟨hm, -, hr⟩ := hreads
    have hs := publishSchemaSchema_of_reads hP hr
    have hn := hfree hr.fields (by simp) (by simp)
    simp [expressionAlternatives, ha.catalog, hm, hs, hn]
  | createResource profile options =>
    obtain ⟨hm, -, hr⟩ := hreads
    have hs := createResourceSchema_of_reads hP hr
    have hn := hfree hr.fields (by simp) (by simp)
    simp [expressionAlternatives, ha.catalog, hm, hs, hn]
  | put p =>
    obtain ⟨hm, hr, hp⟩ := hreads
    have hs := putSchema_of_reads hP e.wellFormed hr hp
    have hn := hfree hp.fields (by simp [putFields]) (by simp [putFields])
    simp [expressionAlternatives, ha.catalog, hm, hs, hn]
  | read reference =>
    obtain ⟨hm, hr, hf, href⟩ := hreads
    rw [← referenceOperationSchema_iff hP hS hR hr hf href]
    rcases hm with hm | hm <;> simp [expressionAlternatives, ha.catalog, hm]
  | readRange reference range =>
    obtain ⟨hm, hr, hf, href, hrange⟩ := hreads
    rw [← rangeOperationSchema_iff hP hS hR hr hf href hrange]
    simp [expressionAlternatives, ha.catalog, hm]
  | list limit =>
    obtain ⟨hm, hr, hl⟩ := hreads
    have hs := listOperationSchema_of_reads hP hr hl
    have hn := hfree hl.fields (by simp) (by simp)
    simp [expressionAlternatives, ha.catalog, hm, hs, hn]
  | delete reference =>
    obtain ⟨hm, hr, hf, href, hreason⟩ := hreads
    rw [hm] at href
    rw [← deleteOperationSchema_iff hP hr hf href hreason]
    simp [expressionAlternatives, ha.catalog, hm]

theorem accepted_in_contract_iff_getFixture : expressionSchema Contracts.getFixture.document = true := by
  obtain ⟨o, ho⟩ := normalize_getFixture
  refine (accepted_in_contract_iff Contracts.parsesContract Contracts.storesReference Contracts.roundTrips ho).mpr
    ⟨?_, ?_⟩
  · rintro ⟨raw, hraw, -⟩
    simp [Contracts.getFixture] at hraw
  · rintro ⟨raw, hraw, hnull⟩
    obtain rfl : Contracts.referenceToDict Contracts.fixture = raw := by simpa [Contracts.getFixture] using hraw
    rw [(Contracts.get?_referenceToDict Contracts.fixture).2.2] at hnull
    cases hnull

/-! ## A range with a null end -/

/-- A range read whose range has a null end. -/
def nullEndFixture : Expression where
  catalog := "object"
  method := "read_range"
  arguments := [("resource", .str "fixtures.objects"), ("reference", .obj (Contracts.referenceToDict Contracts.fixture)),
    ("range", .obj [("start", .int 0), ("end", .null)])]
  wellFormed := by
    have hreference := Contracts.referenceToDict_wellFormed Contracts.fixture
    have hrange : Json.WellFormed (.obj [("start", .int 0), ("end", .null)]) :=
      .obj (by decide) (by simp [Json.WellFormed.int, Json.WellFormed.null])
    exact .obj (by decide) (by simp [hreference, hrange, Json.WellFormed.str])

theorem normalize_nullEndFixture : ∃ o, normalize contracts nullEndFixture = .ok o :=
  exists_ok_of_isOk (by decide +kernel)

/-- Packages whose parsers accept only what the schemas describe, an accepted Expression, and its document
outside the contract. -/
theorem not_accepted_in_contract :
    contracts.ParsesContract ∧ (∃ o, normalize contracts nullEndFixture = .ok o) ∧
      expressionSchema nullEndFixture.document = false :=
  ⟨Contracts.parsesContract, normalize_nullEndFixture, by decide +kernel⟩

end ObjectCommon
