import ObjectCommon.Catalog.Canonical

/-!
# Requirements are exactly those of the request

* `NeedsGuarantee`, `NeedsLimit` : what the documents of a request call for;
* `Request.mem_guarantees_iff`, `Request.get?_limits_iff` : what normalization derives is that;
* `RequirementsExact`, `normalize_requirements_exact` : the requirement of an Operation has nothing
  else, and there is none when nothing is called for.
-/

namespace ObjectCommon

open Outcome PyError

variable {P : Packages}

/-! ## What is called for -/

/-- The arguments call for a guarantee. -/
inductive NeedsGuarantee (arguments : Object) : Str → Prop
  | conditionalCreate (h : Dict.get? arguments "createOnly" = some (.bool true)) :
      NeedsGuarantee arguments guaranteeConditionalCreate
  | immutabilityIntent {document : Object} (h : Dict.get? arguments "immutability" = some (.obj document))
      (hm : Dict.get? document "mutability" = some (.str "immutable")) :
      NeedsGuarantee arguments guaranteeImmutabilityIntent
  | retentionIntent {document : Json} (h : Dict.get? arguments "retention" = some document)
      (hn : document ≠ .null) : NeedsGuarantee arguments guaranteeRetentionIntent
  | retentionEnforcement {document : Object} (h : Dict.get? arguments "retention" = some (.obj document))
      (he : Dict.get? document "requireEnforcement" = some (.bool true)) :
      NeedsGuarantee arguments guaranteeRetentionEnforcement
  | signedReference {document : Object} (h : Dict.get? arguments "reference" = some (.obj document))
      (hs : HasSignedFormat document) : NeedsGuarantee arguments guaranteeSignedReference

/-- The arguments of a method, and the input emitted for them, call for a limit. -/
inductive NeedsLimit (method : Str) (arguments input : Object) : Str → Nat → Prop
  | userMetadataEntries {entries : Object} (hm : method = str "put")
      (h : Dict.get? input "userMetadata" = some (.obj entries)) :
      NeedsLimit method arguments input limitMaxUserMetadataEntries entries.length
  | objectBytes {n : Nat} (hm : method = str "put") (h : Dict.get? input "expectedLength" = some (.int n)) :
      NeedsLimit method arguments input limitMaxObjectBytes n
  | closedRange {range : Object} {s e : Nat} (hm : method = str "read_range")
      (h : Dict.get? arguments "range" = some (.obj range)) (hs : Dict.get? range "start" = some (.int s))
      (he : Dict.get? range "end" = some (.int e)) :
      NeedsLimit method arguments input limitMaxRangeBytes (e - s + 1)
  | suffixRange {range : Object} {n : Nat} (hm : method = str "read_range")
      (h : Dict.get? arguments "range" = some (.obj range))
      (hs : Dict.get? range "suffixLength" = some (.int n)) :
      NeedsLimit method arguments input limitMaxRangeBytes n
  | listPageSize {n : Nat} (hm : method = str "list") (h : Dict.get? arguments "limit" = some (.int n)) :
      NeedsLimit method arguments input limitMaxListPageSize n

/-! ## Guarantees -/

theorem get?_of_exactFields {value : Object} {required : List String} {u : Unit}
    (h : exactFields value required = .ok u) {k : String} (hk : k ∉ required) :
    Dict.get? value (str k) = none := by
  rw [Dict.get?_eq_none_iff]
  intro hmem
  have := (exactFields_eq_ok.mp h).2 _ hmem
  simp [hk] at this

/-- Arguments without a put's options and without a reference call for no guarantee. -/
theorem not_needsGuarantee {value : Object} {required : List String} {u : Unit}
    (h : exactFields value required = .ok u)
    (hk : ∀ k ∈ ["createOnly", "immutability", "retention", "reference"], k ∉ required) (g : Str) :
    ¬ NeedsGuarantee value g := by
  have hnone : ∀ k ∈ ["createOnly", "immutability", "retention", "reference"],
      Dict.get? value (str k) = none := fun k hmem => get?_of_exactFields h (hk k hmem)
  simp only [List.mem_cons, List.not_mem_nil, or_false, forall_eq_or_imp, forall_eq] at hnone
  obtain ⟨hc, hi, hr, hs⟩ := hnone
  rintro (h | ⟨h, -⟩ | ⟨h, -⟩ | ⟨h, -⟩ | ⟨h, -⟩)
  · rw [hc] at h; cases h
  · rw [hi] at h; cases h
  · rw [hr] at h; cases h
  · rw [hr] at h; cases h
  · rw [hs] at h; cases h

/-- A reference is signed exactly when its document has the signed format. -/
theorem isSigned_iff {raw : Object} {reference : LogicalReference P}
    (h : parseLogicalReference P raw = .ok reference) : reference.isSigned = true ↔ HasSignedFormat raw := by
  cases reference with
  | object r =>
    have := (parseLogicalReference_object_eq_ok.mp h).1
    simp [LogicalReference.isSigned, this]
  | signed s =>
    have := (parseLogicalReference_signed_eq_ok.mp h).1
    simp [LogicalReference.isSigned, this]

/-- A signed reference permits no delete. -/
theorem ReadsReference.isSigned_delete {value : Object} {resource : ResourceRef} {requireDigest : Bool}
    {reference : LogicalReference P}
    (h : ReadsReference value resource (str "delete") requireDigest reference) : reference.isSigned = false := by
  cases reference with
  | object r => rfl
  | signed s =>
    have : str "delete" ∈ signedReferenceOperations := s.operations_valid.subset _ h.permits
    simp [signedReferenceOperations] at this

theorem mem_referenceGuarantees {g : Str} {signed : Bool} :
    g ∈ referenceGuarantees signed ↔ signed = true ∧ g = guaranteeSignedReference := by
  cases signed <;> simp [referenceGuarantees]

/-- A request through a reference calls for a guarantee only when the reference is signed. -/
theorem mem_referenceGuarantees_iff {value : Object} {resource : ResourceRef} {method : Str}
    {requireDigest : Bool} {reference : LogicalReference P} {required : List String} {u : Unit}
    (hf : exactFields value required = .ok u)
    (hk : ∀ k ∈ ["createOnly", "immutability", "retention"], k ∉ required)
    (hr : ReadsReference value resource method requireDigest reference) (g : Str) :
    g ∈ referenceGuarantees reference.isSigned ↔ NeedsGuarantee value g := by
  obtain ⟨raw, hraw, hparse⟩ := hr.document
  have hnone : ∀ k ∈ ["createOnly", "immutability", "retention"], Dict.get? value (str k) = none :=
    fun k hmem => get?_of_exactFields hf (hk k hmem)
  simp only [List.mem_cons, List.not_mem_nil, or_false, forall_eq_or_imp, forall_eq] at hnone
  obtain ⟨hc, hi, hret⟩ := hnone
  rw [mem_referenceGuarantees, isSigned_iff hparse]
  constructor
  · rintro ⟨hs, rfl⟩
    exact .signedReference hraw hs
  · rintro (h | ⟨h, -⟩ | ⟨h, -⟩ | ⟨h, -⟩ | ⟨h, hs⟩)
    · rw [hc] at h; cases h
    · rw [hi] at h; cases h
    · rw [hret] at h; cases h
    · rw [hret] at h; cases h
    · rw [hraw] at h
      cases h
      exact ⟨hs, rfl⟩

namespace PutRequest

/-- The immutability intent of a put asks for immutable bytes exactly when its document does. -/
theorem immutable_iff {p : PutRequest} {value : Object} (h : p.ReadsIntents value) :
    (p.immutability.any fun i => i.mutability = .immutable) = true ↔
      ∃ document, Dict.get? value "immutability" = some (.obj document) ∧
        Dict.get? document "mutability" = some (.str "immutable") := by
  obtain ⟨j, hj, hdoc⟩ := h.immutability
  rw [hj]
  cases him : p.immutability with
  | none =>
    rw [him] at hdoc
    simp [show j = .null from hdoc]
  | some i =>
    rw [him] at hdoc
    obtain ⟨raw, rfl, hparse⟩ := hdoc
    have hm : Dict.get? raw "mutability" = some (.str i.mutability.value) :=
      ImmutabilityRequest.fromMapping_eq_ok.mp hparse _
    have hv : i.mutability.value = str "immutable" ↔ i.mutability = .immutable :=
      Mutability.value_inj (b := .immutable)
    simp [hm, hv]

/-- A put asks for retention exactly when its retention document is there. -/
theorem retention_iff {p : PutRequest} {value : Object} (h : p.ReadsIntents value) :
    p.retention.isSome = true ↔ ∃ document, Dict.get? value "retention" = some document ∧ document ≠ .null := by
  obtain ⟨j, hj, hdoc⟩ := h.retention
  rw [hj]
  cases hrt : p.retention with
  | none =>
    rw [hrt] at hdoc
    simp [show j = .null from hdoc]
  | some r =>
    rw [hrt] at hdoc
    obtain ⟨raw, rfl, -⟩ := hdoc
    simp

/-- A put asks for enforced retention exactly when its retention document does. -/
theorem requireEnforcement_iff {p : PutRequest} {value : Object} (h : p.ReadsIntents value) :
    (p.retention.any fun r => r.requireEnforcement) = true ↔
      ∃ document, Dict.get? value "retention" = some (.obj document) ∧
        Dict.get? document "requireEnforcement" = some (.bool true) := by
  obtain ⟨j, hj, hdoc⟩ := h.retention
  rw [hj]
  cases hrt : p.retention with
  | none =>
    rw [hrt] at hdoc
    simp [show j = .null from hdoc]
  | some r =>
    rw [hrt] at hdoc
    obtain ⟨raw, rfl, hparse⟩ := hdoc
    have he : Dict.get? raw "requireEnforcement" = some (.bool r.requireEnforcement) :=
      (RetentionRequest.fromMapping_eq_ok.mp hparse).1 _
    simp [he]

theorem mem_guarantees {p : PutRequest} {g : Str} :
    g ∈ p.guarantees ↔
      (g = guaranteeImmutabilityIntent ∧ (p.immutability.any fun i => i.mutability = .immutable) = true) ∨
      (g = guaranteeRetentionIntent ∧ p.retention.isSome = true) ∨
      (g = guaranteeRetentionEnforcement ∧ (p.retention.any fun r => r.requireEnforcement) = true) ∨
      (g = guaranteeConditionalCreate ∧ p.createOnly = true) := by
  rw [guarantees, mem_selected]
  simp only [immutabilityGuarantees, retentionGuarantees, List.cons_append, List.nil_append, List.mem_cons,
    List.not_mem_nil, or_false, Prod.mk.injEq, @eq_comm Bool true]

/-- The guarantees of a put are those its documents call for. -/
theorem mem_guarantees_iff {p : PutRequest} {value : Object} {resource : ResourceRef}
    (h : p.Reads P value resource) (g : Str) : g ∈ p.guarantees ↔ NeedsGuarantee value g := by
  have hs : Dict.get? value (str "reference") = none := get?_of_exactFields h.fields (by decide)
  rw [mem_guarantees, immutable_iff h.intents, retention_iff h.intents, requireEnforcement_iff h.intents]
  constructor
  · rintro (⟨rfl, d, hd, hm⟩ | ⟨rfl, d, hd, hn⟩ | ⟨rfl, d, hd, he⟩ | ⟨rfl, hc⟩)
    · exact .immutabilityIntent hd hm
    · exact .retentionIntent hd hn
    · exact .retentionEnforcement hd he
    · exact .conditionalCreate (hc ▸ h.createOnly)
  · rintro (hc | ⟨hd, hm⟩ | ⟨hd, hn⟩ | ⟨hd, he⟩ | ⟨hd, -⟩)
    · rw [h.createOnly] at hc
      exact Or.inr (Or.inr (Or.inr ⟨rfl, by simpa using hc⟩))
    · exact Or.inl ⟨rfl, _, hd, hm⟩
    · exact Or.inr (Or.inl ⟨rfl, _, hd, hn⟩)
    · exact Or.inr (Or.inr (Or.inl ⟨rfl, _, hd, he⟩))
    · rw [hs] at hd; cases hd

end PutRequest

namespace Request

theorem guarantees_nodup (r : Request P) : r.demands.guarantees.Nodup := by
  have hone : ∀ signed, (referenceGuarantees signed).Nodup := by decide
  cases r with
  | put p => exact selected_nodup p.guarantees_nodup
  | read reference => exact hone reference.isSigned
  | readRange reference range => exact hone reference.isSigned
  | _ => exact List.nodup_nil

/-- **The guarantees of a request are those its documents call for.** -/
theorem mem_guarantees_iff {r : Request P} {method : Str} {value : Object} {resource : ResourceRef}
    (h : r.Reads method value resource) (g : Str) :
    g ∈ r.demands.guarantees ↔ NeedsGuarantee value g := by
  cases r with
  | publishSchema =>
    exact iff_of_false (List.not_mem_nil) (not_needsGuarantee h.2.2.fields (by decide) g)
  | createResource profile options =>
    exact iff_of_false (List.not_mem_nil) (not_needsGuarantee h.2.2.fields (by decide) g)
  | put p => exact p.mem_guarantees_iff h.2.2 g
  | read reference => exact mem_referenceGuarantees_iff h.2.2.1 (by decide) h.2.2.2 g
  | readRange reference range => exact mem_referenceGuarantees_iff h.2.2.1 (by decide) h.2.2.2.1 g
  | list limit => exact iff_of_false (List.not_mem_nil) (not_needsGuarantee h.2.2.fields (by decide) g)
  | delete reference =>
    obtain ⟨rfl, -, hf, href, -⟩ := h
    have := mem_referenceGuarantees_iff hf (by decide) href g
    rwa [href.isSigned_delete] at this

end Request

/-! ## Limits -/

/-- The length of a range is what its document asks for: the bytes from its start to its end, or its
suffix. -/
theorem ByteRange.length?_eq_some_iff {raw : Object} {range : ByteRange} (h : ByteRange.fromMapping raw = .ok range)
    (n : Nat) :
    range.length? = some n ↔
      (∃ s e : Nat, Dict.get? raw "start" = some (.int s) ∧ Dict.get? raw "end" = some (.int e) ∧ n = e - s + 1) ∨
        Dict.get? raw "suffixLength" = some (.int n) := by
  have hdoc := ByteRange.fromMapping_eq_ok.mp h
  obtain ⟨start, rangeEnd, suffix, hv⟩ := range
  cases suffix with
  | some m =>
    obtain ⟨rfl, rfl, -⟩ := id hv
    have hsame := hdoc.resolve_right fun h => by simp [length?] at h
    simp [length?, hsame _, toDict, eq_comm]
  | none =>
    obtain ⟨s, rfl, -⟩ := id hv
    cases rangeEnd with
    | none =>
      rcases hdoc with hsame | ⟨-, hsame⟩ <;> simp [length?, hsame _, toDict, wireNat, nullEnd]
    | some e =>
      have hsame := hdoc.resolve_right fun h => by simp [length?] at h
      simp [length?, hsame _, toDict, wireNat, eq_comm]

theorem PutRequest.get?_limits {p : PutRequest} {l : Str} {n : Nat} :
    Dict.get? p.limits l = some n ↔
      (l = limitMaxUserMetadataEntries ∧ n = p.userMetadata.length) ∨
      (l = limitMaxObjectBytes ∧ p.expectedLength = some n) := by
  have hne : limitMaxUserMetadataEntries ≠ limitMaxObjectBytes := by decide
  unfold limits
  rw [Dict.get?_cons]
  split
  · next h =>
    subst h
    simp [hne, eq_comm]
  · next h =>
    have h' : ¬ l = limitMaxUserMetadataEntries := fun e => h e.symm
    cases p.expectedLength <;> simp [h', eq_comm]

/-- The limits of a put are those the emitted input calls for. -/
theorem PutRequest.get?_limits_iff {p : PutRequest} {value : Object} {l : Str} {n : Nat} :
    Dict.get? p.limits l = some n ↔
      NeedsLimit (str "put") value (Dict.update value p.updates) l n := by
  have hu : Dict.get? (Dict.update value p.updates) (str "userMetadata") =
      some (.obj (wireStrings p.userMetadata)) := by
    rw [p.get?_update]; rfl
  have hl : Dict.get? (Dict.update value p.updates) (str "expectedLength") =
      some (ByteRange.wireNat p.expectedLength) := by
    rw [p.get?_update]; rfl
  have hlen : (wireStrings p.userMetadata).length = p.userMetadata.length := List.length_map _
  rw [get?_limits]
  constructor
  · rintro (⟨rfl, rfl⟩ | ⟨rfl, h⟩)
    · rw [← hlen]
      exact .userMetadataEntries rfl hu
    · exact .objectBytes rfl (by rw [hl, h]; rfl)
  · rintro (⟨-, h⟩ | ⟨-, h⟩ | ⟨h, -⟩ | ⟨h, -⟩ | ⟨h, -⟩)
    · rw [hu] at h
      cases h
      exact Or.inl ⟨rfl, hlen⟩
    · rw [hl] at h
      refine Or.inr ⟨rfl, ?_⟩
      cases hn : p.expectedLength with
      | none => simp [hn, ByteRange.wireNat] at h
      | some m => simpa [hn, ByteRange.wireNat] using h
    all_goals simp at h

theorem get?_rangeLimits {o : Option Nat} {l : Str} {n : Nat} :
    Dict.get? (rangeLimits o) l = some n ↔ l = limitMaxRangeBytes ∧ o = some n := by
  cases o with
  | none => simp [rangeLimits]
  | some m =>
    rw [rangeLimits, Dict.get?_cons]
    split
    · next h => simp [h]
    · next h =>
      have h' : ¬ l = limitMaxRangeBytes := fun e => h e.symm
      simp [h']

/-- The limit of a range is the bytes it asks for at most. -/
theorem get?_rangeLimits_iff {value input raw : Object} {range : ByteRange}
    (hraw : Dict.get? value "range" = some (.obj raw)) (hparse : ByteRange.fromMapping raw = .ok range) (l : Str) (n : Nat) :
    Dict.get? (rangeLimits range.length?) l = some n ↔ NeedsLimit (str "read_range") value input l n := by
  rw [get?_rangeLimits, ByteRange.length?_eq_some_iff hparse]
  constructor
  · rintro ⟨rfl, ⟨s, e, hs, he, rfl⟩ | hs⟩
    · exact .closedRange rfl hraw hs he
    · exact .suffixRange rfl hraw hs
  · rintro (⟨h, -⟩ | ⟨h, -⟩ | ⟨-, h, hs, he⟩ | ⟨-, h, hs⟩ | ⟨h, -⟩)
    · simp at h
    · simp at h
    · rw [hraw] at h
      cases h
      exact ⟨rfl, Or.inl ⟨_, _, hs, he, rfl⟩⟩
    · rw [hraw] at h
      cases h
      exact ⟨rfl, Or.inr hs⟩
    · simp at h

/-- The limit of a list is its page. -/
theorem get?_listLimits_iff {value input : Object} {limit : Positive}
    (hpage : Dict.get? value "limit" = some (.int limit.val)) (l : Str) (n : Nat) :
    Dict.get? [(limitMaxListPageSize, limit.val)] l = some n ↔ NeedsLimit (str "list") value input l n := by
  rw [Dict.get?_cons]
  constructor
  · intro h
    split at h
    · next hk =>
      cases h
      exact hk ▸ .listPageSize rfl hpage
    · cases h
  · rintro (⟨h, -⟩ | ⟨h, -⟩ | ⟨h, -⟩ | ⟨h, -⟩ | ⟨-, h⟩)
    · simp at h
    · simp at h
    · simp at h
    · simp at h
    · rw [hpage] at h
      cases h
      rw [if_pos rfl]

/-- A method other than these four has no limit. -/
theorem not_needsLimit {method : Str} {value input : Object}
    (h : method ≠ str "put" ∧ method ≠ str "read_range" ∧ method ≠ str "list") (l : Str) (n : Nat) :
    ¬ NeedsLimit method value input l n := by
  obtain ⟨hp, hr, hl⟩ := h
  rintro (⟨h, -⟩ | ⟨h, -⟩ | ⟨h, -⟩ | ⟨h, -⟩ | ⟨h, -⟩) <;> contradiction

namespace Request

theorem limits_nodup (r : Request P) : (Dict.keys r.demands.limits).Nodup := by
  cases r with
  | put p =>
    have hne : limitMaxUserMetadataEntries ≠ limitMaxObjectBytes := by decide
    show (Dict.keys p.limits).Nodup
    unfold PutRequest.limits
    cases p.expectedLength <;> simp [hne]
  | readRange reference range =>
    show (Dict.keys (rangeLimits range.length?)).Nodup
    cases range.length? <;> simp [rangeLimits]
  | list limit => simp [demands]
  | _ => exact List.nodup_nil

/-- **The limits of a request are those its documents, and the input emitted, call for.** -/
theorem get?_limits_iff {r : Request P} {method : Str} {value : Object} {resource : ResourceRef}
    (h : r.Reads method value resource) (l : Str) (n : Nat) :
    Dict.get? r.demands.limits l = some n ↔
      NeedsLimit method value (Dict.update value r.updates) l n := by
  have hnone : Dict.get? ([] : Dict Str Nat) l ≠ some n := by simp
  cases r with
  | publishSchema =>
    obtain ⟨rfl, -⟩ := h
    exact iff_of_false hnone (not_needsLimit (by simp) l n)
  | createResource profile options =>
    obtain ⟨rfl, -⟩ := h
    exact iff_of_false hnone (not_needsLimit (by simp) l n)
  | put p =>
    obtain ⟨rfl, -⟩ := h
    exact p.get?_limits_iff
  | read reference =>
    obtain ⟨hm, -⟩ := h
    exact iff_of_false hnone (not_needsLimit (by rcases hm with rfl | rfl <;> simp) l n)
  | readRange reference range =>
    obtain ⟨rfl, -, -, -, raw, hraw, hparse⟩ := h
    exact get?_rangeLimits_iff hraw hparse l n
  | list limit =>
    obtain ⟨rfl, -, hl⟩ := h
    exact get?_listLimits_iff hl.page l n
  | delete reference =>
    obtain ⟨rfl, -⟩ := h
    exact iff_of_false hnone (not_needsLimit (by simp) l n)

/-- A put is idempotent when it creates only or declares its digest; the others always are. -/
theorem idempotent_iff {r : Request P} {method : Str} {value : Object} {resource : ResourceRef}
    (h : r.Reads method value resource) :
    r.demands.idempotent = true ↔
      (method = str "put" → Dict.get? value "createOnly" = some (.bool true) ∨
        ∃ d, Dict.get? (Dict.update value r.updates) "expectedDigest" = some d ∧ d ≠ .null) := by
  cases r with
  | put p =>
    have hd : Dict.get? (Dict.update value p.updates) (str "expectedDigest") =
        some (wireDigest p.expectedDigest) := by
      rw [p.get?_update]; rfl
    have hnull : wireDigest p.expectedDigest ≠ .null ↔ p.expectedDigest.isSome = true := by
      rw [ne_eq, wireDigest, Json.nullable_eq_null (by simp), Option.isSome_iff_ne_none]
    show (p.createOnly || p.expectedDigest.isSome) = true ↔ _
    rw [Bool.or_eq_true, ← hnull]
    simp [updates, hd, h.2.2.createOnly, h.1]
  | publishSchema => simp [demands, h.1]
  | createResource profile options => simp [demands, h.1]
  | read reference => rcases h.1 with h | h <;> simp [demands, h]
  | readRange reference range => simp [demands, h.1]
  | list limit => simp [demands, h.1]
  | delete reference => simp [demands, h.1]

end Request

/-! ## Requirements -/

/-- The requirements of an Operation are exactly what its Expression calls for. -/
structure RequirementsExact (e : Expression) (o : Operation) : Prop where
  guarantees : ∀ r ∈ o.requirements, ∀ g, g ∈ r.guarantees ↔ NeedsGuarantee e.arguments g
  guarantees_nodup : ∀ r ∈ o.requirements, r.guarantees.Nodup
  limits : ∀ r ∈ o.requirements, ∀ l n,
    Dict.get? r.minimumLimits l = some n ↔ NeedsLimit e.method e.arguments o.input l n
  limits_nodup : ∀ r ∈ o.requirements, (Dict.keys r.minimumLimits).Nodup
  contract : ∀ r ∈ o.requirements, r.operationContract = str "meridian.object." ++ e.method ∧
    r.operationVersion = objectOperationVersion
  length_le_one : o.requirements.length ≤ 1
  none_iff : o.requirements = [] ↔
    (∀ g, ¬ NeedsGuarantee e.arguments g) ∧ ∀ l n, ¬ NeedsLimit e.method e.arguments o.input l n
  idempotent : o.idempotent = true ↔
    (e.method = str "put" → Dict.get? e.arguments "createOnly" = some (.bool true) ∨
      ∃ d, Dict.get? o.input "expectedDigest" = some d ∧ d ≠ .null)

theorem mem_requirementsOf {method : Str} {demands : Demands} {q : CapabilityRequirement}
    (h : q ∈ requirementsOf P method demands) : q = requirementOf P method demands := by
  unfold requirementsOf at h
  split at h
  · exact List.mem_singleton.mp h
  · cases h

theorem requirementsOf_eq_nil_iff {method : Str} {demands : Demands} :
    requirementsOf P method demands = [] ↔
      (∀ g, g ∉ demands.guarantees) ∧ ∀ l n, Dict.get? demands.limits l ≠ some n := by
  have hl : demands.limits = [] ↔ ∀ l n, Dict.get? demands.limits l ≠ some n := by
    constructor
    · intro h
      simp [h]
    · intro h
      cases hd : demands.limits with
      | nil => rfl
      | cons e d =>
        obtain ⟨k, v⟩ := e
        exact absurd (by simp [hd]) (h k v)
  rw [← List.eq_nil_iff_forall_not_mem, ← hl]
  unfold requirementsOf
  split
  · next h => simpa using not_and_or.mpr h
  · next h => simpa [not_or] using h

/-- An Operation requires a guarantee exactly when its request demands it. -/
theorem exists_requirement_iff {e : Expression} {contract : OperationContract} {resource : ResourceRef}
    {r : Request P} {g : Str} :
    (∃ q ∈ (operationOf P e contract resource r).requirements, g ∈ q.guarantees) ↔ g ∈ r.demands.guarantees := by
  have hperm := P.tupleOfSet_perm _ r.guarantees_nodup
  show (∃ q ∈ requirementsOf P e.method r.demands, g ∈ q.guarantees) ↔ _
  constructor
  · rintro ⟨q, hq, hg⟩
    rw [mem_requirementsOf hq] at hg
    exact hperm.mem_iff.mp hg
  · intro hg
    refine ⟨requirementOf P e.method r.demands, ?_, hperm.mem_iff.mpr hg⟩
    rw [requirementsOf, if_pos (Or.inl (List.ne_nil_of_mem hg))]
    exact List.mem_singleton_self _

/-- **Capability requirements are exactly those the request needs.** -/
theorem normalize_requirements_exact {e : Expression} {o : Operation} (h : normalize P e = .ok o) :
    RequirementsExact e o := by
  obtain ⟨contract, resource, r, hacc, rfl⟩ := normalize_eq_ok.mp h
  have hg := Request.mem_guarantees_iff hacc.reads
  have hl := Request.get?_limits_iff hacc.reads
  have hperm := P.tupleOfSet_perm _ r.guarantees_nodup
  refine ⟨fun q hq g => ?_, fun q hq => ?_, fun q hq l n => ?_, fun q hq => ?_, fun q hq => ?_, ?_, ?_, ?_⟩
  · rw [mem_requirementsOf hq, ← hg]
    exact hperm.mem_iff
  · rw [mem_requirementsOf hq]
    exact hperm.nodup_iff.mpr r.guarantees_nodup
  · rw [mem_requirementsOf hq]
    exact hl l n
  · rw [mem_requirementsOf hq]
    exact r.limits_nodup
  · rw [mem_requirementsOf hq]
    exact ⟨rfl, rfl⟩
  · show (requirementsOf P e.method r.demands).length ≤ 1
    unfold requirementsOf
    split <;> simp
  · refine requirementsOf_eq_nil_iff.trans (and_congr (forall_congr' fun g => not_congr (hg g)) ?_)
    exact forall_congr' fun l => forall_congr' fun n => not_congr (hl l n)
  · exact Request.idempotent_iff hacc.reads

/-- The put of the example asks for its own guarantee only. -/
theorem needsGuarantee_putFixture {g : Str} (h : NeedsGuarantee Contracts.putFixture.arguments g) :
    g = guaranteeConditionalCreate := by
  cases h with
  | conditionalCreate => rfl
  | immutabilityIntent h => cases h
  | retentionIntent h hne =>
    cases h
    exact absurd rfl hne
  | retentionEnforcement h => cases h
  | signedReference h => cases h

theorem normalize_requirements_exact_putFixture :
    ∃ o, normalize contracts Contracts.putFixture = .ok o ∧ RequirementsExact Contracts.putFixture o := by
  obtain ⟨o, ho⟩ := normalize_putFixture
  exact ⟨o, ho, normalize_requirements_exact ho⟩

end ObjectCommon
