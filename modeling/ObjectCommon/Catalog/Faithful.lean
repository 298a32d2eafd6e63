import ObjectCommon.Catalog.Canonical

/-!
# Normalization loses and invents nothing

* `Request.fields` : the argument names of a request, exactly;
* `PayloadFilled`, `RangeTrimmed`, `SignedReordered`, `SameReference` : how a canonicalized document
  may differ from the one supplied;
* `InputFaithful`, `normalize_faithful` : the emitted input has the arguments supplied, each identical
  or canonicalized in one of these ways, and a field unknown to the contract is rejected.
-/

namespace ObjectCommon

open Outcome PyError

variable {P : Packages}

/-! ## Argument names -/

namespace Request

/-- The argument names of a request. -/
def fields : Request P → List String
  | .publishSchema =>
    ["namespace", "name", "version", "definition", "allowBreaking", "expectedRegistryRevision"]
  | .createResource _ _ => ["namespace", "name", "profile", "options"]
  | .put _ => putFields
  | .read _ => ["resource", "reference"]
  | .readRange _ _ => ["resource", "reference", "range"]
  | .list _ => ["resource", "prefix", "limit", "cursor", "purpose"]
  | .delete _ => ["resource", "reference", "reason"]

theorem exactFields_fields {r : Request P} {method : Str} {value : Object} {resource : ResourceRef}
    (h : r.Reads method value resource) : exactFields value r.fields = .ok () := by
  cases r with
  | publishSchema => exact h.2.2.fields
  | createResource profile options => exact h.2.2.fields
  | put p => exact h.2.2.fields
  | read reference => exact h.2.2.1
  | readRange reference range => exact h.2.2.1
  | list limit => exact h.2.2.fields
  | delete reference => exact h.2.2.1

theorem mem_fields {r : Request P} {method : Str} {value : Object} {resource : ResourceRef}
    (h : r.Reads method value resource) {k : String} {v : Json} (hv : Dict.get? value (str k) = some v) :
    k ∈ r.fields := by
  have := (exactFields_eq_ok.mp (exactFields_fields h)).2 _ (Dict.mem_keys_of_get? hv)
  simpa using this

/-- Only a put has these arguments. -/
theorem put_of_get? {r : Request P} {method : Str} {value : Object} {resource : ResourceRef}
    (h : r.Reads method value resource) {k : String} (hk : k ∈ ["payload", "userMetadata", "immutability", "retention"])
    {v : Json} (hv : Dict.get? value (str k) = some v) : ∃ p, r = .put p ∧ p.Reads P value resource := by
  have hf := mem_fields h hv
  cases r with
  | put p => exact ⟨p, rfl, h.2.2⟩
  | _ =>
    simp only [List.mem_cons, List.not_mem_nil, or_false] at hk
    rcases hk with rfl | rfl | rfl | rfl <;> simp [fields] at hf

theorem createResource_of_get? {r : Request P} {method : Str} {value : Object} {resource : ResourceRef}
    (h : r.Reads method value resource) {v : Json} (hv : Dict.get? value (str "profile") = some v) :
    ∃ profile options, r = .createResource profile options ∧ ReadsCreateResource P value profile options := by
  have hf := mem_fields h hv
  cases r with
  | createResource profile options => exact ⟨profile, options, rfl, h.2.2⟩
  | _ => simp [fields, putFields] at hf

theorem readRange_of_get? {r : Request P} {method : Str} {value : Object} {resource : ResourceRef}
    (h : r.Reads method value resource) {v : Json} (hv : Dict.get? value (str "range") = some v) :
    ∃ reference range, r = .readRange reference range ∧ ReadsRange value range := by
  have hf := mem_fields h hv
  cases r with
  | readRange reference range => exact ⟨reference, range, rfl, h.2.2.2.2⟩
  | _ => simp [fields, putFields] at hf

/-- A request with a reference argument emits the reference it denotes. -/
theorem reference_of_get? {r : Request P} {method : Str} {value : Object} {resource : ResourceRef}
    (h : r.Reads method value resource) {v : Json} (hv : Dict.get? value (str "reference") = some v) :
    ∃ (reference : LogicalReference P) (requireDigest : Bool),
      ReadsReference value resource method requireDigest reference ∧
        Dict.get? r.updates "reference" = some (.obj reference.toDict) := by
  have hf := mem_fields h hv
  cases r with
  | read reference => exact ⟨reference, false, h.2.2.2, by simp [updates]⟩
  | readRange reference range => exact ⟨reference, false, h.2.2.2.1, by simp [updates]⟩
  | delete reference => exact ⟨reference, true, h.2.2.2.1, by simp [updates]⟩
  | _ => simp [fields, putFields] at hf

end Request

/-! ## Canonicalized documents -/

/-- The fields of a payload reference. -/
def payloadFields : List String := ["formatVersion", "token", "expectedLength", "expectedDigest", "replayable"]

/-- The fields of an Object reference. -/
def referenceFields : List String := ["resourceRef", "objectId", "digest"]

/-- The argument `k` is a document, emitted as one in the relation `R` to it. -/
def Rewritten (arguments input : Object) (k : String) (R : Object → Object → Prop) : Prop :=
  ∀ v, Dict.get? arguments (str k) = some v →
    ∃ d d', v = .obj d ∧ Dict.get? input (str k) = some (.obj d') ∧ R d d'

/-- A null expectation of the payload is filled from the put's own; nothing else differs. -/
structure PayloadFilled (arguments d d' : Object) : Prop where
  fields : ∀ k, k ∈ Dict.keys d ↔ k ∈ payloadFields.map str
  other : ∀ k, k ≠ str "expectedDigest" → k ≠ str "expectedLength" → Dict.get? d' k = Dict.get? d k
  filled : ∀ k ∈ ["expectedDigest", "expectedLength"], Dict.get? d' (str k) = Dict.get? d (str k) ∨
    (Dict.get? d (str k) = some .null ∧ Dict.get? d' (str k) = Dict.get? arguments (str k))

/-- A null end is dropped; nothing else differs. -/
structure RangeTrimmed (d d' : Object) : Prop where
  fields : ∀ k ∈ Dict.keys d, k ∈ ["start", "end", "suffixLength"].map str
  same : ∀ k, Dict.get? d' k = Dict.get? d k ∨
    (k = str "end" ∧ Dict.get? d k = some .null ∧ Dict.get? d' k = none)

/-- The documents are read as the same Object reference, with the same digest; the second has the normal form of the id
of the first. -/
structure SameReference (P : Packages) (d d' : Object) : Prop where
  fields : ∀ k ∈ Dict.keys d, k ∈ referenceFields.map str
  fields' : ∀ k ∈ Dict.keys d', k ∈ referenceFields.map str
  parsed : ∃ r, parseObjectReference P (.document d) = .ok r ∧ parseObjectReference P (.document d') = .ok r
  objectId : ∃ id, Dict.get? d "objectId" = some (.str id) ∧ Dict.get? d' "objectId" = some (.str (P.normalObjectId id))
  digest : (Dict.get? d' "digest").getD .null = (Dict.get? d "digest").getD .null

/-- The operations of a signed reference are reordered; nothing else differs. -/
structure SignedReordered (P : Packages) (d d' : Object) : Prop where
  fields : ∀ k, k ∈ Dict.keys d ↔ k ∈ SignedObjectReference.fields.map str
  other : ∀ k, k ≠ str "objectRef" → k ≠ str "allowedOperations" → Dict.get? d' k = Dict.get? d k
  operations : ∃ ops ops', Dict.get? d "allowedOperations" = some (.arr ops) ∧
    Dict.get? d' "allowedOperations" = some (.arr ops') ∧ ops'.Perm ops
  objectRef : ∃ ref ref', Dict.get? d "objectRef" = some (.obj ref) ∧
    Dict.get? d' "objectRef" = some (.obj ref') ∧ SameReference P ref ref'

/-- A reference document is emitted as a signed one exactly when it is supplied as one. -/
structure ReferenceFaithful (P : Packages) (d d' : Object) : Prop where
  format : HasSignedFormat d' ↔ HasSignedFormat d
  signed : HasSignedFormat d → SignedReordered P d d'
  unsigned : ¬ HasSignedFormat d → SameReference P d d'

/-- An intent is null and stays so, or a document with these fields that is emitted as it is. -/
def IntentUnchanged (arguments input : Object) (k : String) (fields : List String) : Prop :=
  ∀ v, Dict.get? arguments (str k) = some v →
    (v = .null ∧ Dict.get? input (str k) = some .null) ∨
    ∃ d d', v = .obj d ∧ Dict.get? input (str k) = some (.obj d') ∧ Dict.Same d' d ∧
      ∀ k, k ∈ Dict.keys d ↔ k ∈ fields.map str

theorem PayloadReference.filled {p : PutRequest} {arguments d : Object} (hd : fromMapping d = .ok p.payload)
    (h : p.ReadsIntegrity arguments) : PayloadFilled arguments d p.merged.toDict := by
  have hsame := fromMapping_eq_ok.mp hd
  refine ⟨fun k => ?_, fun k h₁ h₂ => ?_, ?_⟩
  · rw [Dict.mem_keys_iff, hsame k, ← Dict.mem_keys_iff]
    rfl
  · rw [hsame k]
    simp [toDict, PutRequest.merged, Ne.symm h₁, Ne.symm h₂]
  · simp only [List.mem_cons, List.not_mem_nil, or_false, forall_eq_or_imp, forall_eq]
    rw [hsame _, hsame _, h.expectedDigest, h.expectedLength]
    refine ⟨?_, ?_⟩
    · by_cases hn : p.payload.expectedDigest = none
      · exact Or.inr ⟨by simp [toDict, hn, wireDigest], by simp [toDict, PutRequest.merged]⟩
      · exact Or.inl (by simp [toDict, PutRequest.merged, h.digest_agrees hn])
    · by_cases hn : p.payload.expectedLength = none
      · exact Or.inr ⟨by simp [toDict, hn, ByteRange.wireNat], by simp [toDict, PutRequest.merged]⟩
      · exact Or.inl (by simp [toDict, PutRequest.merged, h.length_agrees hn])

theorem ByteRange.trimmed {r : ByteRange} {d : Object} (h : fromMapping d = .ok r) : RangeTrimmed d r.toDict := by
  have hkeys : ∀ k ∈ Dict.keys r.toDict, k ∈ ["start", "end", "suffixLength"].map str := by
    unfold toDict
    split <;> simp
  rcases fromMapping_eq_ok.mp h with hsame | ⟨hn, hsame⟩
  · refine ⟨fun k hk => hkeys k ?_, fun k => Or.inl (hsame k).symm⟩
    rwa [Dict.mem_keys_iff, ← hsame k, ← Dict.mem_keys_iff]
  · obtain ⟨hx, he⟩ := r.length?_eq_none_iff.mp hn
    have hdict : r.toDict = [(str "start", wireNat r.start)] := by simp [toDict, hx, he]
    refine ⟨fun k hk => ?_, fun k => ?_⟩
    · rw [Dict.mem_keys_iff, hsame k, ← Dict.mem_keys_iff, hdict] at hk
      simp [nullEnd] at hk ⊢
      tauto
    · rw [hsame k, hdict]
      by_cases hk : k = str "end"
      · exact Or.inr ⟨hk, by simp [hk, nullEnd], by simp [hk]⟩
      · exact Or.inl (by simp [nullEnd, Ne.symm hk])

theorem sameReference_of_read (hP : P.RoundTrips) (hS : P.StoresReference) (hN : P.NormalizesIds) {d : Object}
    {r : P.ObjectReference} (h : readObjectReference P (.document d) = .ok r) : SameReference P d (P.referenceToDict r) := by
  have hdoc := hP.referenceToDict r
  obtain ⟨-, raw, resource, objectId, -, -, ho, hnew⟩ := readObjectReference_document_eq_ok.mp h
  obtain ⟨-, hdig⟩ := hS.newObjectReference _ _ _ _ hnew
  obtain ⟨id, rfl, hnormal⟩ := hN.objectId _ _ _ _ hnew
  refine ⟨fun k hk => ?_, fun k hk => ?_, ⟨r, ?_, ?_⟩, ⟨id, ho, ?_⟩, by rw [hdig]; exact hdoc.digest⟩
  · simpa [referenceFields] using keys_of_readObjectReference h hk
  · simpa [referenceFields] using hdoc.keys k hk
  · exact parseObjectReference_eq_ok.mpr ⟨h, by simp⟩
  · exact parseObjectReference_eq_ok.mpr ⟨readObjectReference_toDict hP r, by simp⟩
  · rw [← hnormal]
    exact hdoc.objectId

theorem SignedObjectReference.reordered (hP : P.RoundTrips) (hS : P.StoresReference) (hN : P.NormalizesIds)
    {d : Object} {s : SignedObjectReference P} (h : fromMapping P d = .ok s) : SignedReordered P d s.toDict := by
  obtain ⟨raw, ops, hsame, hread, hperm, -⟩ := (fromMapping_eq_ok hP).mp h
  refine ⟨fun k => ?_, fun k h₁ h₂ => ?_, ?_, ?_⟩
  · rw [Dict.mem_keys_iff, hsame k, ← Dict.mem_keys_iff, keys_documentOver]
  · rw [hsame k]
    simp [toDict, documentOver, claimsOver, Ne.symm h₁, Ne.symm h₂]
  · exact ⟨ops.map .str, s.allowedOperations.map .str, by rw [hsame _]; simp [documentOver, claimsOver],
      by simp [toDict, documentOver, claimsOver], hperm.symm.map _⟩
  · exact ⟨raw, P.referenceToDict s.objectRef, by rw [hsame _]; simp [documentOver, claimsOver],
      by simp [toDict, documentOver, claimsOver], sameReference_of_read hP hS hN hread⟩

theorem LogicalReference.faithful (hP : P.RoundTrips) (hS : P.StoresReference) (hN : P.NormalizesIds) {d : Object}
    {reference : LogicalReference P} (h : parseLogicalReference P d = .ok reference) :
    ReferenceFaithful P d reference.toDict := by
  cases reference with
  | object r =>
    obtain ⟨hf, hread⟩ := parseLogicalReference_object_eq_ok.mp h
    refine ⟨⟨fun h => ?_, fun h => absurd h hf⟩, fun h => absurd h hf, fun _ => sameReference_of_read hP hS hN hread⟩
    rw [HasSignedFormat, toDict, get?_referenceToDict_formatVersion hP r] at h
    cases h
  | signed s =>
    obtain ⟨hf, hs⟩ := parseLogicalReference_signed_eq_ok.mp h
    exact ⟨iff_of_true (hasSignedFormat_documentOver s _ _) hf,
      fun _ => SignedObjectReference.reordered hP hS hN hs, fun h => absurd hf h⟩

/-! ## The emitted input -/

/-- The arguments that normalization may write anew. -/
def canonicalizedArguments : List String :=
  ["userMetadata", "payload", "range", "reference", "immutability", "retention", "profile"]

/-- The emitted input has the arguments supplied, each identical or denoting the same value. -/
structure InputFaithful (P : Packages) (arguments input : Object) : Prop where
  names : Dict.keys input = Dict.keys arguments
  identical : ∀ k, k ∉ canonicalizedArguments.map str → Dict.get? input k = Dict.get? arguments k
  userMetadata : Rewritten arguments input "userMetadata" fun d d' => d'.Perm d
  payload : Rewritten arguments input "payload" (PayloadFilled arguments)
  range : Rewritten arguments input "range" RangeTrimmed
  reference : Rewritten arguments input "reference" (ReferenceFaithful P)
  immutability : IntentUnchanged arguments input "immutability" ["mutability", "publishOnce"]
  retention : IntentUnchanged arguments input "retention" ["retainUntil", "policy", "requireEnforcement"]
  profile : Rewritten arguments input "profile" fun d d' =>
    ∃ profile, parseObjectProfile P d = .ok profile ∧ parseObjectProfile P d' = .ok profile

/-- A document of the arguments has a field unknown to the contract. -/
inductive HasUnknownField (arguments : Object) : Prop
  | payload {d : Object} {k : Str} (h : Dict.get? arguments "payload" = some (.obj d)) (hk : k ∈ Dict.keys d)
      (hn : k ∉ payloadFields.map str)
  | range {d : Object} {k : Str} (h : Dict.get? arguments "range" = some (.obj d)) (hk : k ∈ Dict.keys d)
      (hn : k ∉ ["start", "end", "suffixLength"].map str)
  | immutability {d : Object} {k : Str} (h : Dict.get? arguments "immutability" = some (.obj d))
      (hk : k ∈ Dict.keys d) (hn : k ∉ ["mutability", "publishOnce"].map str)
  | retention {d : Object} {k : Str} (h : Dict.get? arguments "retention" = some (.obj d))
      (hk : k ∈ Dict.keys d) (hn : k ∉ ["retainUntil", "policy", "requireEnforcement"].map str)
  | signed {d : Object} {k : Str} (h : Dict.get? arguments "reference" = some (.obj d)) (hs : HasSignedFormat d)
      (hk : k ∈ Dict.keys d) (hn : k ∉ SignedObjectReference.fields.map str)
  | objectRef {d ref : Object} {k : Str} (h : Dict.get? arguments "reference" = some (.obj d))
      (hs : HasSignedFormat d) (hr : Dict.get? d "objectRef" = some (.obj ref)) (hk : k ∈ Dict.keys ref)
      (hn : k ∉ referenceFields.map str)
  | unsigned {d : Object} {k : Str} (h : Dict.get? arguments "reference" = some (.obj d))
      (hs : ¬ HasSignedFormat d) (hk : k ∈ Dict.keys d) (hn : k ∉ referenceFields.map str)

theorem Rewritten.of_get? {arguments input : Object} {k : String} {R : Object → Object → Prop}
    (h : Rewritten arguments input k R) {d : Object} (hd : Dict.get? arguments (str k) = some (.obj d)) :
    ∃ d', R d d' := by
  obtain ⟨_, d', hv, -, hR⟩ := h _ hd
  cases hv
  exact ⟨d', hR⟩

theorem IntentUnchanged.fields {arguments input : Object} {k : String} {fields : List String}
    (h : IntentUnchanged arguments input k fields) {d : Object}
    (hd : Dict.get? arguments (str k) = some (.obj d)) : ∀ k, k ∈ Dict.keys d ↔ k ∈ fields.map str := by
  rcases h _ hd with ⟨hv, -⟩ | ⟨_, _, hv, -, -, hf⟩
  · cases hv
  · cases hv
    exact hf

/-- An input emitted faithfully leaves no unknown field. -/
theorem InputFaithful.not_hasUnknownField {arguments input : Object} (h : InputFaithful P arguments input) :
    ¬ HasUnknownField arguments := by
  rintro (⟨hd, hk, hn⟩ | ⟨hd, hk, hn⟩ | ⟨hd, hk, hn⟩ | ⟨hd, hk, hn⟩ | ⟨hd, hs, hk, hn⟩ | ⟨hd, hs, hr, hk, hn⟩ |
    ⟨hd, hs, hk, hn⟩)
  · obtain ⟨_, hR⟩ := h.payload.of_get? hd
    exact hn ((hR.fields _).mp hk)
  · obtain ⟨_, hR⟩ := h.range.of_get? hd
    exact hn (hR.fields _ hk)
  · exact hn ((h.immutability.fields hd _).mp hk)
  · exact hn ((h.retention.fields hd _).mp hk)
  · obtain ⟨_, hR⟩ := h.reference.of_get? hd
    exact hn (((hR.signed hs).fields _).mp hk)
  · obtain ⟨_, hR⟩ := h.reference.of_get? hd
    obtain ⟨ref, _, hr', -, hsame⟩ := (hR.signed hs).objectRef
    rw [hr] at hr'
    cases hr'
    exact hn (hsame.fields _ hk)
  · obtain ⟨_, hR⟩ := h.reference.of_get? hd
    exact hn ((hR.unsigned hs).fields _ hk)

/-- An intent that is read from a document is emitted with its fields and values. -/
theorem intentUnchanged {α : Type} {arguments input : Object} {k : String} {fields : List String}
    {parse : Object → Py α} {toDict : α → Object} {intent : Option α}
    (hparse : ∀ d a, parse d = .ok a → Dict.Same d (toDict a)) (hkeys : ∀ a, Dict.keys (toDict a) = fields.map str)
    (h : ∃ j, Dict.get? arguments (str k) = some j ∧ NullableDocument parse j intent)
    (hin : Dict.get? input (str k) =
      (intent.map fun a => Json.obj (toDict a)).or (Dict.get? arguments (str k))) :
    IntentUnchanged arguments input k fields := by
  obtain ⟨j, hj, hdoc⟩ := h
  intro v hv
  rw [hj] at hv hin
  cases hv
  cases intent with
  | none =>
    obtain rfl : j = .null := hdoc
    exact Or.inl ⟨rfl, hin⟩
  | some a =>
    obtain ⟨d, rfl, hd⟩ := hdoc
    have hsame := hparse d a hd
    refine Or.inr ⟨d, toDict a, rfl, hin, fun k => (hsame k).symm, fun k => ?_⟩
    rw [Dict.mem_keys_iff, hsame k, ← Dict.mem_keys_iff, hkeys]

/-- The updates of a put that are not canonicalized are what is there. -/
theorem PutRequest.get?_updates_identical {p : PutRequest} {value : Object} {resource : ResourceRef}
    (h : p.Reads P value resource) {k : Str} (hk : k ∉ canonicalizedArguments.map str) {v : Json}
    (hv : (k, v) ∈ p.updates) : Dict.get? value k = some v := by
  simp only [canonicalizedArguments, List.map_cons, List.map_nil, List.mem_cons, List.not_mem_nil, or_false,
    not_or] at hk
  obtain ⟨h₁, h₂, -, -, h₃, h₄, -⟩ := hk
  rcases List.mem_append.mp hv with hv | hv
  · simp only [integrityUpdates, List.mem_cons, Prod.mk.injEq, List.not_mem_nil, or_false] at hv
    rcases hv with ⟨rfl, -⟩ | ⟨rfl, rfl⟩ | ⟨rfl, rfl⟩
    · exact absurd rfl h₂
    · exact h.integrity.expectedDigest
    · exact h.integrity.expectedLength
  rcases List.mem_append.mp hv with hv | hv
  · simp only [metadataUpdates, List.mem_cons, Prod.mk.injEq, List.not_mem_nil, or_false] at hv
    rcases hv with ⟨rfl, -⟩ | ⟨rfl, rfl⟩ | ⟨rfl, rfl⟩
    · exact absurd rfl h₁
    · exact h.metadata.creationContext
    · exact h.metadata.provenance
  rcases List.mem_append.mp hv with hv | hv
  · have : k ∈ Dict.keys (immutabilityUpdates p.immutability) := List.mem_map_of_mem (f := Prod.fst) hv
    cases him : p.immutability <;> simp [immutabilityUpdates, him, h₃] at this
  · have : k ∈ Dict.keys (retentionUpdates p.retention) := List.mem_map_of_mem (f := Prod.fst) hv
    cases hrt : p.retention <;> simp [retentionUpdates, hrt, h₄] at this

/-- What is not canonicalized is emitted as it is. -/
theorem Request.get?_update_identical {r : Request P} {method : Str} {value : Object} {resource : ResourceRef}
    (h : r.Reads method value resource) {k : Str} (hk : k ∉ canonicalizedArguments.map str) :
    Dict.get? (Dict.update value r.updates) k = Dict.get? value k := by
  rw [get?_update]
  cases hu : Dict.get? r.updates k with
  | none => rfl
  | some v =>
    have hmem : (k, v) ∈ r.updates := Dict.mem_of_get? hu
    cases r with
    | put p => exact (p.get?_updates_identical h.2.2 hk hmem).symm
    | createResource profile options =>
      simp only [updates, List.mem_cons, Prod.mk.injEq, List.not_mem_nil, or_false] at hmem
      rcases hmem with ⟨rfl, -⟩ | ⟨rfl, rfl⟩
      · exact absurd (by decide) hk
      · exact h.2.2.options.symm
    | publishSchema => simp [updates] at hmem
    | list limit => simp [updates] at hmem
    | read reference =>
      simp only [updates, List.mem_singleton, Prod.mk.injEq] at hmem
      exact absurd (hmem.1 ▸ by decide) hk
    | readRange reference range =>
      simp only [updates, List.mem_cons, Prod.mk.injEq, List.not_mem_nil, or_false] at hmem
      rcases hmem with ⟨rfl, -⟩ | ⟨rfl, -⟩
      · exact absurd (by decide) hk
      · exact absurd (by decide) hk
    | delete reference =>
      simp only [updates, List.mem_singleton, Prod.mk.injEq] at hmem
      exact absurd (hmem.1 ▸ by decide) hk

/-- The entries of the user metadata are those supplied. -/
theorem wireStrings_perm {raw : Object} {r : Dict Str Str} {field : String} {me mk mv : Nat}
    (hn : (Dict.keys raw).Nodup) (h : stringMapping (.obj raw) field me mk mv = .ok r) :
    (wireStrings r).Perm raw := by
  obtain ⟨items, rfl, -, -, rfl⟩ := (stringMapping_eq_ok hn).mp h
  exact (sortedItems_perm items).map _

/-- **A request's updates keep what its arguments denote.** -/
theorem Request.faithful (hP : P.RoundTrips) (hS : P.StoresReference) (hN : P.NormalizesIds) {r : Request P}
    {method : Str} {value : Object} {resource : ResourceRef} (hw : Json.WellFormed (.obj value))
    (h : r.Reads method value resource) : InputFaithful P value (Dict.update value r.updates) where
  names := Dict.keys_update (keys_updates h)
  identical k hk := get?_update_identical h hk
  userMetadata v hv := by
    obtain ⟨p, rfl, hp⟩ := put_of_get? h (by simp) hv
    obtain ⟨raw, hraw, hs⟩ := hp.metadata.userMetadata
    rw [hraw] at hv
    cases hv
    exact ⟨raw, wireStrings p.userMetadata, rfl, by rw [get?_update]; rfl,
      wireStrings_perm (hw.get? hraw).keys_nodup hs⟩
  payload v hv := by
    obtain ⟨p, rfl, hp⟩ := put_of_get? h (by simp) hv
    obtain ⟨raw, hraw, hparse⟩ := hp.integrity.payload
    rw [hraw] at hv
    cases hv
    exact ⟨raw, p.merged.toDict, rfl, by rw [get?_update]; rfl, PayloadReference.filled hparse hp.integrity⟩
  range v hv := by
    obtain ⟨reference, range, rfl, raw, hraw, hparse⟩ := readRange_of_get? h hv
    rw [hraw] at hv
    cases hv
    exact ⟨raw, range.toDict, rfl, by rw [get?_update]; simp [updates], range.trimmed hparse⟩
  reference v hv := by
    obtain ⟨reference, _, href, hup⟩ := reference_of_get? h hv
    obtain ⟨raw, hraw, hparse⟩ := href.document
    rw [hraw] at hv
    cases hv
    exact ⟨raw, reference.toDict, rfl, by rw [get?_update, hup, Option.some_or], reference.faithful hP hS hN hparse⟩
  immutability v hv := by
    obtain ⟨p, rfl, hp⟩ := put_of_get? h (by simp) hv
    refine intentUnchanged (fun d a => ImmutabilityRequest.fromMapping_eq_ok.mp) (fun _ => rfl)
      hp.intents.immutability ?_ v hv
    rw [get?_update]
    exact congrArg (Option.or · _) p.get?_updates_immutability
  retention v hv := by
    obtain ⟨p, rfl, hp⟩ := put_of_get? h (by simp) hv
    refine intentUnchanged (fun d a hd => (RetentionRequest.fromMapping_eq_ok.mp hd).1) (fun _ => rfl)
      hp.intents.retention ?_ v hv
    rw [get?_update]
    exact congrArg (Option.or · _) p.get?_updates_retention
  profile v hv := by
    obtain ⟨profile, options, rfl, hc⟩ := createResource_of_get? h hv
    obtain ⟨raw, hraw, hparse⟩ := hc.profile
    rw [hraw] at hv
    cases hv
    exact ⟨raw, P.profileToDict profile, rfl, by rw [get?_update]; simp [updates], profile, hparse,
      parseObjectProfile_toDict hP profile⟩

/-- **Normalization loses and invents nothing**: the emitted input has the arguments supplied, each
identical or denoting the same value, and a field unknown to the contract is not accepted. -/
theorem normalize_faithful (hP : P.RoundTrips) (hS : P.StoresReference) (hN : P.NormalizesIds) {e : Expression}
    {o : Operation} (h : normalize P e = .ok o) : InputFaithful P e.arguments o.input ∧ ¬ HasUnknownField e.arguments := by
  obtain ⟨contract, resource, r, hacc, rfl⟩ := normalize_eq_ok.mp h
  have hf : InputFaithful P e.arguments (operationOf P e contract resource r).input :=
    Request.faithful hP hS hN e.wellFormed hacc.reads
  exact ⟨hf, hf.not_hasUnknownField⟩

theorem normalize_faithful_putFixture :
    ∃ o, normalize contracts Contracts.putFixture = .ok o ∧
      InputFaithful contracts Contracts.putFixture.arguments o.input ∧
      ¬ HasUnknownField Contracts.putFixture.arguments := by
  obtain ⟨o, ho⟩ := normalize_putFixture
  exact ⟨o, ho, normalize_faithful Contracts.roundTrips Contracts.storesReference Contracts.normalizesIds ho⟩

end ObjectCommon
