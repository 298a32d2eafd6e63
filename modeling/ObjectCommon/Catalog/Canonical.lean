import ObjectCommon.Catalog.Inversion

/-!
# The canonical form of a request

What normalization emits denotes the request again, its payload completed.

* `Request.canonical` : the request that the emitted arguments denote (`Request.reads_canonical`);
* `Request.updates_canonical`, `Request.demands_canonical` : it is written as it stands and demands
  the same;
* `Request.keys_updates` : only arguments that are there are rewritten.
-/

namespace ObjectCommon

open Outcome PyError

variable {P : Packages}

/-! ## References -/

/-- What a reference writes is read back as that reference. -/
theorem parseLogicalReference_toDict (hP : P.RoundTrips) {raw : Object} {reference : LogicalReference P}
    (h : parseLogicalReference P raw = .ok reference) :
    parseLogicalReference P reference.toDict = .ok reference := by
  cases reference with
  | object r =>
    refine parseLogicalReference_object_eq_ok.mpr ⟨?_, readObjectReference_toDict hP r⟩
    intro hf
    rw [HasSignedFormat, LogicalReference.toDict, get?_referenceToDict_formatVersion hP r] at hf
    cases hf
  | signed s =>
    obtain ⟨-, hs⟩ := parseLogicalReference_signed_eq_ok.mp h
    obtain ⟨_, _, -, -, -, ht⟩ := (SignedObjectReference.fromMapping_eq_ok hP).mp hs
    exact parseLogicalReference_signed_eq_ok.mpr
      ⟨hasSignedFormat_documentOver s _ _, SignedObjectReference.fromMapping_toDict hP ht⟩

theorem ReadsReference.canonical (hP : P.RoundTrips) {value value' : Object} {resource : ResourceRef}
    {method : Str} {requireDigest : Bool} {reference : LogicalReference P}
    (h : ReadsReference value resource method requireDigest reference)
    (hget : Dict.get? value' "reference" = some (.obj reference.toDict)) :
    ReadsReference value' resource method requireDigest reference := by
  obtain ⟨⟨raw, -, hparse⟩, hp, hs⟩ := h
  exact ⟨⟨_, hget, parseLogicalReference_toDict hP hparse⟩, hp, hs⟩

/-! ## Puts -/

namespace PutRequest

/-- The put that the emitted arguments denote. -/
def canonical (p : PutRequest) : PutRequest := { p with payload := p.merged }

theorem keys_updates_subset (p : PutRequest) :
    ∀ k ∈ Dict.keys p.updates, k ∈ putFields.map str := by
  obtain ⟨_, _, _, _, _, _, _, _, im, rt, _⟩ := p
  cases im <;> cases rt <;>
    simp [updates, integrityUpdates, metadataUpdates, immutabilityUpdates, retentionUpdates, putFields]

theorem keys_updates_nodup (p : PutRequest) : (Dict.keys p.updates).Nodup := by
  obtain ⟨_, _, _, _, _, _, _, _, im, rt, _⟩ := p
  cases im <;> cases rt <;>
    simp [updates, integrityUpdates, metadataUpdates, immutabilityUpdates, retentionUpdates]

theorem get?_updates_immutability (p : PutRequest) :
    Dict.get? p.updates (str "immutability") = p.immutability.map fun i => .obj i.toDict := by
  obtain ⟨_, _, _, _, _, _, _, _, im, rt, _⟩ := p
  cases im <;> cases rt <;>
    simp [updates, integrityUpdates, metadataUpdates, immutabilityUpdates, retentionUpdates]

theorem get?_updates_retention (p : PutRequest) :
    Dict.get? p.updates (str "retention") = p.retention.map fun r => .obj r.toDict := by
  obtain ⟨_, _, _, _, _, _, _, _, im, rt, _⟩ := p
  cases im <;> cases rt <;>
    simp [updates, integrityUpdates, metadataUpdates, immutabilityUpdates, retentionUpdates]

/-- What the updates of a put do to its arguments. -/
theorem get?_update (p : PutRequest) (value : Object) (k : Str) :
    Dict.get? (Dict.update value p.updates) k = (Dict.get? p.updates k).or (Dict.get? value k) :=
  Dict.get?_update p.keys_updates_nodup k

theorem get?_update_other (p : PutRequest) (value : Object) {k : String}
    (h : k ∉ ["payload", "expectedDigest", "expectedLength", "userMetadata", "creationContext", "provenance",
      "immutability", "retention"]) :
    Dict.get? (Dict.update value p.updates) (str k) = Dict.get? value (str k) := by
  refine Dict.get?_update_of_notMem fun hk => h ?_
  obtain ⟨_, _, _, _, _, _, _, _, im, rt, _⟩ := p
  cases im <;> cases rt <;>
    simp [updates, integrityUpdates, metadataUpdates, immutabilityUpdates, retentionUpdates] at hk ⊢ <;> tauto

theorem stringMapping_wireStrings {raw : Object} {r : Dict Str Str} {field : String} {me mk mv : Nat}
    (hn : (Dict.keys raw).Nodup) (h : stringMapping (.obj raw) field me mk mv = .ok r) :
    stringMapping (.obj (wireStrings r)) field me mk mv = .ok r := by
  obtain ⟨items, rfl, hl, hb, rfl⟩ := (stringMapping_eq_ok hn).mp h
  have hperm := sortedItems_perm items
  rw [keys_wireStrings] at hn
  have hn' : (Dict.keys (wireStrings (sortedItems items))).Nodup := by
    rw [keys_wireStrings]
    exact (hperm.map Prod.fst).nodup_iff.mpr hn
  exact (stringMapping_eq_ok hn').mpr ⟨sortedItems items, rfl, by rwa [hperm.length_eq],
    fun e he => hb e (hperm.mem_iff.mp he), (sortedItems_sortedItems items).symm⟩

/-- The emitted arguments of a put denote its canonical form. -/
theorem Reads.canonical {p : PutRequest} {value : Object} {resource : ResourceRef}
    (hw : Json.WellFormed (.obj value)) (h : p.Reads P value resource) :
    p.canonical.Reads P (Dict.update value p.updates) resource := by
  have hother : ∀ {k}, k ∉ ["payload", "expectedDigest", "expectedLength", "userMetadata", "creationContext",
      "provenance", "immutability", "retention"] →
      Dict.get? (Dict.update value p.updates) (str k) = Dict.get? value (str k) :=
    fun hk => p.get?_update_other value hk
  obtain ⟨hf, hi, hid, hm, hint, hc⟩ := h
  have hkeys : ∀ k ∈ Dict.keys p.updates, k ∈ Dict.keys value := fun k hk => by
    obtain ⟨f, hfm, rfl⟩ := List.mem_map.mp (p.keys_updates_subset k hk)
    exact (exactFields_eq_ok.mp hf).1 f hfm
  refine ⟨by rwa [exactFields_update hkeys], ⟨?_, ?_, ?_, fun _ => rfl, fun _ => rfl⟩,
    ⟨(hother (by decide)).trans hid.mediaType, (hother (by decide)).trans hid.objectId, hid.reference⟩,
    ⟨?_, ?_, ?_⟩, ⟨?_, ?_⟩, (hother (by decide)).trans hc⟩
  · exact ⟨_, by rw [p.get?_update]; rfl, PayloadReference.fromMapping_toDict _⟩
  · rw [p.get?_update]; rfl
  · rw [p.get?_update]; rfl
  · obtain ⟨raw, hraw, hs⟩ := hm.userMetadata
    have hn : (Dict.keys raw).Nodup := (hw.get? hraw).keys_nodup
    exact ⟨_, by rw [p.get?_update]; rfl, stringMapping_wireStrings hn hs⟩
  · rw [p.get?_update]; rfl
  · rw [p.get?_update]; rfl
  · rw [p.get?_update, p.get?_updates_immutability]
    obtain ⟨j, hj, him⟩ := hint.immutability
    show ∃ j, _ ∧ NullableDocument _ j p.immutability
    cases hi' : p.immutability with
    | none => exact ⟨j, by simpa using hj, by rwa [hi'] at him⟩
    | some i => exact ⟨_, rfl, _, rfl, ImmutabilityRequest.fromMapping_eq_ok.mpr (Dict.Same.refl _)⟩
  · rw [p.get?_update, p.get?_updates_retention]
    obtain ⟨j, hj, hrt⟩ := hint.retention
    show ∃ j, _ ∧ NullableDocument _ j p.retention
    cases hr' : p.retention with
    | none => exact ⟨j, by simpa using hj, by rwa [hr'] at hrt⟩
    | some r =>
      rw [hr'] at hrt
      obtain ⟨raw, -, hparse⟩ := hrt
      have ht := (RetentionRequest.fromMapping_eq_ok.mp hparse).2
      exact ⟨_, rfl, _, rfl, RetentionRequest.fromMapping_eq_ok.mpr ⟨Dict.Same.refl _, ht⟩⟩

end PutRequest

/-! ## Requests -/

namespace Request

/-- The request that the emitted arguments denote. -/
def canonical : Request P → Request P
  | .put p => .put p.canonical
  | r => r

theorem updates_canonical (r : Request P) : r.canonical.updates = r.updates := by
  cases r <;> rfl

theorem demands_canonical (r : Request P) : r.canonical.demands = r.demands := by
  cases r <;> rfl

theorem keys_updates_nodup (r : Request P) : (Dict.keys r.updates).Nodup := by
  cases r with
  | put p => exact p.keys_updates_nodup
  | _ => simp [updates]

/-- Only arguments that are there are rewritten. -/
theorem keys_updates {r : Request P} {method : Str} {value : Object} {resource : ResourceRef}
    (h : r.Reads method value resource) : ∀ k ∈ Dict.keys r.updates, k ∈ Dict.keys value := by
  cases r with
  | publishSchema => simp [updates]
  | createResource profile options =>
    have hf := (exactFields_eq_ok.mp h.2.2.fields).1
    simpa [updates] using And.intro (hf "profile" (by simp)) (hf "options" (by simp))
  | put p =>
    intro k hk
    obtain ⟨f, hfm, rfl⟩ := List.mem_map.mp (p.keys_updates_subset k hk)
    exact (exactFields_eq_ok.mp h.2.2.fields).1 f hfm
  | read reference =>
    have hf := (exactFields_eq_ok.mp h.2.2.1).1
    simpa [updates] using hf "reference" (by simp)
  | readRange reference range =>
    have hf := (exactFields_eq_ok.mp h.2.2.1).1
    simpa [updates] using And.intro (hf "reference" (by simp)) (hf "range" (by simp))
  | list limit => simp [updates]
  | delete reference =>
    have hf := (exactFields_eq_ok.mp h.2.2.1).1
    simpa [updates] using hf "reference" (by simp)

/-- What the updates of a request do to the arguments. -/
theorem get?_update (r : Request P) (value : Object) (k : Str) :
    Dict.get? (Dict.update value r.updates) k = (Dict.get? r.updates k).or (Dict.get? value k) :=
  Dict.get?_update r.keys_updates_nodup k

/-- The Resource is not rewritten. -/
theorem get?_update_resource (r : Request P) (value : Object) :
    Dict.get? (Dict.update value r.updates) (str "resource") = Dict.get? value (str "resource") := by
  cases r with
  | put p => exact p.get?_update_other value (by decide)
  | _ => exact Dict.get?_update_of_notMem (by simp [updates])

/-- **The emitted arguments denote the canonical form of the request.** -/
theorem reads_canonical (hP : P.RoundTrips) {r : Request P} {method : Str} {value : Object}
    {resource : ResourceRef} (hw : Json.WellFormed (.obj value)) (h : r.Reads method value resource) :
    r.canonical.Reads method (Dict.update value r.updates) resource := by
  have hf : ∀ required, exactFields (Dict.update value r.updates) required =
      exactFields value required := fun required => exactFields_update (keys_updates h) required []
  have hres : ∀ {res}, ReadsResource P value res → ReadsResource P (Dict.update value r.updates) res := by
    intro res hres
    unfold ReadsResource at hres ⊢
    rwa [r.get?_update_resource]
  cases r with
  | publishSchema => exact h
  | createResource profile options =>
    obtain ⟨hm, hr, hfields, ⟨ns, nm, ref, hns, hnm, href⟩, -, -⟩ := h
    refine ⟨hm, hr, (hf _).trans hfields, ⟨ns, nm, ref, ?_, ?_, href⟩, ⟨P.profileToDict profile, ?_, ?_⟩, ?_⟩
    · rwa [Dict.get?_update_of_notMem (by simp [updates])]
    · rwa [Dict.get?_update_of_notMem (by simp [updates])]
    · rw [get?_update]; simp [updates]
    · exact parseObjectProfile_toDict hP profile
    · rw [get?_update]; simp [updates]
  | put p =>
    obtain ⟨hm, hr, hp⟩ := h
    exact ⟨hm, hres hr, hp.canonical hw⟩
  | read reference =>
    obtain ⟨hm, hr, hfields, href⟩ := h
    exact ⟨hm, hres hr, (hf _).trans hfields, href.canonical hP (by rw [get?_update]; simp [updates])⟩
  | readRange reference range =>
    obtain ⟨hm, hr, hfields, href, -⟩ := h
    exact ⟨hm, hres hr, (hf _).trans hfields, href.canonical hP (by rw [get?_update]; simp [updates]),
      range.toDict, by rw [get?_update]; simp [updates], ByteRange.fromMapping_toDict range⟩
  | list limit => exact ⟨h.1, hres h.2.1, h.2.2⟩
  | delete reference =>
    obtain ⟨hm, hr, hfields, href, c, hc⟩ := h
    refine ⟨hm, hres hr, (hf _).trans hfields, href.canonical hP (by rw [get?_update]; simp [updates]), c, ?_⟩
    rwa [Dict.get?_update_of_notMem (by simp [updates])]

end Request

/-! ## What is emitted -/

theorem LogicalReference.toDict_wellFormed (reference : LogicalReference P) :
    Json.WellFormed (.obj reference.toDict) := by
  cases reference with
  | object r => exact P.referenceToDict_wellFormed r
  | signed s => exact s.toDict_wellFormed

theorem wireStrings_wellFormed {items : Dict Str Str} (h : (Dict.keys items).Nodup) :
    Json.WellFormed (.obj (wireStrings items)) := by
  refine .obj (by rwa [keys_wireStrings]) fun e he => ?_
  obtain ⟨x, -, rfl⟩ := List.mem_map.mp he
  exact .str _

/-- Rewriting arguments with well-formed values keeps them well formed. -/
theorem wellFormed_update {value u : Object} (h : Json.WellFormed (.obj value))
    (hu : ∀ e ∈ u, Json.WellFormed e.2) : Json.WellFormed (.obj (Dict.update value u)) := by
  induction u generalizing value with
  | nil => exact h
  | cons e u ih =>
    exact ih (h.set (hu e List.mem_cons_self)) fun e' he' => hu e' (List.mem_cons_of_mem _ he')

theorem keys_nodup_of_stringMapping {raw : Object} {r : Dict Str Str} {field : String} {me mk mv : Nat}
    (hn : (Dict.keys raw).Nodup) (h : stringMapping (.obj raw) field me mk mv = .ok r) :
    (Dict.keys r).Nodup := by
  obtain ⟨items, rfl, -, -, rfl⟩ := (stringMapping_eq_ok hn).mp h
  rw [keys_wireStrings] at hn
  exact ((sortedItems_perm items).map Prod.fst).nodup_iff.mpr hn

theorem Request.updates_wellFormed {r : Request P} {method : Str} {value : Object} {resource : ResourceRef}
    (hw : Json.WellFormed (.obj value)) (h : r.Reads method value resource) :
    ∀ e ∈ r.updates, Json.WellFormed e.2 := by
  cases r with
  | publishSchema => simp [updates]
  | createResource profile options =>
    simpa [updates] using And.intro (P.profileToDict_wellFormed profile) (hw.get? h.2.2.options)
  | put p =>
    obtain ⟨-, -, hp⟩ := h
    obtain ⟨raw, hraw, hs⟩ := hp.metadata.userMetadata
    have hum := wireStrings_wellFormed (keys_nodup_of_stringMapping (hw.get? hraw).keys_nodup hs)
    have hd : Json.WellFormed (wireDigest p.expectedDigest) := Json.wellFormed_nullable (fun _ => .str _) _
    have hl : Json.WellFormed (ByteRange.wireNat p.expectedLength) := Json.wellFormed_nullable (fun _ => .int _) _
    cases him : p.immutability <;> cases hrt : p.retention <;>
      simp [updates, PutRequest.updates, PutRequest.integrityUpdates, PutRequest.metadataUpdates,
        immutabilityUpdates, retentionUpdates, him, hrt, hd, hl, hum, p.merged.toDict_wellFormed,
        hw.get? hp.metadata.creationContext, hw.get? hp.metadata.provenance,
        ImmutabilityRequest.toDict_wellFormed, RetentionRequest.toDict_wellFormed]
  | read reference => simpa [updates] using reference.toDict_wellFormed
  | readRange reference range =>
    simpa [updates] using And.intro reference.toDict_wellFormed range.toDict_wellFormed
  | list limit => simp [updates]
  | delete reference => simpa [updates] using reference.toDict_wellFormed

/-- What normalization emits is a JSON object. -/
theorem operationOf_wellFormed {e : Expression} {contract : OperationContract} {resource : ResourceRef}
    {r : Request P} (h : r.Reads e.method e.arguments resource) :
    Json.WellFormed (.obj (operationOf P e contract resource r).input) :=
  wellFormed_update e.wellFormed (Request.updates_wellFormed e.wellFormed h)

end ObjectCommon
