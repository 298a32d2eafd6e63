import ObjectCommon.Catalog.Canonical

/-!
# Nothing private crosses, and normalization is idempotent

* `Request.updates_public` : normalization writes no private key;
* `privateConfiguration_confined` : private configuration never crosses the public boundary;
* `normalize_idempotent` : what normalization emits normalizes to the same Operation.
-/

namespace ObjectCommon

open Outcome PyError

variable {P : Packages}

/-! ## Private keys of what is written -/

/-- A private key of updated arguments is one of the updates or one of the arguments. -/
theorem hasPrivateKey_update {value u : Object} (h : HasPrivateKey (.obj (Dict.update value u))) :
    (∃ e ∈ u, IsPrivate e.1 ∨ HasPrivateKey e.2) ∨ HasPrivateKey (.obj value) := by
  obtain ⟨e, he, hp⟩ := hasPrivateKey_obj.mp h
  rcases Dict.mem_update he with he | he
  · exact Or.inl ⟨e, he, hp⟩
  · exact Or.inr (hasPrivateKey_obj.mpr ⟨e, he, hp⟩)

theorem HasPrivateKey.of_get? {value : Object} {k : Str} {v : Json} (hk : Dict.get? value k = some v)
    (h : HasPrivateKey v) : HasPrivateKey (.obj value) := by
  obtain ⟨k', hk', hp⟩ := h
  exact ⟨k', .of_get? hk hk', hp⟩

theorem ImmutabilityRequest.toDict_public (r : ImmutabilityRequest) : ¬ HasPrivateKey (.obj r.toDict) :=
  not_hasPrivateKey_fields ["mutability", "publishOnce"] rfl (by decide) (by simp [toDict])

theorem RetentionRequest.toDict_public (r : RetentionRequest) : ¬ HasPrivateKey (.obj r.toDict) := by
  have hu : ¬ HasPrivateKey (Json.nullable .str r.retainUntil) := not_hasPrivateKey_nullable (by simp) _
  have hp : ¬ HasPrivateKey (wirePolicy r.policy) := not_hasPrivateKey_nullable (by simp) _
  exact not_hasPrivateKey_fields ["retainUntil", "policy", "requireEnforcement"] rfl (by decide)
    (by simp [toDict, hu, hp])

theorem wireNat_public (o : Option Nat) : ¬ HasPrivateKey (ByteRange.wireNat o) :=
  not_hasPrivateKey_nullable (by simp) o

theorem wireDigest_public (o : Option Digest) : ¬ HasPrivateKey (wireDigest o) :=
  not_hasPrivateKey_nullable (by simp) o

theorem PayloadReference.toDict_public (r : PayloadReference) : ¬ HasPrivateKey (.obj r.toDict) :=
  not_hasPrivateKey_fields ["formatVersion", "token", "expectedLength", "expectedDigest", "replayable"] rfl
    (by decide) (by simp [toDict, wireNat_public, wireDigest_public])

theorem ByteRange.toDict_public (r : ByteRange) : ¬ HasPrivateKey (.obj r.toDict) := by
  unfold toDict
  split
  · exact not_hasPrivateKey_fields ["suffixLength"] rfl (by decide) (by simp)
  · exact not_hasPrivateKey_fields ["start"] rfl (by decide) (by simp [wireNat_public])
  · exact not_hasPrivateKey_fields ["start", "end"] rfl (by decide) (by simp [wireNat_public])

theorem SignedObjectReference.documentOver_public (hK : P.AddsNoPrivateKey) (s : SignedObjectReference P)
    (operations : List Str) : ¬ HasPrivateKey (.obj (s.documentOver (P.referenceToDict s.objectRef) operations)) := by
  have hr := hK.referenceToDict s.objectRef
  have ho := not_hasPrivateKey_strings operations
  exact not_hasPrivateKey_fields fields (s.keys_documentOver _ _) (by decide)
    (by simp [documentOver, claimsOver, hr, ho])

theorem LogicalReference.toDict_public (hK : P.AddsNoPrivateKey) (reference : LogicalReference P) :
    ¬ HasPrivateKey (.obj reference.toDict) := by
  cases reference with
  | object r => exact hK.referenceToDict r
  | signed s => exact s.documentOver_public hK s.allowedOperations

theorem wireStrings_public {raw : Object} {r : Dict Str Str} {field : String} {me mk mv : Nat}
    (hn : (Dict.keys raw).Nodup) (h : stringMapping (.obj raw) field me mk mv = .ok r)
    (hraw : ¬ HasPrivateKey (.obj raw)) : ¬ HasPrivateKey (.obj (wireStrings r)) := by
  obtain ⟨items, rfl, -, -, rfl⟩ := (stringMapping_eq_ok hn).mp h
  rintro ⟨k, hk, hp⟩
  cases hk with
  | here he =>
    obtain ⟨x, hx, hxe⟩ := List.mem_map.mp he
    exact hraw ⟨k, .here (List.mem_map.mpr ⟨x, (sortedItems_perm items).mem_iff.mp hx, hxe⟩), hp⟩
  | entry he hv =>
    obtain ⟨x, -, hxe⟩ := List.mem_map.mp he
    cases hxe
    exact Json.hasKey_str _ _ hv

theorem optional_public {α : Type} {f : α → Json} (h : ∀ a, ¬ HasPrivateKey (f a)) (o : Option α) (k : Str) :
    ∀ e ∈ (o.map fun a => (k, f a)).toList, ¬ HasPrivateKey e.2 := by
  cases o with
  | none => simp
  | some a => simpa using h a

/-- **Normalization writes no private key.** -/
theorem Request.updates_public (hK : P.AddsNoPrivateKey) {r : Request P} {method : Str} {value : Object}
    {resource : ResourceRef} (hw : Json.WellFormed (.obj value)) (h : r.Reads method value resource)
    (hpub : ¬ HasPrivateKey (.obj value)) : ∀ e ∈ r.updates, ¬ HasPrivateKey e.2 := by
  have hmem : ∀ {k v}, Dict.get? value k = some v → ¬ HasPrivateKey v := fun hk hv => hpub (hv.of_get? hk)
  cases r with
  | publishSchema => simp [updates]
  | createResource profile options =>
    obtain ⟨raw, hraw, hparse⟩ := h.2.2.profile
    obtain ⟨q, hq, hp⟩ := parseObjectProfile_eq_ok.mp hparse
    simpa [updates] using
      And.intro (hK.profileToDict raw q profile hq hp (hmem hraw)) (hmem h.2.2.options)
  | put p =>
    obtain ⟨-, -, hp⟩ := h
    obtain ⟨raw, hraw, hs⟩ := hp.metadata.userMetadata
    have hum := wireStrings_public (hw.get? hraw).keys_nodup hs (hmem hraw)
    have hint : ∀ e ∈ p.integrityUpdates, ¬ HasPrivateKey e.2 := by
      simp [PutRequest.integrityUpdates, PayloadReference.toDict_public, wireDigest_public, wireNat_public]
    have hmeta : ∀ e ∈ p.metadataUpdates, ¬ HasPrivateKey e.2 := by
      simp [PutRequest.metadataUpdates, hum, hmem hp.metadata.creationContext, hmem hp.metadata.provenance]
    intro e he
    rcases List.mem_append.mp he with he | he
    · exact hint e he
    rcases List.mem_append.mp he with he | he
    · exact hmeta e he
    rcases List.mem_append.mp he with he | he
    · exact optional_public (fun i => i.toDict_public) p.immutability _ e he
    · exact optional_public (fun r => r.toDict_public) p.retention _ e he
  | read reference => simpa [updates] using reference.toDict_public hK
  | readRange reference range => simpa [updates] using And.intro (reference.toDict_public hK) range.toDict_public
  | list limit => simp [updates]
  | delete reference => simpa [updates] using reference.toDict_public hK

/-- What normalization emits has no private key. -/
theorem operationOf_public (hK : P.AddsNoPrivateKey) {e : Expression} {contract : OperationContract}
    {resource : ResourceRef} {r : Request P} (h : Accepts P e contract resource r) :
    ¬ HasPrivateKey (.obj (operationOf P e contract resource r).input) := by
  intro hpriv
  rcases hasPrivateKey_update hpriv with ⟨x, hx, hp | hp⟩ | hp
  · have hk : x.1 ∈ Dict.keys e.arguments :=
      Request.keys_updates h.reads _ (List.mem_map_of_mem (f := Prod.fst) hx)
    obtain ⟨v, hv⟩ := Dict.mem_keys_iff.mp hk
    exact h.noPrivateKey ⟨x.1, .here (Dict.mem_of_get? hv), hp⟩
  · exact Request.updates_public hK e.wellFormed h.reads h.noPrivateKey x hx hp
  · exact h.noPrivateKey hp

/-! ## Rejection -/

/-- Arguments with a private key are rejected whatever the method. -/
theorem normalize_of_hasPrivateKey (hP : P.MissesOperations) {e : Expression}
    (h : HasPrivateKey (.obj e.arguments)) : ∃ m c, normalize P e = .error (ObjectInvalidRequest m c) := by
  obtain ⟨m, hm⟩ := (rejectPrivateConfiguration_eq_error (.obj e.arguments) "arguments").mpr h
  have hargs : normalizeArguments P e.method e.arguments = .error (valueError m) := by
    rw [normalizeArguments, hm]
    rfl
  unfold normalize raiseIf
  split
  · exact ⟨_, _, rfl⟩
  · cases hc : P.operationFor objectOperations e.method with
    | error err =>
      rw [hP.operationFor _ _ _ hc]
      exact ⟨_, _, rfl⟩
    | ok contract =>
      rw [hargs]
      exact ⟨_, _, rfl⟩

/-- **Private configuration never crosses the public boundary.** A value is rejected, with a
`ValueError`, exactly when some key at some depth is private; arguments with such a key are rejected
whatever the method; what is emitted has no such key; and spelling the keys another way changes
nothing. -/
theorem privateConfiguration_confined (hP : P.MissesOperations) (hK : P.AddsNoPrivateKey) :
    (∀ (v : Json) (path : Str),
      ((∃ m, rejectPrivateConfiguration v path = .error (valueError m)) ↔
        ∃ k, v.HasKey k ∧ foldedForm k ∈ privateKeys) ∧
      (rejectPrivateConfiguration v path = .ok () ↔ ¬ ∃ k, v.HasKey k ∧ foldedForm k ∈ privateKeys)) ∧
    (∀ e : Expression, (∃ k, (Json.obj e.arguments).HasKey k ∧ foldedForm k ∈ privateKeys) →
      ∃ m c, normalize P e = .error (ObjectInvalidRequest m c)) ∧
    (∀ (e : Expression) (o : Operation), normalize P e = .ok o →
      ∀ k, (Json.obj o.input).HasKey k → foldedForm k ∉ privateKeys) ∧
    (∀ (v v' : Json) (path : Str), Respelled v v' →
      ((∃ m, rejectPrivateConfiguration v' path = .error (valueError m)) ↔
        ∃ m, rejectPrivateConfiguration v path = .error (valueError m))) := by
  refine ⟨fun v path => ⟨rejectPrivateConfiguration_eq_error v path, ?_⟩,
    fun e h => normalize_of_hasPrivateKey hP h, fun e o ho k hk hp => ?_, fun v v' path h => ?_⟩
  · exact rejectPrivateConfiguration_eq_ok v path ()
  · obtain ⟨contract, resource, r, hacc, rfl⟩ := normalize_eq_ok.mp ho
    exact operationOf_public hK hacc ⟨k, hk, hp⟩
  · rw [rejectPrivateConfiguration_eq_error, rejectPrivateConfiguration_eq_error]
    exact hasPrivateKey_respelled h

theorem privateConfiguration_confined_secretKey :
    (∃ m, rejectPrivateConfiguration (.arr [.obj [("Secret-Key", .null)]]) "arguments" = .error (valueError m)) ∧
      ∃ o, normalize contracts Contracts.getFixture = .ok o ∧
        ∀ k, (Json.obj o.input).HasKey k → foldedForm k ∉ privateKeys := by
  have h := privateConfiguration_confined (P := contracts) Contracts.raisesDocumented.toMissesOperations Contracts.addsNoPrivateKey
  obtain ⟨o, ho⟩ := normalize_getFixture
  exact ⟨(h.1 _ _).1.mpr ⟨"Secret-Key", .item List.mem_cons_self (.here List.mem_cons_self), by decide⟩, o, ho,
    h.2.2.1 _ o ho⟩

/-! ## Normalizing again -/

/-- An accepted Expression stays accepted, as the canonical request, with the arguments emitted. -/
theorem Accepts.canonical (hP : P.RoundTrips) (hK : P.AddsNoPrivateKey) {e : Expression}
    {contract : OperationContract} {resource : ResourceRef} {r : Request P}
    (h : Accepts P e contract resource r)
    (hw : Json.WellFormed (.obj (operationOf P e contract resource r).input)) :
    Accepts P ⟨"object", e.method, _, hw⟩ contract resource r.canonical ∧
      operationOf P ⟨"object", e.method, _, hw⟩ contract resource r.canonical =
        operationOf P e contract resource r := by
  have hop : operationOf P ⟨"object", e.method, _, hw⟩ contract resource r.canonical =
      operationOf P e contract resource r := by
    simp only [operationOf, r.demands_canonical, r.updates_canonical]
    rw [Dict.update_update r.keys_updates_nodup]
  refine ⟨⟨⟨rfl, h.method, operationOf_public hK h, ?_⟩, ?_, by rw [hop]; exact h.operation⟩, hop⟩
  · exact Request.reads_canonical hP e.wellFormed h.reads
  · rw [r.demands_canonical]
    exact h.requirements

/-- **Normalization is idempotent**: the emitted arguments are again an Expression of the same method,
which normalizes to the same Operation. -/
theorem normalize_idempotent (hP : P.RoundTrips) (hK : P.AddsNoPrivateKey) {e : Expression} {o : Operation}
    (h : normalize P e = .ok o) :
    ∃ hw : Json.WellFormed (.obj o.input), normalize P ⟨"object", e.method, o.input, hw⟩ = .ok o := by
  obtain ⟨contract, resource, r, hacc, rfl⟩ := normalize_eq_ok.mp h
  have hw : Json.WellFormed (.obj (operationOf P e contract resource r).input) :=
    operationOf_wellFormed hacc.reads
  obtain ⟨hacc', hop⟩ := hacc.canonical hP hK hw
  exact ⟨hw, normalize_eq_ok.mpr ⟨contract, resource, r.canonical, hacc', hop.symm⟩⟩

theorem normalize_idempotent_getFixture :
    ∃ o, normalize contracts Contracts.getFixture = .ok o ∧ ∃ hw : Json.WellFormed (.obj o.input),
      normalize contracts ⟨"object", "get", o.input, hw⟩ = .ok o := by
  obtain ⟨o, ho⟩ := normalize_getFixture
  exact ⟨o, ho, normalize_idempotent Contracts.roundTrips Contracts.addsNoPrivateKey ho⟩

end ObjectCommon
