import ObjectCommon.Catalog.Requirements

/-!
# References are confined to their Resource

* `Request.reads_reference` : what the reference of a request denotes, and how it is emitted;
* `not_unsigned_of_foreign_key` : a document with a field of its own is never an unsigned reference;
* `ReferenceConfined`, `normalize_reference_confined` : an accepted reference is one to the target
  Resource, and a signed one permits the method.
-/

namespace ObjectCommon

open Outcome PyError

variable {P : Packages}

/-- The methods that take a reference. -/
def referenceMethods : List Str := ["get", "stat", "read_range", "delete"]

/-- The reference of a request is read from the arguments and emitted as it writes itself. -/
theorem Request.reads_reference {r : Request P} {method : Str} {value : Object} {resource : ResourceRef}
    (h : r.Reads method value resource) (hm : method ∈ referenceMethods) :
    ∃ reference : LogicalReference P, ReadsReference value resource method (decide (method = str "delete")) reference ∧
      Dict.get? r.updates "reference" = some (.obj reference.toDict) := by
  simp only [referenceMethods, List.mem_cons, List.not_mem_nil, or_false] at hm
  cases r with
  | read reference =>
    obtain ⟨rfl | rfl, -, -, href⟩ := h
    · exact ⟨reference, href, by simp [updates]⟩
    · exact ⟨reference, href, by simp [updates]⟩
  | readRange reference range =>
    obtain ⟨rfl, -, -, href, -⟩ := h
    exact ⟨reference, href, by simp [updates]⟩
  | delete reference =>
    obtain ⟨rfl, -, -, href, -⟩ := h
    exact ⟨reference, href, by simp [updates]⟩
  | _ =>
    obtain ⟨rfl, -⟩ := h
    simp at hm

/-- **No downgrade**: a document with a field that an Object reference has not is never read as an
unsigned reference. -/
theorem not_unsigned_of_foreign_key {raw : Object} {k : Str} (hk : k ∈ Dict.keys raw)
    (hne : k ≠ str "resourceRef" ∧ k ≠ str "objectId" ∧ k ≠ str "digest") (r : P.ObjectReference) :
    parseLogicalReference P raw ≠ .ok (.object r) := by
  intro h
  have hread := (parseLogicalReference_object_eq_ok.mp h).2
  rcases keys_of_readObjectReference hread hk with h | h | h
  · exact hne.1 h
  · exact hne.2.1 h
  · exact hne.2.2 h

theorem needsGuarantee_signedReference {value raw : Object} (hraw : Dict.get? value "reference" = some (.obj raw)) :
    NeedsGuarantee value guaranteeSignedReference ↔ HasSignedFormat raw := by
  constructor
  · generalize hg : guaranteeSignedReference = g
    rintro (- | - | - | - | ⟨h, hs⟩)
    · exact absurd hg (by decide)
    · exact absurd hg (by decide)
    · exact absurd hg (by decide)
    · exact absurd hg (by decide)
    · rw [hraw] at h
      cases h
      exact hs
  · exact .signedReference hraw

/-- The fields of a document that a signed reference is read from are all there. -/
theorem SignedObjectReference.fields_mem {raw : Object} {s : SignedObjectReference P}
    (h : fromMapping P raw = .ok s) : ∀ k, k ∈ Dict.keys raw ↔ k ∈ fields.map str := by
  obtain ⟨_, hf, -⟩ := bind_eq_ok.mp h
  obtain ⟨h₁, h₂⟩ := exactFields_eq_ok.mp hf
  refine fun k => ⟨fun hk => by simpa using h₂ k hk, fun hk => ?_⟩
  obtain ⟨f, hfm, rfl⟩ := List.mem_map.mp hk
  exact h₁ f hfm

/-- The Operation requires a guarantee. -/
def Operation.Requires (o : Operation) (guarantee : Str) : Prop :=
  ∃ q ∈ o.requirements, guarantee ∈ q.guarantees

/-- What the reference document `raw` of an accepted Expression and its Operation satisfy. -/
structure ReferenceConfined (P : Packages) (e : Expression) (o : Operation) (raw : Object) : Prop where
  /-- The emitted document is read as the reference supplied, to an Object of the target Resource. -/
  emitted : ∃ document reference resource, Dict.get? o.input "reference" = some (.obj document) ∧
    parseLogicalReference P document = .ok reference ∧ parseLogicalReference P raw = .ok reference ∧
    o.resources = [resource] ∧ SameResource reference.objectRef resource
  /-- A signed reference is complete and exact, and permits the method. -/
  signed : HasSignedFormat raw → (∀ k, k ∈ Dict.keys raw ↔ k ∈ SignedObjectReference.fields.map str) ∧
    (∃ s, SignedObjectReference.fromMapping P raw = .ok s ∧ P.digest s.objectRef ≠ none ∧
      e.method ∈ s.allowedOperations) ∧ o.Requires guaranteeSignedReference
  unsigned : ¬ HasSignedFormat raw → ¬ o.Requires guaranteeSignedReference ∧
    ∃ r, parseObjectReference P (.document raw) = .ok r ∧ parseLogicalReference P raw = .ok (.object r)
  foreign : ∀ k ∈ Dict.keys raw, k ≠ str "resourceRef" ∧ k ≠ str "objectId" ∧ k ≠ str "digest" →
    HasSignedFormat raw
  /-- A delete is pinned to one digest. -/
  delete : e.method = str "delete" → ¬ HasSignedFormat raw ∧
    (∃ r, parseLogicalReference P raw = .ok (.object r) ∧ P.digest r ≠ none) ∧
    ∃ document digest, Dict.get? o.input "reference" = some (.obj document) ∧
      Dict.get? document "digest" = some (.str digest)

/-- **Reference confinement**: whatever the documents, an accepted reference is one to an Object of the
target Resource; a signed one is complete and permits the method; and no document with a field of its
own passes as an unsigned one. -/
theorem normalize_reference_confined (hP : P.RoundTrips) :
    (∀ (e : Expression) (o : Operation), normalize P e = .ok o → e.method ∈ referenceMethods →
      ∃ raw, Dict.get? e.arguments "reference" = some (.obj raw) ∧ ReferenceConfined P e o raw) ∧
    ∀ (raw : Object) (k : Str), k ∈ Dict.keys raw →
      k ≠ str "resourceRef" ∧ k ≠ str "objectId" ∧ k ≠ str "digest" →
      ∀ r, parseLogicalReference P raw ≠ .ok (.object r) := by
  refine ⟨fun e o h hm => ?_, fun raw k hk hne r => not_unsigned_of_foreign_key hk hne r⟩
  obtain ⟨contract, resource, r, hacc, rfl⟩ := normalize_eq_ok.mp h
  obtain ⟨reference, href, hup⟩ := Request.reads_reference hacc.reads hm
  obtain ⟨raw, hraw, hparse⟩ := href.document
  have hget : Dict.get? (operationOf P e contract resource r).input "reference" = some (.obj reference.toDict) := by
    show Dict.get? (Dict.update e.arguments r.updates) _ = _
    rw [r.get?_update, hup, Option.some_or]
  have hreq : (operationOf P e contract resource r).Requires guaranteeSignedReference ↔ HasSignedFormat raw :=
    exists_requirement_iff.trans ((Request.mem_guarantees_iff hacc.reads _).trans
      (needsGuarantee_signedReference hraw))
  refine ⟨raw, hraw, ⟨_, reference, resource, hget, parseLogicalReference_toDict hP hparse, hparse, rfl,
    href.sameResource⟩, fun hs => ?_, fun hs => ?_, fun k hk hne => ?_, fun hd => ?_⟩
  · cases reference with
    | object r => exact absurd hs (parseLogicalReference_object_eq_ok.mp hparse).1
    | signed s =>
      have hfrom := (parseLogicalReference_signed_eq_ok.mp hparse).2
      exact ⟨SignedObjectReference.fields_mem hfrom, ⟨s, hfrom, s.exact, href.permits⟩, hreq.mpr hs⟩
  · cases reference with
    | object r =>
      have hread := (parseLogicalReference_object_eq_ok.mp hparse).2
      exact ⟨fun hr => hs (hreq.mp hr), r, parseObjectReference_eq_ok.mpr ⟨hread, by simp⟩, hparse⟩
    | signed s => exact absurd (parseLogicalReference_signed_eq_ok.mp hparse).1 hs
  · cases reference with
    | object r => exact absurd hparse (not_unsigned_of_foreign_key hk hne r)
    | signed s => exact (parseLogicalReference_signed_eq_ok.mp hparse).1
  · rw [hd, decide_eq_true rfl] at href
    cases reference with
    | signed s => exact absurd href.isSigned_delete (by simp [LogicalReference.isSigned])
    | object r =>
      have hdig : P.digest r ≠ none := href.permits rfl
      obtain ⟨digest, hdigest⟩ := Option.ne_none_iff_exists'.mp hdig
      have hdoc := (hP.referenceToDict r).digest
      rw [hdigest, Json.nullable_some] at hdoc
      refine ⟨(parseLogicalReference_object_eq_ok.mp hparse).1, ⟨r, hparse, hdig⟩, _, digest, hget, ?_⟩
      cases hd' : Dict.get? (P.referenceToDict r) (str "digest") with
      | none => simp [hd'] at hdoc
      | some j =>
        rw [hd', Option.getD_some] at hdoc
        rw [LogicalReference.toDict, hd', hdoc]

theorem normalize_reference_confined_getFixture :
    ∃ o raw, normalize contracts Contracts.getFixture = .ok o ∧
      Dict.get? Contracts.getFixture.arguments "reference" = some (.obj raw) ∧
      ReferenceConfined contracts Contracts.getFixture o raw := by
  obtain ⟨o, ho⟩ := normalize_getFixture
  obtain ⟨raw, hraw, hc⟩ := (normalize_reference_confined Contracts.roundTrips).1 _ o ho (by decide)
  exact ⟨o, raw, ho, hraw, hc⟩

end ObjectCommon
