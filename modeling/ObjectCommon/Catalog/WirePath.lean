import ObjectCommon.Catalog.Boundary
import ObjectCommon.Codec.Signing

/-!
# Signing survives the wire path

A reference is signed, its document is placed in an Expression, the Expression is normalized, and the
reference is parsed from the Operation and verified.

* `SigningInput.Carries` : an Expression that carries a document of the signed reference;
* `SurvivesWirePath` : the signed reference verifies at the other end, exactly under its own claims;
* `survivesWirePath` : it does, at every time that can be converted to UTC.
-/

namespace ObjectCommon

open Outcome PyError

variable {P : Packages}

namespace SigningInput

/-! ## Requests -/

/-- A `get`, `stat` or `read_range` Expression with the given reference document, for the Resource of
the reference and with a method that the reference permits. -/
structure Carries (q : SigningInput P) (e : Expression) (document : Object) : Prop where
  catalog : e.catalog = str "object"
  method : e.method ∈ q.operations
  fields : exactFields e.arguments
    (if e.method = str "read_range" then ["resource", "reference", "range"] else ["resource", "reference"]) = .ok ()
  resource : ∃ value resource, Dict.get? e.arguments "resource" = some value ∧ ¬ HasPrivateKey value ∧
    P.parseResourceRef value "object" = .ok resource ∧ SameResource q.reference resource
  reference : Dict.get? e.arguments "reference" = some (.obj document)
  range : e.method = str "read_range" → ∃ range, ReadsRange e.arguments range

end SigningInput

/-- A document read as a byte range has no private key. -/
theorem ByteRange.document_public {raw : Object} {r : ByteRange} (hn : (Dict.keys raw).Nodup)
    (h : ByteRange.fromMapping raw = .ok r) : ¬ HasPrivateKey (.obj raw) := by
  rcases ByteRange.fromMapping_eq_ok.mp h with hs | ⟨-, hs⟩
  · exact not_hasPrivateKey_same hn hs r.toDict_public
  · refine not_hasPrivateKey_same hn hs ?_
    rw [hasPrivateKey_obj]
    rintro ⟨e, he, hp⟩
    rcases List.mem_append.mp he with he | he
    · exact r.toDict_public (hasPrivateKey_obj.mpr ⟨e, he, hp⟩)
    · obtain rfl := List.mem_singleton.mp he
      rcases hp with hp | hp
      · exact absurd hp (by decide)
      · exact not_hasPrivateKey_null hp

namespace SigningInput

/-- The arguments have no private key besides those of the document. -/
theorem Carries.noPrivateKey {q : SigningInput P} {e : Expression} {document : Object}
    (h : q.Carries e document) (hdoc : ¬ HasPrivateKey (.obj document)) : ¬ HasPrivateKey (.obj e.arguments) := by
  rw [hasPrivateKey_obj]
  rintro ⟨⟨k, v⟩, he, hp⟩
  have hv := (Dict.mem_iff_get? e.wellFormed.keys_nodup).mp he
  have hk : k = str "resource" ∨ k = str "reference" ∨ (e.method = str "read_range" ∧ k = str "range") := by
    have := (exactFields_eq_ok.mp h.fields).2 k (Dict.mem_keys_of_get? hv)
    split at this <;> simp_all
  have hkey : ¬ IsPrivate k := by
    rcases hk with rfl | rfl | ⟨-, rfl⟩ <;> decide
  refine hp.elim hkey ?_
  rcases hk with rfl | rfl | ⟨hm, rfl⟩
  · obtain ⟨value, _, hget, hpub, -⟩ := h.resource
    obtain rfl : value = v := Option.some.inj (hget.symm.trans hv)
    exact hpub
  · obtain rfl : Json.obj document = v := Option.some.inj (h.reference.symm.trans hv)
    exact hdoc
  · obtain ⟨range, raw, hget, hparse⟩ := h.range hm
    obtain rfl : Json.obj raw = v := Option.some.inj (hget.symm.trans hv)
    exact ByteRange.document_public (e.wellFormed.get? hget).keys_nodup hparse

/-- The contract of a reference method is found among the published operations. -/
theorem exists_contract (hF : P.FindsOperations) {method : Str} (h : method ∈ signedReferenceOperations) :
    ∃ contract, P.operationFor objectOperations method = .ok contract := by
  simp only [signedReferenceOperations, List.mem_cons, List.not_mem_nil, or_false] at h
  rcases h with rfl | rfl | rfl <;> exact ⟨_, hF.operationFor _ _ _ rfl⟩

/-- The Expression asks for what its document denotes. -/
theorem Carries.reads {q : SigningInput P} {e : Expression} {document : Object} {s : SignedObjectReference P}
    (h : q.Carries e document) (hs : q.Claims s) (hdoc : parseLogicalReference P document = .ok (.signed s)) :
    ∃ resource, ∃ r : Request P, r.Reads e.method e.arguments resource ∧
      Dict.get? (Dict.update e.arguments r.updates) (str "reference") = some (.obj s.toDict) := by
  obtain ⟨value, resource, hvalue, -, hparse, hsame⟩ := h.resource
  have hres : ReadsResource P e.arguments resource := by
    rw [ReadsResource, hvalue, parseResource, mapError_eq_ok]
    exact hparse
  have href : ReadsReference (P := P) e.arguments resource e.method false (.signed s) :=
    ⟨⟨document, h.reference, hdoc⟩, by rw [LogicalReference.Permits, hs.operations]; exact (sorted_perm _).mem_iff.mpr h.method,
      by rw [LogicalReference.objectRef, hs.objectRef]; exact hsame⟩
  have hfields := h.fields
  have hop := q.operations_subset _ h.method
  simp only [signedReferenceOperations, List.mem_cons, List.not_mem_nil, or_false] at hop
  by_cases hm : e.method = str "read_range"
  · rw [if_pos hm] at hfields
    obtain ⟨range, hrange⟩ := h.range hm
    refine ⟨resource, .readRange (.signed s) range, ⟨hm, hres, hfields, href, hrange⟩, ?_⟩
    rw [Request.get?_update]
    simp [Request.updates, LogicalReference.toDict]
  · rw [if_neg hm] at hfields
    have hgs : e.method = str "get" ∨ e.method = str "stat" := by tauto
    refine ⟨resource, .read (.signed s), ⟨hgs, hres, hfields, href⟩, ?_⟩
    rw [Request.get?_update]
    simp [Request.updates, LogicalReference.toDict]

end SigningInput

/-! ## The wire path -/

/-- Signing succeeds; a request that carries the document of the reference, its operations in any order,
is accepted; and the reference in the Operation verifies, as the original one, exactly under its claims
and at a time that is `before` its expiry. -/
def SurvivesWirePath (P : Packages) (before : DateTime → Int → Prop) : Prop :=
  ∀ (q : SigningInput P) (generated : Str), ∃ s, q.sign generated = .ok s ∧
    ∀ (operations : List Str) (e : Expression), operations.Perm s.allowedOperations →
      q.Carries e (s.documentOver (P.referenceToDict s.objectRef) operations) →
      ∃ o raw t, normalize P e = .ok o ∧ Dict.get? o.input "reference" = some (.obj raw) ∧
        parseLogicalReference P raw = .ok (.signed t) ∧
        ∀ operation audience now r, t.verify q.signer operation audience now = .ok r ↔
          r = q.reference ∧ operation ∈ q.operations ∧ audience = q.audience.val ∧ before now q.expiry

/-- **Signing survives the wire path**, at every time that can be converted to UTC. -/
theorem survivesWirePath (hP : P.RoundTrips) (hS : P.SerializesText) (hK : P.AddsNoPrivateKey)
    (hF : P.FindsOperations) (hA : P.Admits) : SurvivesWirePath P BeforeInRange := by
  intro q generated
  obtain ⟨s, value, signature, hsign, hclaims, hvalue, hsignature, hverify⟩ := q.sign_eq_ok hP hS generated
  refine ⟨s, hsign, fun operations e hperm hcarries => ?_⟩
  obtain ⟨d, hd, -⟩ := hclaims.expiresAt
  have hdoc : parseLogicalReference P (s.documentOver (P.referenceToDict s.objectRef) operations) = .ok (.signed s) :=
    parseLogicalReference_signed_eq_ok.mpr ⟨hasSignedFormat_documentOver s _ _,
      (SignedObjectReference.fromMapping_eq_ok hP).mpr
        ⟨_, operations, Dict.Same.refl _, readObjectReference_toDict hP _, hperm, d, hd⟩⟩
  obtain ⟨resource, r, hreads, hinput⟩ := hcarries.reads hclaims hdoc
  obtain ⟨contract, hcontract⟩ := SigningInput.exists_contract hF (q.operations_subset _ hcarries.method)
  have hpublic := hcarries.noPrivateKey (s.documentOver_public hK operations)
  have hread : ReadAs P e contract resource r := ⟨hcarries.catalog, hcontract, hpublic, hreads⟩
  refine ⟨operationOf P e contract resource r, s.toDict, s,
    normalize_eq_ok.mpr ⟨contract, resource, r, hread.accepts hA, rfl⟩, hinput, ?_, ?_⟩
  · exact parseLogicalReference_signed_eq_ok.mpr ⟨hasSignedFormat_documentOver s _ _,
      SignedObjectReference.fromMapping_toDict hP ⟨d, hd⟩⟩
  · intro operation audience now r
    rw [SignedObjectReference.verify_eq_ok, hclaims.authorized_iff, hclaims.objectRef]
    refine and_congr_right fun _ => and_iff_left ⟨signature, value, hsignature, hvalue, hverify⟩

/-- The first instant of year 1, fourteen hours east of UTC. -/
def yearOneEast : DateTime := ⟨⟨1, 1, 1⟩, 0, 0, 0, 0, some 50400000000, by decide, DateTime.midnight_valid, by decide⟩

/-- A request for the signed reference that carries its document. -/
def getSigned (s : SignedObjectReference contracts) : Expression where
  catalog := "object"
  method := "get"
  arguments := [("resource", .str "fixtures.objects"), ("reference", .obj s.toDict)]
  wellFormed := .obj (by simp) (by
    have h := s.toDict_wellFormed
    simp [h, Json.WellFormed.str])

theorem carries_getSigned {s : SignedObjectReference contracts} :
    signingFixture.Carries (getSigned s) s.toDict where
  catalog := rfl
  method := (by decide : str "get" ∈ signingFixture.operations)
  fields := rfl
  resource := ⟨.str "fixtures.objects", ⟨"object", "fixtures", "objects"⟩, rfl, not_hasPrivateKey_str _, rfl,
    rfl, rfl, rfl⟩
  reference := rfl
  range h := absurd h (by decide : ¬ str "get" = str "read_range")

theorem survivesWirePath_getSigned :
    ∃ s o raw t, signingFixture.sign [] = .ok s ∧ normalize contracts (getSigned s) = .ok o ∧
      Dict.get? o.input "reference" = some (.obj raw) ∧ parseLogicalReference contracts raw = .ok (.signed t) ∧
      t.verify constantSigner "get" signingFixture.audience.val fixtureNow = .ok Contracts.fixture := by
  obtain ⟨s, hsign, h⟩ := survivesWirePath Contracts.roundTrips Contracts.serializesText Contracts.addsNoPrivateKey
    Contracts.findsOperations Contracts.admits signingFixture []
  obtain ⟨o, raw, t, ho, hraw, ht, hverify⟩ := h s.allowedOperations (getSigned s) (.refl _) carries_getSigned
  exact ⟨s, o, raw, t, hsign, ho, hraw, ht,
    (hverify _ _ _ _).mpr ⟨rfl, by decide, rfl, before_fixtureExpiry⟩⟩

/-- A time before the expiry that has no UTC year does not verify. -/
theorem not_survivesWirePath_before :
    ¬ ∀ P : Packages, P.RoundTrips → P.SerializesText → P.AddsNoPrivateKey → P.FindsOperations → P.Admits →
      SurvivesWirePath P Before := by
  intro h
  obtain ⟨s, hsign, hwire⟩ := h contracts Contracts.roundTrips Contracts.serializesText Contracts.addsNoPrivateKey
    Contracts.findsOperations Contracts.admits signingFixture []
  obtain ⟨o, raw, t, ho, hraw, ht, hverify⟩ := hwire s.allowedOperations (getSigned s) (.refl _) carries_getSigned
  have hbefore : Before yearOneEast signingFixture.expiry := ⟨_, rfl, by decide +kernel⟩
  have hok := (hverify (str "get") signingFixture.audience.val yearOneEast _).mpr ⟨rfl, by decide, rfl, hbefore⟩
  obtain ⟨-, hauth, -⟩ := SignedObjectReference.verify_eq_ok.mp hok
  obtain ⟨offset, expiry, hoff, -, hr, -⟩ := hauth.notExpired
  obtain rfl : (50400000000 : Int) = offset := Option.some.inj hoff
  exact absurd hr (by decide +kernel)

end ObjectCommon
