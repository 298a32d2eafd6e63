import ObjectCommon.Catalog.Requirements

/-!
# Negotiation of normalized requests

* `OperationCapability`, `Offers` : what a manifest offers of an operation, and whether it meets a requirement;
* `CapabilitySpi.Documented` : the violations of a manifest are the requirements that it does not meet;
* `Supplies` : the manifest offers everything that a request calls for;
* `negotiation_exact` : exactly then does the Operation of the request negotiate.
-/

namespace ObjectCommon

open Outcome PyError

/-! ## Manifests -/

/-- What a manifest offers of an operation that is available. -/
structure OperationCapability where
  operationVersions : List Str
  guarantees : List Str
  limits : Dict Str Nat

variable {S : CapabilitySpi} {offered : S.CapabilityManifest → Str → Option OperationCapability}
  {manifest : S.CapabilityManifest}

/-- The manifest meets a requirement. -/
def Offers (offered : S.CapabilityManifest → Str → Option OperationCapability) (manifest : S.CapabilityManifest)
    (q : CapabilityRequirement) : Prop :=
  ∃ c, offered manifest q.operationContract = some c ∧ q.operationVersion ∈ c.operationVersions ∧
    (∀ g ∈ q.guarantees, g ∈ c.guarantees) ∧
    ∀ l n, Dict.get? q.minimumLimits l = some n → ∃ available, Dict.get? c.limits l = some available ∧ n ≤ available

/-- What Core documents of `capability_violations`. -/
structure CapabilitySpi.Documented (S : CapabilitySpi)
    (offered : S.CapabilityManifest → Str → Option OperationCapability) : Prop where
  /-- A violation is one of the requirements, and is not met. -/
  violation : ∀ manifest requirements, ∀ v ∈ S.capabilityViolations manifest requirements,
    v.requirement ∈ requirements ∧ ¬ Offers offered manifest v.requirement
  /-- A requirement that is not met is a violation. -/
  complete : ∀ manifest requirements, ∀ q ∈ requirements, ¬ Offers offered manifest q →
    ∃ v ∈ S.capabilityViolations manifest requirements, v.requirement = q

/-- **Requirements on Object operations negotiate** when the manifest meets each of them, and else one that it does
not meet is reported. -/
theorem requireObjectCapabilities_cases (hS : S.Documented offered) (manifest : S.CapabilityManifest)
    {requirements : List CapabilityRequirement}
    (hobject : ∀ q ∈ requirements, str "meridian.object." <+: q.operationContract) :
    ((∀ q ∈ requirements, Offers offered manifest q) ∧
        requireObjectCapabilities manifest requirements = .fingerprint (S.fingerprint manifest)) ∨
      ∃ q ∈ requirements, ¬ Offers offered manifest q ∧ ∃ reason : Str,
        requireObjectCapabilities manifest requirements = .mismatch
          { message := [.text "Object capability requirement is unsatisfied: ", .text reason]
            operationContract := q.operationContract
            adapterId := S.adapterId manifest
            capabilityFingerprint := S.fingerprint manifest } := by
  have haccepted : (requirements.any fun item => !(str "meridian.object.").isPrefixOf item.operationContract) = false := by
    simpa using hobject
  unfold requireObjectCapabilities negotiateObjectCapabilities
  rw [haccepted]
  cases hviolations : S.capabilityViolations manifest requirements with
  | nil =>
    refine Or.inl ⟨fun q hq => ?_, rfl⟩
    by_contra hnot
    obtain ⟨v, hv, -⟩ := hS.complete manifest requirements q hq hnot
    rw [hviolations] at hv
    cases hv
  | cons first rest =>
    obtain ⟨hin, hnot⟩ := hS.violation manifest requirements first (by rw [hviolations]; exact List.mem_cons_self)
    exact Or.inr ⟨first.requirement, hin, hnot, first.reason, rfl⟩

/-! ## Normalized requests -/

variable {P : Packages} {e : Expression} {o : Operation}

/-- The manifest offers the method, with every guarantee and limit that the arguments call for, unless they call for
none. -/
def Supplies (offered : S.CapabilityManifest → Str → Option OperationCapability) (manifest : S.CapabilityManifest)
    (e : Expression) (o : Operation) : Prop :=
  ((∃ g, NeedsGuarantee e.arguments g) ∨ ∃ l n, NeedsLimit e.method e.arguments o.input l n) →
    ∃ c, offered manifest (str "meridian.object." ++ e.method) = some c ∧ objectOperationVersion ∈ c.operationVersions ∧
      (∀ g, NeedsGuarantee e.arguments g → g ∈ c.guarantees) ∧
      ∀ l n, NeedsLimit e.method e.arguments o.input l n →
        ∃ available, Dict.get? c.limits l = some available ∧ n ≤ available

/-- The requirement of a request asks for what its arguments call for. -/
theorem offers_requirementOf {r : Request P} {resource : ResourceRef} (hr : r.Reads e.method e.arguments resource) :
    Offers offered manifest (requirementOf P e.method r.demands) ↔
      ∃ c, offered manifest (str "meridian.object." ++ e.method) = some c ∧
        objectOperationVersion ∈ c.operationVersions ∧ (∀ g, NeedsGuarantee e.arguments g → g ∈ c.guarantees) ∧
        ∀ l n, NeedsLimit e.method e.arguments (Dict.update e.arguments r.updates) l n →
          ∃ available, Dict.get? c.limits l = some available ∧ n ≤ available := by
  have hperm := P.tupleOfSet_perm _ r.guarantees_nodup
  refine exists_congr fun c => and_congr_right fun _ => and_congr_right fun _ => and_congr ?_ ?_
  · refine forall_congr' fun g => imp_congr_left ?_
    rw [← Request.mem_guarantees_iff hr]
    exact hperm.mem_iff
  · exact forall_congr' fun l => forall_congr' fun n => imp_congr_left (Request.get?_limits_iff hr l n)

/-- **A request is supplied** when the requirements of its Operation are met. -/
theorem supplies_iff {contract : OperationContract} {resource : ResourceRef} {r : Request P}
    (hr : r.Reads e.method e.arguments resource) :
    Supplies offered manifest e (operationOf P e contract resource r) ↔
      ∀ q ∈ (operationOf P e contract resource r).requirements, Offers offered manifest q := by
  have hg := Request.mem_guarantees_iff hr
  have hl := Request.get?_limits_iff hr
  have hnil : requirementsOf P e.method r.demands = [] ↔ ¬ ((∃ g, NeedsGuarantee e.arguments g) ∨
      ∃ l n, NeedsLimit e.method e.arguments (Dict.update e.arguments r.updates) l n) := by
    rw [requirementsOf_eq_nil_iff, not_or]
    simp only [hg, not_exists, ne_eq, hl]
  show (_ → _) ↔ ∀ q ∈ requirementsOf P e.method r.demands, Offers offered manifest q
  by_cases hneeds : requirementsOf P e.method r.demands = []
  · rw [hneeds]
    exact iff_of_true (fun h => absurd h (hnil.mp hneeds)) fun q hq => nomatch hq
  · have hone : requirementsOf P e.method r.demands = [requirementOf P e.method r.demands] := by
      unfold requirementsOf at hneeds ⊢
      split
      · rfl
      · next hnone => exact absurd (if_neg hnone) hneeds
    rw [hone, List.forall_mem_singleton, offers_requirementOf hr]
    exact imp_iff_right (not_not.mp (mt hnil.mpr hneeds))

/-- **A normalized request negotiates exactly when the manifest supplies it**: with the fingerprint of the manifest,
or else with a mismatch that names the operation of its method. -/
theorem negotiation_exact (hS : S.Documented offered) (h : normalize P e = .ok o) (manifest : S.CapabilityManifest) :
    (Supplies offered manifest e o ∧
        requireObjectCapabilities manifest o.requirements = .fingerprint (S.fingerprint manifest)) ∨
      (¬ Supplies offered manifest e o ∧ ∃ reason : Str,
        requireObjectCapabilities manifest o.requirements = .mismatch
          { message := [.text "Object capability requirement is unsatisfied: ", .text reason]
            operationContract := str "meridian.object." ++ e.method
            adapterId := S.adapterId manifest
            capabilityFingerprint := S.fingerprint manifest }) := by
  obtain ⟨contract, resource, r, hacc, rfl⟩ := normalize_eq_ok.mp h
  have hcontract : ∀ q ∈ (operationOf P e contract resource r).requirements,
      q.operationContract = str "meridian.object." ++ e.method := by
    intro q hq
    rw [mem_requirementsOf hq]
    rfl
  have hobject : ∀ q ∈ (operationOf P e contract resource r).requirements,
      str "meridian.object." <+: q.operationContract := by
    intro q hq
    rw [hcontract q hq]
    exact List.prefix_append _ _
  rw [supplies_iff hacc.reads]
  obtain ⟨hoffers, hrequire⟩ | ⟨q, hq, hnot, reason, hrequire⟩ :=
    requireObjectCapabilities_cases hS manifest hobject
  · exact Or.inl ⟨hoffers, hrequire⟩
  · refine Or.inr ⟨fun hoffers => hnot (hoffers q hq), reason, ?_⟩
    rw [hrequire, hcontract q hq]

/-! ## Manifests that list their capabilities -/

/-- What is available is at least what is asked for, if anything is. -/
def within : Option Nat → Option Nat → Bool
  | none, _ => true
  | some _, none => false
  | some n, some available => n ≤ available

theorem within_iff {asked available : Option Nat} :
    within asked available = true ↔ ∀ n, asked = some n → ∃ a, available = some a ∧ n ≤ a := by
  cases asked with
  | none => simp [within]
  | some n => cases available <;> simp [within]

def OperationCapability.meets (c : OperationCapability) (q : CapabilityRequirement) : Bool :=
  decide (q.operationVersion ∈ c.operationVersions) && q.guarantees.all (fun g => decide (g ∈ c.guarantees)) &&
    (Dict.keys q.minimumLimits).all fun l => within (Dict.get? q.minimumLimits l) (Dict.get? c.limits l)

/-- The capability listed for an operation contract. -/
def listedCapability (manifest : Dict Str OperationCapability) (contract : Str) : Option OperationCapability :=
  Dict.get? manifest contract

/-- Manifests that list their capabilities by operation contract. -/
def listedSpi : CapabilitySpi where
  CapabilityManifest := Dict Str OperationCapability
  adapterId _ := "listed-adapter"
  fingerprint _ := "listed"
  capabilityViolations manifest requirements :=
    (requirements.filter fun q => !(listedCapability manifest q.operationContract).any fun c => c.meets q).map fun q =>
      ⟨q, "the capability is not listed"⟩

theorem meets_iff {c : OperationCapability} {q : CapabilityRequirement} :
    c.meets q = true ↔ q.operationVersion ∈ c.operationVersions ∧ (∀ g ∈ q.guarantees, g ∈ c.guarantees) ∧
      ∀ l n, Dict.get? q.minimumLimits l = some n → ∃ available, Dict.get? c.limits l = some available ∧ n ≤ available := by
  unfold OperationCapability.meets
  simp only [Bool.and_eq_true, decide_eq_true_eq, List.all_eq_true, within_iff, and_assoc]
  refine and_congr_right fun _ => and_congr_right fun _ => forall_congr' fun l => ?_
  exact ⟨fun h n hn => h (Dict.mem_keys_of_get? hn) n hn, fun h _ => h⟩

theorem listedSpi_offers {manifest : listedSpi.CapabilityManifest} {q : CapabilityRequirement} :
    Offers listedCapability manifest q ↔
      ((listedCapability manifest q.operationContract).any fun c => c.meets q) = true := by
  simp only [Offers, Option.any_eq_true, meets_iff]

theorem listedSpi_documented : listedSpi.Documented listedCapability where
  violation manifest requirements v hv := by
    obtain ⟨q, hq, rfl⟩ := List.mem_map.mp hv
    obtain ⟨hin, hnot⟩ := List.mem_filter.mp hq
    rw [listedSpi_offers]
    exact ⟨hin, by simpa using hnot⟩
  complete manifest requirements q hq hnot := by
    rw [listedSpi_offers] at hnot
    exact ⟨_, List.mem_map.mpr ⟨q, List.mem_filter.mpr ⟨hq, by simpa using hnot⟩, rfl⟩, rfl⟩

/-- An Adapter that stores Objects of up to `maxBytes` bytes, with two entries of metadata. -/
def putManifest (maxBytes : Nat) : listedSpi.CapabilityManifest :=
  [("meridian.object.put", ⟨[objectOperationVersion], [guaranteeConditionalCreate],
    [(limitMaxUserMetadataEntries, 2), (limitMaxObjectBytes, maxBytes)]⟩)]

/-- A create-only put of four bytes negotiates with an Adapter of four, and not with one of three. -/
theorem negotiation_exact_putFixture : ∃ o, normalize contracts Contracts.putFixture = .ok o ∧
    requireObjectCapabilities (putManifest 4) o.requirements = .fingerprint "listed" ∧ ∃ m,
      requireObjectCapabilities (putManifest 3) o.requirements = .mismatch m ∧
        m.operationContract = str "meridian.object.put" := by
  obtain ⟨o, ho⟩ := normalize_putFixture
  have hinput : (normalize contracts Contracts.putFixture).map (fun o =>
      (Dict.get? o.input (str "expectedLength"), Dict.get? o.input (str "userMetadata"))) =
        .ok (some (.int 4), some (.obj [("kind", .str "test"), ("purpose", .str "fixture")])) := rfl
  rw [ho] at hinput
  obtain ⟨hlength, hmetadata⟩ := Prod.mk.inj (Except.ok.inj hinput)
  refine ⟨o, ho, ?_, ?_⟩
  · obtain ⟨-, haccepts⟩ | ⟨hnot, -⟩ := negotiation_exact listedSpi_documented ho (putManifest 4)
    · exact haccepts
    · refine absurd (fun _ => ⟨_, rfl, List.mem_cons_self, fun g hg => ?_, fun l n hn => ?_⟩) hnot
      · rw [needsGuarantee_putFixture hg]
        exact List.mem_cons_self
      · cases hn with
        | userMetadataEntries _ h => cases hmetadata.symm.trans h; exact ⟨2, rfl, le_refl 2⟩
        | objectBytes _ h =>
          obtain rfl := Int.ofNat.inj (Json.int.inj (Option.some.inj (hlength.symm.trans h)))
          exact ⟨4, rfl, le_refl 4⟩
        | closedRange hm => cases hm
        | suffixRange hm => cases hm
        | listPageSize hm => cases hm
  · obtain ⟨hsupplies, -⟩ | ⟨-, reason, hmismatch⟩ := negotiation_exact listedSpi_documented ho (putManifest 3)
    · obtain ⟨c, hc, -, -, hlimits⟩ := hsupplies (Or.inl ⟨_, .conditionalCreate rfl⟩)
      obtain rfl := Option.some.inj hc
      obtain ⟨available, havailable, hle⟩ := hlimits _ 4 (.objectBytes rfl hlength)
      obtain rfl : 3 = available := Option.some.inj havailable
      omega
    · exact ⟨_, hmismatch, rfl⟩

end ObjectCommon
