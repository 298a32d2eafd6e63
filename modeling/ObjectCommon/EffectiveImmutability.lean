import ObjectCommon.Immutability

/-!
# The effective intent of a put

A Resource profile demands a least intent of its puts: publish-once of an artifact, immutable bytes of an immutable
Resource, and else nothing.

* `ImmutabilityRequest.strength` : the intents, from mutable over immutable to publish-once;
* `effectiveImmutability` : the intent of a put on a Resource of a profile;
* `ProfilePackages.floor` : the least intent of a profile;
* `selectedImmutability_default` : a put that asks for nothing gets this;
* `effectiveImmutability_exact` : no put weakens its profile, and no other put is refused.
-/

namespace ObjectCommon

open Outcome PyError

/-! ## Resolution -/

/-- What is used of Semantics' profiles: their fields, and `ObjectProfile(...)` of the fields of one. -/
structure ProfilePackages extends Packages where
  profileName : ObjectProfile → Str
  profileMutability : ObjectProfile → Str
  rebuildProfile : ObjectProfile → Py ObjectProfile

variable (P : ProfilePackages)

inductive ProfileValue where
  | profile (p : P.ObjectProfile)
  | mapping (raw : Object)

/-- `parse_object_profile` -/
def parseProfileValue : ProfileValue P → Py P.ObjectProfile
  | .profile p => P.rebuildProfile p
  | .mapping raw => parseObjectProfile P.toPackages raw

inductive ImmutabilityValue where
  | unspecified
  | request (r : ImmutabilityRequest)
  | mapping (raw : Object)

/-- The intent that is asked for, or that of the profile. -/
def selectedImmutability (p : P.ObjectProfile) : ImmutabilityValue → Py ImmutabilityRequest
  | .unspecified => ImmutabilityRequest.new (.str (P.profileMutability p)) (.bool (decide (P.profileName p = str "artifact")))
  | .request r => .ok r
  | .mapping raw => ImmutabilityRequest.fromMapping raw

variable {P}

def effectiveImmutability (profile : ProfileValue P) (request : ImmutabilityValue) : Py ImmutabilityRequest := do
  let p ← parseProfileValue P profile
  let selected ← selectedImmutability P p request
  raiseIf (P.profileName p = str "artifact" ∧ (selected.mutability ≠ .immutable ∨ selected.publishOnce = false))
    (ImmutableObjectConflict "artifact Objects require immutable publish-once intent")
  raiseIf (P.profileMutability p = str "immutable" ∧ selected.mutability ≠ .immutable)
    (ImmutableObjectConflict "a put request cannot weaken Resource immutability")
  return selected

/-! ## Strength -/

namespace ImmutabilityRequest

variable {r : ImmutabilityRequest}

/-- Mutable, immutable, or publish-once. -/
def strength (r : ImmutabilityRequest) : Nat :=
  if r.publishOnce = true then 2 else if r.mutability = .immutable then 1 else 0

theorem two_le_strength : 2 ≤ r.strength ↔ r.publishOnce = true := by
  unfold strength
  split
  · next h => exact iff_of_true (le_refl _) h
  · next h =>
    refine iff_of_false ?_ h
    split <;> decide

theorem one_le_strength : 1 ≤ r.strength ↔ r.mutability = .immutable := by
  unfold strength
  split
  · next h => exact iff_of_true (by decide) (r.valid h)
  · split
    · next h => exact iff_of_true (le_refl _) h
    · next h => exact iff_of_false (by decide) h

end ImmutabilityRequest

namespace ProfilePackages

variable {p : P.ObjectProfile} {r : ImmutabilityRequest}

variable (P) in
/-- The least intent that a profile demands. -/
def floor (p : P.ObjectProfile) : Nat :=
  if P.profileName p = str "artifact" then 2 else if P.profileMutability p = str "immutable" then 1 else 0

variable (P) in
/-- What refuses a put under a profile. -/
def conflict (p : P.ObjectProfile) : PyError :=
  if P.profileName p = str "artifact" then ImmutableObjectConflict "artifact Objects require immutable publish-once intent"
  else ImmutableObjectConflict "a put request cannot weaken Resource immutability"

/-- What is asked for under a profile: the intent of the request, or else that of the profile, which is its least. -/
def Asks (p : P.ObjectProfile) (r : ImmutabilityRequest) : ImmutabilityValue → Prop
  | .unspecified => r.mutability.value = P.profileMutability p ∧ r.strength = P.floor p
  | .request r' => r' = r
  | .mapping raw => Dict.Same raw r.toDict

/-- The intent of a profile is its least. -/
theorem default_iff :
    selectedImmutability P p .unspecified = .ok r ↔ r.mutability.value = P.profileMutability p ∧ r.strength = P.floor p := by
  unfold selectedImmutability
  dsimp only
  rw [ImmutabilityRequest.new_eq_ok, Json.str.injEq, Json.bool.injEq, eq_comm]
  refine and_congr_right fun hm => ?_
  have hmutability : P.profileMutability p = str "immutable" ↔ r.mutability = .immutable := by
    rw [← hm]
    exact Mutability.value_inj (b := .immutable)
  unfold floor ImmutabilityRequest.strength
  simp only [hmutability]
  by_cases ha : P.profileName p = str "artifact"
  · rw [decide_eq_true ha, if_pos ha, eq_comm]
    split
    · next h => exact iff_of_true h rfl
    · next h => exact iff_of_false h (by split <;> decide)
  · rw [decide_eq_false ha, if_neg ha, eq_comm]
    split
    · next h => exact iff_of_false (fun he => nomatch h.symm.trans he) (by split <;> decide)
    · next h => exact iff_of_true (Bool.eq_false_iff.mpr h) rfl

theorem selectedImmutability_eq_ok {request : ImmutabilityValue} :
    selectedImmutability P p request = .ok r ↔ Asks p r request := by
  cases request with
  | unspecified => exact default_iff
  | request r' => exact Except.ok.injEq r' r ▸ Iff.rfl
  | mapping raw => exact ImmutabilityRequest.fromMapping_eq_ok

/-- An intent that is not below the profile passes both checks. -/
theorem floor_le_iff : P.floor p ≤ r.strength ↔
    ¬ (P.profileName p = str "artifact" ∧ (r.mutability ≠ .immutable ∨ r.publishOnce = false)) ∧
      ¬ (P.profileMutability p = str "immutable" ∧ r.mutability ≠ .immutable) := by
  unfold floor
  split
  · next ha =>
    rw [ImmutabilityRequest.two_le_strength]
    constructor
    · intro h
      refine ⟨?_, fun hweak => hweak.2 (r.valid h)⟩
      rintro ⟨-, hm | hp⟩
      · exact hm (r.valid h)
      · rw [h] at hp
        cases hp
    · rintro ⟨h, -⟩
      exact Bool.eq_true_of_not_eq_false fun hp => h ⟨ha, Or.inr hp⟩
  · next ha =>
    split
    · next hm =>
      rw [ImmutabilityRequest.one_le_strength]
      constructor
      · exact fun h => ⟨fun hartifact => ha hartifact.1, fun hweak => hweak.2 h⟩
      · rintro ⟨-, h⟩
        exact not_not.mp fun hne => h ⟨hm, hne⟩
    · next hm =>
      exact iff_of_true (Nat.zero_le _) ⟨fun hartifact => ha hartifact.1, fun hweak => hm hweak.1⟩

/-- **A request under a profile** is resolved to what is asked for, unless this is below the profile. -/
theorem effectiveImmutability_eq {profile : ProfileValue P} {request : ImmutabilityValue}
    (hprofile : parseProfileValue P profile = .ok p) (hasks : Asks p r request) :
    effectiveImmutability profile request = if P.floor p ≤ r.strength then .ok r else .error (P.conflict p) := by
  unfold effectiveImmutability
  rw [hprofile, ok_bind, selectedImmutability_eq_ok.mpr hasks, ok_bind]
  by_cases hfloor : P.floor p ≤ r.strength
  · obtain ⟨hartifact, hweak⟩ := floor_le_iff.mp hfloor
    rw [if_pos hfloor, raiseIf, if_neg hartifact, ok_bind, raiseIf, if_neg hweak]
    rfl
  · rw [if_neg hfloor]
    rw [floor_le_iff, not_and_or, not_not, not_not] at hfloor
    unfold conflict
    by_cases ha : P.profileName p = str "artifact"
    · have hbelow : r.mutability ≠ .immutable ∨ r.publishOnce = false :=
        hfloor.elim (fun h => h.2) fun h => Or.inl h.2
      rw [raiseIf, if_pos ⟨ha, hbelow⟩, if_pos ha]
      rfl
    · have hweak := hfloor.resolve_left fun h => ha h.1
      rw [raiseIf, if_neg fun h => ha h.1, ok_bind, raiseIf, if_pos hweak, if_neg ha]
      rfl

/-- **No put weakens its profile, and no other put is refused.** A request is resolved to an intent exactly when it
asks for this intent and the profile demands no stronger one; a weaker one is a conflict. What was resolved is resolved
to itself when it is written and read. -/
theorem effectiveImmutability_exact (profile : ProfileValue P) (request : ImmutabilityValue) :
    (∀ r, effectiveImmutability profile request = .ok r ↔
      ∃ p, parseProfileValue P profile = .ok p ∧ Asks p r request ∧ P.floor p ≤ r.strength) ∧
    (∀ p r, parseProfileValue P profile = .ok p → Asks p r request → r.strength < P.floor p →
      effectiveImmutability profile request = .error (P.conflict p)) ∧
    ∀ r, effectiveImmutability profile request = .ok r → effectiveImmutability profile (.mapping r.toDict) = .ok r := by
  have hexact : ∀ request r, effectiveImmutability profile request = .ok r ↔
      ∃ p, parseProfileValue P profile = .ok p ∧ Asks p r request ∧ P.floor p ≤ r.strength := by
    intro request r
    constructor
    · intro h
      simp only [effectiveImmutability, bind_eq_ok, exists_unit, raiseIf_eq_ok, pure_eq_ok] at h
      obtain ⟨p, hp, selected, hselected, hartifact, hweak, rfl⟩ := h
      exact ⟨p, hp, selectedImmutability_eq_ok.mp hselected, floor_le_iff.mpr ⟨hartifact, hweak⟩⟩
    · rintro ⟨p, hp, hasks, hfloor⟩
      rw [effectiveImmutability_eq hp hasks, if_pos hfloor]
  refine ⟨hexact request, fun p r hp hasks hlt => ?_, fun r hr => ?_⟩
  · rw [effectiveImmutability_eq hp hasks, if_neg (Nat.not_le_of_lt hlt)]
  · obtain ⟨p, hp, -, hfloor⟩ := (hexact request r).mp hr
    exact (hexact _ r).mpr ⟨p, hp, Dict.Same.refl _, hfloor⟩

end ProfilePackages

end ObjectCommon
