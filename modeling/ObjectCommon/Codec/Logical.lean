import ObjectCommon.Codec.Signing

/-!
# How the parsing of a logical reference fails

* `StableOutcome P m` : parsing returns a reference or raises `ObjectInvalidRequest`;
* `SignedDocument P m` : a document of a signed reference;
* `parseLogicalReference_stable_iff` : parsing is stable unless a document has the format version of a signed
  reference and is not the document of one.
-/

namespace ObjectCommon

open Outcome PyError

variable (P : Packages)

/-- Parsing returns a reference or raises `ObjectInvalidRequest`. -/
def StableOutcome (m : Object) : Prop :=
  (∃ reference, parseLogicalReference P m = .ok reference) ∨
    ∃ e, parseLogicalReference P m = .error e ∧ IsObjectInvalidRequest e

/-- A document of a signed reference: its nine fields, up to their order and the order of the operations, over a
document of an exact Object reference. -/
def SignedDocument (m : Object) : Prop :=
  ∃ (x : SignedObjectReference P) (raw : Object) (ops : List Str) (r : P.ObjectReference),
    Dict.Same m (x.documentOver raw ops) ∧ readObjectReference P (.document raw) = .ok r ∧ P.digest r ≠ none ∧
      readObjectReference P (.reference r) = .ok x.objectRef ∧ ops.Perm x.allowedOperations ∧ IsTimestamp x.expiresAt

variable {P}

theorem exists_fromMapping_iff {m : Object} :
    (∃ x, SignedObjectReference.fromMapping P m = .ok x) ↔ SignedDocument P m :=
  exists_congr fun _ => SignedObjectReference.fromMapping_iff

/-- Without the format version of a signed reference every failure is translated. -/
theorem stableOutcome_unsigned (hP : P.RaisesOfReferences IsTypeOrValueError) {m : Object} (h : ¬ HasSignedFormat m) :
    StableOutcome P m := by
  rw [← hasSignedFormat_iff] at h
  unfold StableOutcome parseLogicalReference
  rw [if_neg h]
  cases hparse : parseObjectReference P (.document m) with
  | ok r => exact Or.inl ⟨_, rfl⟩
  | error e =>
    have he : e.IsTypeOrValueError := parseObjectReference_raises hP (fun _ => id) _ _ e hparse
    refine Or.inr ⟨_, rfl, ?_⟩
    rw [translate_of_isTypeOrValueError he]
    exact isObjectInvalidRequest_mk _ _

/-- With it no failure is. -/
theorem stableOutcome_signed (hP : P.RaisesOfReferences IsTypeOrValueError) {m : Object} (h : HasSignedFormat m) :
    StableOutcome P m ↔ SignedDocument P m := by
  rw [← hasSignedFormat_iff] at h
  unfold StableOutcome parseLogicalReference
  rw [if_pos h, ← exists_fromMapping_iff]
  cases hread : SignedObjectReference.fromMapping P m with
  | ok x => exact iff_of_true (Or.inl ⟨_, rfl⟩) ⟨x, rfl⟩
  | error e =>
    have he : e.IsTypeOrValueError := SignedObjectReference.fromMapping_raises hP (fun _ => id) m e hread
    refine iff_of_false ?_ nofun
    rintro (⟨reference, hok⟩ | ⟨e', herror, message, contract, rfl⟩)
    · cases hok
    · obtain rfl := Except.error.inj herror
      cases he

/-- A mapping that only says that it is a signed reference. -/
def bareSignedFormat : Object := [("formatVersion", .str signedReferenceFormatVersion)]

/-- The `ValueError` of a missing field reaches the caller. -/
theorem not_stableOutcome_bareSignedFormat :
    ¬ ∀ P : Packages, P.RaisesDocumented IsTypeOrValueError → ∀ m : Object, StableOutcome P m := by
  intro h
  have hraised : ∃ message, parseLogicalReference contracts bareSignedFormat = .error (valueError message) := ⟨_, rfl⟩
  obtain ⟨message, hraised⟩ := hraised
  rcases h contracts Contracts.raisesDocumented bareSignedFormat with ⟨reference, hok⟩ | ⟨e, herror, m, c, rfl⟩
  · rw [hraised] at hok
    cases hok
  · rw [hraised] at herror
    cases herror

/-- **Parsing is stable exactly on the mappings that are not malformed signed references.** -/
theorem parseLogicalReference_stable_iff (hP : P.RaisesOfReferences IsTypeOrValueError) (m : Object) :
    StableOutcome P m ↔ ¬ HasSignedFormat m ∨ SignedDocument P m := by
  by_cases h : HasSignedFormat m
  · rw [stableOutcome_signed hP h, or_iff_right (not_not.mpr h)]
  · exact iff_of_true (stableOutcome_unsigned hP h) (Or.inl h)

theorem parseLogicalReference_stable_bareSignedFormat :
    StableOutcome contracts bareSignedFormat ↔ ¬ HasSignedFormat bareSignedFormat ∨ SignedDocument contracts bareSignedFormat :=
  parseLogicalReference_stable_iff Contracts.raisesDocumented.toRaisesOfReferences bareSignedFormat

end ObjectCommon
