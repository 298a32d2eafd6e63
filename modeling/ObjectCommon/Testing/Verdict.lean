import ObjectCommon.Testing.Runner

/-!
# The two verdicts of a conformance report

* `ConformanceReport.requireSuccess` : the verdict that raises;
* `ConformanceReport.toDict` : the document with the verdict that is published;
* `verdicts_agree_iff` : the verdicts agree exactly on the reports that have a check.
-/

namespace ObjectCommon

open Outcome PyError

def ConformanceCheck.toDict (c : ConformanceCheck) : Object :=
  [("name", .str c.name), ("passed", .bool c.passed), ("detail", .str c.detail)]

namespace ConformanceReport

/-- The fields of `to_dict` but the fingerprint. -/
def document (r : ConformanceReport) : Object :=
  [("formatVersion", .str "meridian.object-conformance-report.v1"), ("targetId", .str r.targetId),
    ("passed", .bool r.passed), ("checks", .arr (r.checks.map fun c => .obj c.toDict))]

/-- `to_dict(include_fingerprint=...)` over Semantics' `sha256_fingerprint` -/
def toDict (sha256Fingerprint : Json → Str) (r : ConformanceReport) (includeFingerprint : Bool := true) : Object :=
  if includeFingerprint then Dict.set r.document "fingerprint" (.str (sha256Fingerprint (.obj r.document)))
  else r.document

/-- The names of the checks that failed. -/
def failures (r : ConformanceReport) : List Str :=
  (r.checks.filter fun c => !c.passed).map ConformanceCheck.name

def requireSuccess (r : ConformanceReport) : Py Unit :=
  raiseIf (r.failures ≠ []) (.builtin .assertionError [.text "Object conformance failed: ", .reprs r.failures])

theorem passed_iff (r : ConformanceReport) : r.passed = true ↔ r.checks ≠ [] ∧ ∀ c ∈ r.checks, c.passed = true := by
  rw [passed, Bool.and_eq_true, List.all_eq_true, Bool.not_eq_true', List.isEmpty_eq_false_iff]

theorem failures_eq_nil_iff (r : ConformanceReport) : r.failures = [] ↔ ∀ c ∈ r.checks, c.passed = true := by
  simp [failures]

theorem requireSuccess_raises_iff (r : ConformanceReport) :
    (∃ e, r.requireSuccess = .error e) ↔ ¬ ∀ c ∈ r.checks, c.passed = true := by
  rw [← failures_eq_nil_iff, requireSuccess]
  constructor
  · rintro ⟨e, he⟩
    exact (raiseIf_eq_error.mp he).1
  · intro hne
    exact ⟨_, raiseIf_eq_error.mpr ⟨hne, rfl⟩⟩

/-- The value published is the property. -/
theorem get?_passed_toDict (sha256Fingerprint : Json → Str) (r : ConformanceReport) (includeFingerprint : Bool) :
    Dict.get? (r.toDict sha256Fingerprint includeFingerprint) "passed" = some (.bool r.passed) := by
  have hdocument : Dict.get? r.document "passed" = some (.bool r.passed) := by simp [document]
  unfold toDict
  split
  · rw [Dict.get?_set_ne _ _ (by decide), hdocument]
  · exact hdocument

/-- Success is required of a report, and published in its document, alike. -/
def VerdictsAgree (sha256Fingerprint : Json → Str) (r : ConformanceReport) : Prop :=
  (∃ e, r.requireSuccess = .error e) ↔ Dict.get? (r.toDict sha256Fingerprint) "passed" = some (.bool false)

/-- A report without checks has not passed, and success is not refused. -/
theorem not_verdictsAgree_empty :
    ¬ ∀ (sha256Fingerprint : Json → Str) (r : ConformanceReport), VerdictsAgree sha256Fingerprint r := by
  intro h
  obtain ⟨e, he⟩ := (h (fun _ => "sha256:") ⟨"target", []⟩).mpr (get?_passed_toDict _ _ _)
  cases he

/-- **The verdicts agree exactly on the reports that have a check.** -/
theorem verdicts_agree_iff (sha256Fingerprint : Json → Str) (r : ConformanceReport) :
    VerdictsAgree sha256Fingerprint r ↔ r.checks ≠ [] := by
  have hpublished : Dict.get? (r.toDict sha256Fingerprint) "passed" = some (.bool false) ↔ ¬ r.passed = true := by
    rw [get?_passed_toDict, Option.some.injEq, Json.bool.injEq, Bool.not_eq_true]
  rw [VerdictsAgree, hpublished, requireSuccess_raises_iff, passed_iff]
  constructor
  · intro hagree hnil
    refine hagree.mpr (fun h => h.1 hnil) fun c hc => ?_
    rw [hnil] at hc
    cases hc
  · intro hne
    rw [and_iff_right hne]

end ConformanceReport

end ObjectCommon
