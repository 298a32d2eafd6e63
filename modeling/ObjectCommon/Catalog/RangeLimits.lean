import ObjectCommon.Catalog.Inversion

/-!
# The negotiated range limit

* `Operation.RequiresLimit` : a requirement of an Operation carries a limit;
* `requiresLimit_readRange_iff` : the range limit of an accepted `read_range` is the length it asks for;
* `rangeLimit_sound_tight` : what the emitted range resolves to is bounded by that limit, and reaches it
  when the range lies inside the Object.
-/

namespace ObjectCommon

open Outcome PyError

variable {P : Packages}

/-- A requirement of the Operation carries the limit. -/
def Operation.RequiresLimit (o : Operation) (limit : Str) (m : Nat) : Prop :=
  ∃ q ∈ o.requirements, Dict.get? q.minimumLimits limit = some m

/-- An accepted `read_range` asks for the range it emits. -/
theorem readRange_of_normalize {e : Expression} {o : Operation} (h : normalize P e = .ok o)
    (hm : e.method = str "read_range") :
    ∃ range : ByteRange, Dict.get? o.input "range" = some (.obj range.toDict) ∧
      ∀ m, o.RequiresLimit limitMaxRangeBytes m ↔ range.length? = some m := by
  obtain ⟨contract, resource, r, ha, rfl⟩ := normalize_eq_ok.mp h
  have hreads := ha.reads
  rw [hm] at hreads
  cases r with
  | readRange reference range =>
    have hget : Dict.get? (Dict.update e.arguments (Request.updates (.readRange reference range))) (str "range") =
        some (.obj range.toDict) := by
      rw [Request.updates, Dict.get?_update (by simp)]
      simp
    refine ⟨range, hget, fun m => ?_⟩
    unfold Operation.RequiresLimit operationOf requirementsOf
    dsimp only
    cases hl : range.length? with
    | none => split <;> simp [requirementOf, Request.demands, rangeLimits, hl]
    | some k => simp [requirementOf, Request.demands, rangeLimits, hl]
  | _ => simp [Request.Reads] at hreads

/-- **The negotiated range limit is sound and tight.** -/
theorem rangeLimit_sound_tight {e : Expression} {o : Operation} (h : normalize P e = .ok o)
    (hm : e.method = str "read_range") :
    ∃ raw range, Dict.get? o.input "range" = some (.obj raw) ∧ ByteRange.fromMapping raw = .ok range ∧
      ∀ (n : Nat) resolved, range.resolve (.int n) = .ok resolved →
        (∀ m, o.RequiresLimit limitMaxRangeBytes m →
          resolved.length ≤ m ∧ (resolved.length = m ↔ range.LiesInside n)) ∧
        ((∀ m, ¬ o.RequiresLimit limitMaxRangeBytes m) →
          range.suffixLength = none ∧ range.rangeEnd = none ∧ ∃ start ∈ range.start, resolved.length = n - start) := by
  obtain ⟨range, hget, hlimit⟩ := readRange_of_normalize h hm
  refine ⟨_, range, hget, range.fromMapping_toDict, fun n resolved hres => ⟨fun m hreq => ?_, fun hno => ?_⟩⟩
  · exact ByteRange.length_resolve hres ((hlimit m).mp hreq)
  · have hopen : range.length? = none := Option.eq_none_iff_forall_ne_some.mpr fun m hm => hno m ((hlimit m).mpr hm)
    obtain ⟨hk, he⟩ := range.length?_eq_none_iff.mp hopen
    exact ⟨hk, he, ByteRange.length_resolve_open hres hopen⟩

/-- Eight bytes are asked for; an Object of ten bytes has them all. -/
theorem rangeLimit_sound_tight_readRangeFixture :
    ∃ o raw range, normalize contracts Contracts.readRangeFixture = .ok o ∧
      Dict.get? o.input "range" = some (.obj raw) ∧ ByteRange.fromMapping raw = .ok range ∧
      o.RequiresLimit limitMaxRangeBytes 8 ∧
      (∀ (n : Nat) resolved, range.resolve (.int n) = .ok resolved →
        resolved.length ≤ 8 ∧ (resolved.length = 8 ↔ 10 ≤ n)) ∧
      ∃ resolved, range.resolve (.int 10) = .ok resolved ∧ resolved.length = 8 := by
  obtain ⟨o, ho⟩ := normalize_readRangeFixture
  obtain ⟨raw, range, hraw, hrange, h⟩ := rangeLimit_sound_tight ho rfl
  have hasked : (normalize contracts Contracts.readRangeFixture).map (fun o => Dict.get? o.input (str "range")) =
      .ok (some (.obj [("start", .int 2), ("end", .int 9)])) := rfl
  have hrequired : (normalize contracts Contracts.readRangeFixture).map (fun o =>
      o.requirements.any fun q => Dict.get? q.minimumLimits limitMaxRangeBytes = some 8) = .ok true := by decide +kernel
  rw [ho] at hasked hrequired
  obtain rfl := Json.obj.inj (Option.some.inj (hraw.symm.trans (Except.ok.inj hasked)))
  obtain rfl : (⟨some 2, some 9, none, 2, rfl, by simp⟩ : ByteRange) = range := Except.ok.inj hrange
  have hlimit : o.RequiresLimit limitMaxRangeBytes 8 := by
    obtain ⟨q, hq, hget⟩ := List.any_eq_true.mp (Except.ok.inj hrequired)
    exact ⟨q, hq, of_decide_eq_true hget⟩
  have hbounds : ∀ (n : Nat) resolved, ByteRange.resolve ⟨some 2, some 9, none, 2, rfl, by simp⟩ (.int n) = .ok resolved →
      resolved.length ≤ 8 ∧ (resolved.length = 8 ↔ 10 ≤ n) := by
    intro n resolved hres
    obtain ⟨hle, hiff⟩ := (h n resolved hres).1 8 hlimit
    exact ⟨hle, hiff.trans (by simp [ByteRange.LiesInside, Nat.succ_le_iff])⟩
  exact ⟨o, _, _, ho, hraw, hrange, hlimit, hbounds, _, rfl, rfl⟩

end ObjectCommon
