import ObjectCommon.Catalog.Canonical
import ObjectCommon.Payloads.Transfer

/-!
# Declared integrity inputs, from a put to its transfer

* `Declares` : a put declares a digest or a length, in its payload or as its own argument;
* `PutRequest.declares_digest`, `PutRequest.declares_length` : an accepted put declares its own only;
* `IntegrityKept`, `put_integrity_kept` : the emitted payload carries what was declared, a payload that
  declares something else is rejected, and a transfer that returns has verified it.
-/

namespace ObjectCommon

open Outcome PyError

variable {P : Packages}

/-- The integrity inputs of a put. -/
def integrityFields : List String := ["expectedDigest", "expectedLength"]

/-- The arguments of a put declare the value `v` of an integrity input. -/
inductive Declares (arguments : Object) (field : String) (v : Json) : Prop
  | payload {d : Object} (h : Dict.get? arguments "payload" = some (.obj d))
      (hv : Dict.get? d (str field) = some v) (hn : v ≠ .null)
  | own (h : Dict.get? arguments (str field) = some v) (hn : v ≠ .null)

namespace PutRequest

variable {p : PutRequest} {value : Object} {v : Json}

/-- A value that is declared is that of the put, when the payload's own value agrees with it. -/
theorem declares_eq {α : Type} {wire : Option α → Json} (hnull : wire none = .null) {field : String}
    {ofPayload ofPut : Option α} (h : p.ReadsIntegrity value)
    (hpayload : Dict.get? p.payload.toDict (str field) = some (wire ofPayload))
    (hput : Dict.get? value (str field) = some (wire ofPut)) (hagrees : ofPayload ≠ none → ofPayload = ofPut)
    (hv : Declares value field v) : v = wire ofPut ∧ ∃ a, ofPut = some a := by
  have hsome : ∀ {x : Option α}, wire x ≠ .null → x ≠ none := by
    intro x hx he
    rw [he] at hx
    exact hx hnull
  cases hv with
  | payload hd hv hn =>
    obtain ⟨raw, hraw, hparse⟩ := h.payload
    rw [hraw] at hd
    cases hd
    have hpv : some (wire ofPayload) = some v := by
      rw [← hpayload, ← hv]
      exact (PayloadReference.fromMapping_eq_ok.mp hparse _).symm
    obtain rfl := Option.some.inj hpv
    have hagree : ofPayload = ofPut := hagrees (hsome hn)
    rw [hagree] at hn ⊢
    exact ⟨rfl, Option.ne_none_iff_exists'.mp (hsome hn)⟩
  | own hv hn =>
    rw [hput] at hv
    cases hv
    exact ⟨rfl, Option.ne_none_iff_exists'.mp (hsome hn)⟩

theorem declares_digest (h : p.ReadsIntegrity value) (hv : Declares value "expectedDigest" v) :
    v = wireDigest p.expectedDigest ∧ ∃ d, p.expectedDigest = some d :=
  declares_eq rfl h (by simp [PayloadReference.toDict]) h.expectedDigest h.digest_agrees hv

theorem declares_length (h : p.ReadsIntegrity value) (hv : Declares value "expectedLength" v) :
    v = ByteRange.wireNat p.expectedLength ∧ ∃ n, p.expectedLength = some n :=
  declares_eq rfl h (by simp [PayloadReference.toDict]) h.expectedLength h.length_agrees hv

theorem get?_update_digest (p : PutRequest) (value : Object) :
    Dict.get? (Dict.update value p.updates) (str "expectedDigest") = some (wireDigest p.expectedDigest) := by
  rw [p.get?_update]; rfl

theorem get?_update_length (p : PutRequest) (value : Object) :
    Dict.get? (Dict.update value p.updates) (str "expectedLength") =
      some (ByteRange.wireNat p.expectedLength) := by
  rw [p.get?_update]; rfl

/-- What a put declares is what it emits. -/
theorem get?_update_declared (h : p.ReadsIntegrity value) {field : String} (hf : field ∈ integrityFields)
    (hv : Declares value field v) : Dict.get? (Dict.update value p.updates) (str field) = some v := by
  simp only [integrityFields, List.mem_cons, List.not_mem_nil, or_false] at hf
  rcases hf with rfl | rfl
  · rw [p.get?_update_digest, (declares_digest h hv).1]
  · rw [p.get?_update_length, (declares_length h hv).1]

end PutRequest

/-- What holds of the Operation of an accepted put. -/
structure IntegrityKept (arguments : Object) (o : Operation) : Prop where
  /-- The emitted payload carries the put's own digest and length. -/
  agrees : ∃ d, Dict.get? o.input "payload" = some (.obj d) ∧
    ∀ field ∈ integrityFields, Dict.get? d (str field) = Dict.get? o.input (str field)
  declared : ∀ field ∈ integrityFields, ∀ v, Declares arguments field v → Dict.get? o.input (str field) = some v
  /-- A transfer of the emitted payload returns the digest and the length declared, or no identity. -/
  transferred : ∀ d, Dict.get? o.input "payload" = some (.obj d) → ∀ reference,
    parsePayloadReference reference = PayloadReference.fromMapping d →
    ∀ {W : Type} (heap : SourceId → PayloadSource) (env : Environment W) (H : Hasher) (fuel : Nat)
      (chunkSize : Json) (p p' : Process W) (i : ContentIdentity),
      transferPayload heap env H fuel reference chunkSize p = some (.ok i, p') →
        (∀ v, Declares arguments "expectedDigest" v → v = .str i.digest.val) ∧
        ∀ v, Declares arguments "expectedLength" v → v = .int i.byteLength

/-- **Declared integrity inputs are never lost between a put and its transfer.** -/
theorem put_integrity_kept {e : Expression} (hm : e.method = str "put") :
    (∀ o, normalize P e = .ok o → IntegrityKept e.arguments o) ∧
    ∀ field ∈ integrityFields, ∀ d v, Dict.get? e.arguments "payload" = some (.obj d) →
      Dict.get? d (str field) = some v → v ≠ .null → Dict.get? e.arguments (str field) ≠ some v →
      ∀ o, normalize P e ≠ .ok o := by
  have hput : ∀ {o}, normalize P e = .ok o → ∃ (p : PutRequest) (resource : ResourceRef),
      p.Reads P e.arguments resource ∧ o.input = Dict.update e.arguments p.updates := by
    intro o h
    obtain ⟨contract, resource, r, hacc, rfl⟩ := normalize_eq_ok.mp h
    have hreads := hacc.reads
    rw [hm] at hreads
    cases r with
    | put p => exact ⟨p, resource, hreads.2.2, rfl⟩
    | _ => simp [Request.Reads] at hreads
  refine ⟨fun o h => ?_, fun field hf d v hd hv hn hne o h => ?_⟩
  · obtain ⟨p, resource, hp, hin⟩ := hput h
    have hpay : Dict.get? o.input (str "payload") = some (.obj p.merged.toDict) := by
      rw [hin, p.get?_update]; rfl
    refine ⟨⟨_, hpay, ?_⟩, fun field hf v hv => ?_, ?_⟩
    · simp only [integrityFields, List.mem_cons, List.not_mem_nil, or_false, forall_eq_or_imp, forall_eq]
      rw [hin, p.get?_update_digest, p.get?_update_length]
      exact ⟨rfl, rfl⟩
    · rw [hin]
      exact p.get?_update_declared hp.integrity hf hv
    · intro d hd reference hparse W heap env H fuel chunkSize q q' i ht
      rw [hpay] at hd
      cases hd
      rw [PayloadReference.fromMapping_toDict] at hparse
      obtain ⟨hdig, hlen⟩ := transferPayload_declared ht hparse
      refine ⟨fun v hv => ?_, fun v hv => ?_⟩
      · obtain ⟨rfl, d, hd⟩ := p.declares_digest hp.integrity hv
        rw [hd, hdig d hd]
        rfl
      · obtain ⟨rfl, n, hn⟩ := p.declares_length hp.integrity hv
        rw [hn, hlen n hn]
        rfl
  · obtain ⟨p, resource, hp, hin⟩ := hput h
    have hemit := p.get?_update_declared hp.integrity hf (.payload hd hv hn)
    refine hne (Eq.trans ?_ hemit)
    simp only [integrityFields, List.mem_cons, List.not_mem_nil, or_false] at hf
    rcases hf with rfl | rfl
    · rw [p.get?_update_digest, hp.integrity.expectedDigest]
    · rw [p.get?_update_length, hp.integrity.expectedLength]

theorem put_integrity_kept_putFixture :
    ∃ o, normalize contracts Contracts.putFixture = .ok o ∧ IntegrityKept Contracts.putFixture.arguments o := by
  obtain ⟨o, ho⟩ := normalize_putFixture
  exact ⟨o, ho, (put_integrity_kept (P := contracts) (e := Contracts.putFixture) rfl).1 o ho⟩

end ObjectCommon
