import ObjectCommon.Codec.Signing
import ObjectCommon.Immutability

/-!
# Deadlines are thresholds on the time line

* `DateTime.Denotes d n` : an aware time in the supported range, at the point `n` of the time line;
* `TrueFrom check n` : a check of the clock that is true from `n` on;
* `RetentionRequest.permitsDelete_trueFrom`, `RetentionRequest.requireDeleteAllowed_iff` : deletion is
  permitted from the deadline on;
* `SignedObjectReference.checkExpiry`, `verify_eq` : the check of `verify` against the clock;
* `deadlines_exact` : both thresholds, for deadlines given as texts and as times with any offset.
-/

namespace ObjectCommon

open Outcome PyError

/-! ## Times -/

/-- An aware time in the supported range, at the point `n` of the time line. -/
def DateTime.Denotes (d : DateTime) (n : Int) : Prop :=
  ∃ offset, d.utcoffset = some offset ∧ d.instant offset = n ∧ DateTime.InRange n

/-- The comparison with a deadline that both checks make. -/
def reached (text : Str) (now : DateTime) (naive : PyError) : Py Bool := do
  let offset ← now.awareOffset naive
  let deadline ← DateTime.strptime text
  let selected ← now.toUtc offset
  return deadline.sinceOrigin ≤ selected.sinceOrigin

theorem reached_eq {text : Str} {d now : DateTime} {m : Int} (hd : DateTime.strptime text = .ok d)
    (hnow : now.Denotes m) (naive : PyError) : reached text now naive = .ok (decide ((d.sinceOrigin : Int) ≤ m)) := by
  obtain ⟨offset, ho, rfl, hrange⟩ := hnow
  obtain ⟨u, hu⟩ := DateTime.toUtc_eq_ok_iff.mpr hrange
  have hinst := (DateTime.instant_toUtc hu).2
  have haware : now.awareOffset naive = .ok offset := DateTime.awareOffset_eq_ok.mpr ho
  rw [reached, haware, ok_bind, hd, ok_bind, hu, ok_bind, ← hinst]
  exact congrArg Except.ok (decide_eq_decide.mpr Int.ofNat_le.symm)

/-- A check of the clock that is true from the point `n` of the time line on. -/
def TrueFrom (check : DateTime → Py Bool) (n : Int) : Prop :=
  ∀ now m, now.Denotes m → check now = .ok (decide (n ≤ m))

namespace TrueFrom

variable {check check' : DateTime → Py Bool} {n : Int}

/-- What is true stays true. -/
theorem mono (h : TrueFrom check n) {now later : DateTime} {m m' : Int} (hm : now.Denotes m) (hm' : later.Denotes m')
    (hle : m ≤ m') (htrue : check now = .ok true) : check later = .ok true := by
  rw [h now m hm] at htrue
  rw [h later m' hm']
  have hn := of_decide_eq_true (Except.ok.inj htrue)
  exact congrArg Except.ok (decide_eq_true (hn.trans hle))

/-- Only the points of the time line matter. -/
theorem congr (h : TrueFrom check n) (h' : TrueFrom check' n) {now now' : DateTime} {m : Int} (hm : now.Denotes m)
    (hm' : now'.Denotes m) : check now = check' now' :=
  (h now m hm).trans (h' now' m hm').symm

end TrueFrom

/-! ## Retention -/

namespace RetentionRequest

theorem permitsDelete_eq (r : RetentionRequest) {text : Str} (h : r.retainUntil = some text) (now : DateTime) :
    r.permitsDelete now = reached text now (valueError "deletion check time must be timezone-aware") := by
  rw [permitsDelete, h]
  rfl

theorem deadline_eq_ok {t : TimeValue} {n : Int} (ht : Expiry t n) :
    ∃ text d, deadline t = .ok (some text) ∧ DateTime.strptime text = .ok d ∧ (d.sinceOrigin : Int) = n := by
  obtain ⟨text, d, htext, hd, hn⟩ := ht.utcTimestamp "retention deadline"
  refine ⟨text, d, ?_, hd, hn⟩
  cases ht with
  | timestamp h => exact congrArg (some <$> ·) htext
  | datetime ho hu hy => exact congrArg (some <$> ·) htext

theorem exists_new {t : TimeValue} {n : Int} (ht : Expiry t n) (policy : Option (BoundedString 256)) (enforce : Bool) :
    ∃ r, new t (wirePolicy policy) (.bool enforce) = .ok r := by
  obtain ⟨text, d, htext, -, -⟩ := deadline_eq_ok ht
  exact ⟨⟨some text, policy, enforce, Or.inl nofun⟩, new_eq_ok.mpr ⟨htext, rfl, rfl⟩⟩

/-- Deletion is permitted from the deadline on. -/
theorem permitsDelete_trueFrom {t : TimeValue} {n : Int} (ht : Expiry t n) {p e : Json} {r : RetentionRequest}
    (h : new t p e = .ok r) : TrueFrom r.permitsDelete n := by
  obtain ⟨text, d, htext, hd, rfl⟩ := deadline_eq_ok ht
  have hr : some text = r.retainUntil := Except.ok.inj (htext.symm.trans (new_eq_ok.mp h).1)
  intro now m hm
  rw [r.permitsDelete_eq hr.symm, reached_eq hd hm]

/-- A deletion is refused up to the deadline and goes through from it on. -/
theorem requireDeleteAllowed_iff {t : TimeValue} {n : Int} (ht : Expiry t n) {p e : Json} {r : RetentionRequest}
    (h : new t p e = .ok r) {now : DateTime} {m : Int} (hm : now.Denotes m) :
    r.requireDeleteAllowed now = .ok () ↔ n ≤ m := by
  rw [requireDeleteAllowed_eq_ok, permitsDelete_trueFrom ht h now m hm, Except.ok.injEq, decide_eq_true_eq]

/-- Without a deadline deletion is never permitted. -/
theorem permitsDelete_policy {p e : Json} {r : RetentionRequest} (h : new (.json .null) p e = .ok r) (now : DateTime) :
    r.permitsDelete now = .ok false := by
  have hr : none = r.retainUntil := Except.ok.inj (new_eq_ok.mp h).1
  rw [permitsDelete, ← hr]

end RetentionRequest

/-! ## Signed references -/

variable {P : Packages}

namespace SignedObjectReference

/-- The checks of `verify` that do not read the clock or the signature. -/
def checkPermission (s : SignedObjectReference P) (signer : ReferenceSigner) (operation audience : Str) : Py Unit := do
  raiseIf (signer.keyId ≠ s.keyId.val ∨ signer.algorithm ≠ s.algorithm.val)
    (ObjectAuthorizationFailed "signed Object reference key identity does not match")
  raiseIf (operation ∉ s.allowedOperations)
    (ObjectAuthorizationFailed "signed Object reference does not permit the operation")
  raiseIf (audience ≠ s.audience.val)
    (ObjectAuthorizationFailed "signed Object reference audience does not match")

/-- `selected.astimezone(UTC) >= expiry` -/
def hasExpired (s : SignedObjectReference P) (now : DateTime) : Py Bool :=
  reached s.expiresAt now (valueError "reference verification time must be timezone-aware")

/-- The check of `verify` against the clock. -/
def checkExpiry (s : SignedObjectReference P) (now : DateTime) : Py Unit := do
  let expired ← s.hasExpired now
  raiseIf (expired = true) (ObjectAuthorizationFailed "signed Object reference has expired")

/-- The check of the signature, and the result of `verify`. -/
def checkSignature (s : SignedObjectReference P) (signer : ReferenceSigner) : Py P.ObjectReference := do
  let signature ← decodeSignature s.signature.val
  let value ← P.canonicalJsonBytes (.obj s.claims)
  let valid ← signer.verify value signature
  raiseIf (valid = false) (ObjectAuthorizationFailed "signed Object reference signature is invalid")
  return s.objectRef

/-- The checks of `verify`, one after the other. -/
theorem verify_eq (s : SignedObjectReference P) (signer : ReferenceSigner) (operation audience : Str) (now : DateTime) :
    s.verify signer operation audience now =
      (s.checkPermission signer operation audience >>= fun _ => s.checkExpiry now >>= fun _ => s.checkSignature signer) := by
  simp only [verify, checkPermission, checkExpiry, hasExpired, reached, checkSignature, bind_assoc, pure_bind,
    decide_eq_true_eq]

theorem hasExpired_trueFrom {t : TimeValue} {n : Int} (ht : Expiry t n) {r : P.ObjectReference} {ops : List Json}
    {a nonce k g sig v : Json} {s : SignedObjectReference P} (h : new r ops t a nonce k g sig v = .ok s) :
    TrueFrom s.hasExpired n := by
  obtain ⟨text, d, htext, hd, rfl⟩ := ht.utcTimestamp "reference expiry"
  have hs : text = s.expiresAt := Except.ok.inj (htext.symm.trans (new_eq_ok.mp h).2.2.1)
  intro now m hm
  rw [hasExpired, ← hs, reached_eq hd hm]

theorem checkExpiry_eq_ok {s : SignedObjectReference P} {n : Int} (h : TrueFrom s.hasExpired n) {now : DateTime} {m : Int}
    (hm : now.Denotes m) : s.checkExpiry now = .ok () ↔ m < n := by
  rw [checkExpiry, h now m hm, ok_bind, raiseIf_eq_ok, decide_eq_true_eq, not_le]

end SignedObjectReference

/-! ## Both deadlines -/

/-- **Deadlines are exact.** -/
theorem deadlines_exact :
    (∀ (t : TimeValue) (n : Int), Expiry t n → ∀ (policy : Option (BoundedString 256)) (enforce : Bool), ∃ r,
      RetentionRequest.new t (RetentionRequest.wirePolicy policy) (.bool enforce) = .ok r ∧
        TrueFrom r.permitsDelete n) ∧
    (∀ (t : TimeValue) (n : Int), Expiry t n → ∀ (P : Packages) (r : P.ObjectReference) (ops : List Json)
      (a nonce k g sig v : Json) (s : SignedObjectReference P),
      SignedObjectReference.new r ops t a nonce k g sig v = .ok s →
        TrueFrom s.hasExpired n ∧ ∀ now m, now.Denotes m → (s.checkExpiry now = .ok () ↔ m < n)) ∧
    (∀ (P : Packages) (s : SignedObjectReference P) signer operation audience now,
      s.verify signer operation audience now =
        (s.checkPermission signer operation audience >>= fun _ => s.checkExpiry now >>= fun _ =>
          s.checkSignature signer)) ∧
    (∀ (p e : Json) (r : RetentionRequest), RetentionRequest.new (.json .null) p e = .ok r →
      ∀ now, r.permitsDelete now = .ok false) ∧
    (∀ check n, TrueFrom check n → ∀ now m later m', now.Denotes m → later.Denotes m' → m ≤ m' →
      check now = .ok true → check later = .ok true) ∧
    (∀ check check' n, TrueFrom check n → TrueFrom check' n → ∀ now now' m, now.Denotes m → now'.Denotes m →
      check now = check' now') ∧
    (∀ d : DateTime, d.utcoffset = some 0 → 1000 ≤ d.date.year → DateTime.strptime d.strftime = .ok d) ∧
    ∀ (s : Str) (d : DateTime), DateTime.strptime s = .ok d → 1000 ≤ d.date.year → d.strftime = s := by
  refine ⟨fun t n ht policy enforce => ?_, fun t n ht P r ops a nonce k g sig v s h => ?_, fun P s => s.verify_eq,
    fun p e r => RetentionRequest.permitsDelete_policy, fun check n h now m later m' => h.mono,
    fun check check' n h h' now now' m => h.congr h', DateTime.strptime_strftime, fun s d h hy => ?_⟩
  · obtain ⟨r, hr⟩ := RetentionRequest.exists_new ht policy enforce
    exact ⟨r, hr, RetentionRequest.permitsDelete_trueFrom ht hr⟩
  · have hfrom := SignedObjectReference.hasExpired_trueFrom ht h
    exact ⟨hfrom, fun now m => SignedObjectReference.checkExpiry_eq_ok hfrom⟩
  · rw [DateTime.strftime_eq_fullText d hy]
    exact (DateTime.strptime_eq_ok.mp h).2.symm

end ObjectCommon
