import ObjectCommon.Codec.Signing
import ObjectCommon.Library.Runs

/-!
# Who can have issued a verified reference

The calls of `sign_object_reference` and `SignedObjectReference.verify`, with any signers and in any order and number.
Each signer is ideal: it accepts a signature only of a value that it has signed itself.

* `SignCall`, `VerifyCall` : the calls and what they return;
* `SignerStep` : the signatures issued before and after a call;
* `verify_issued` : a reference that verifies makes the claims of one that the same signer signed before.
-/

namespace ObjectCommon

open Outcome PyError Runs

variable (P : Packages)

/-- The identity of a signer. -/
abbrev SignerId := Nat

/-- A call of `sign_object_reference`: which signer it is given and what this signer answers in it, and what
`secrets.token_hex(24)` returns. -/
structure SignCall where
  signerId : SignerId
  objectRef : ReferenceValue P
  allowedOperations : List Str
  expiresAt : TimeValue
  audience : Str
  signer : ReferenceSigner
  nonce : Option Str
  generated : Str

/-- A call of `verify`. -/
structure VerifyCall where
  signerId : SignerId
  reference : SignedObjectReference P
  signer : ReferenceSigner
  operation : Str
  audience : Str
  now : DateTime

inductive Call where
  | sign (c : SignCall P)
  | verify (c : VerifyCall P)

variable {P}

def SignCall.unsigned (c : SignCall P) : Py (SignedObjectReference P) :=
  unsignedReference c.objectRef c.allowedOperations c.expiresAt c.audience c.signer c.nonce c.generated

def SignCall.result (c : SignCall P) : Py (SignedObjectReference P) :=
  signObjectReference c.objectRef c.allowedOperations c.expiresAt c.audience c.signer c.nonce c.generated

/-- A signer, a value that it signed and the signature. -/
abbrev Issue := SignerId × Bytes × Bytes

/-- What the call has signed, if it comes to that. -/
def SignCall.issue (c : SignCall P) : Py Issue := do
  let unsigned ← c.unsigned
  let value ← P.canonicalJsonBytes (.obj unsigned.claims)
  let signed ← c.signer.sign value
  return (c.signerId, value, signed)

def VerifyCall.result (c : VerifyCall P) : Py P.ObjectReference :=
  c.reference.verify c.signer c.operation c.audience c.now

/-- A call, from the signatures issued before it to those issued after it. A signer accepts only the signatures that it
issued itself. -/
inductive SignerStep : List Issue → Call P → List Issue → Prop
  | sign {issued : List Issue} {c : SignCall P} {issue : Issue} (h : c.issue = .ok issue) :
      SignerStep issued (.sign c) (issued ++ [issue])
  | refuse {issued : List Issue} {c : SignCall P} {e : PyError} (h : c.issue = .error e) :
      SignerStep issued (.sign c) issued
  | verify {issued : List Issue} {c : VerifyCall P}
      (ideal : ∀ value signature, c.signer.verify value signature = .ok true → (c.signerId, value, signature) ∈ issued) :
      SignerStep issued (.verify c) issued

/-- Every signature was issued to a call. -/
theorem issued_by {calls : List (Call P)} {issued : List Issue} (h : Run SignerStep [] calls issued) :
    ∀ issue ∈ issued, ∃ c, Call.sign c ∈ calls ∧ c.issue = .ok issue := by
  refine h.invariant (P := fun calls issued => ∀ issue ∈ issued, ∃ c, Call.sign c ∈ calls ∧ c.issue = .ok issue)
    (by simp) ?_
  intro calls issued e issued' ih hstep issue hi
  have keep : issue ∈ issued → ∃ c, Call.sign c ∈ calls ++ [e] ∧ c.issue = .ok issue := by
    intro hi
    obtain ⟨c, hc, h⟩ := ih issue hi
    exact ⟨c, List.mem_append_left _ hc, h⟩
  cases hstep with
  | @sign c issue' h =>
    rcases List.mem_append.mp hi with hi | hi
    · exact keep hi
    · obtain rfl := List.mem_singleton.mp hi
      exact ⟨c, List.mem_append_right _ List.mem_cons_self, h⟩
  | refuse => exact keep hi
  | verify => exact keep hi

/-- The bytes of a signature text fit into a signature text. -/
theorem isSignature_encode_of_decode {s : Signature} {raw : Bytes} (h : decodeSignature s.val = .ok raw) :
    encodeSignature raw = .ok (base64url.encode raw) ∧ IsSignature (base64url.encode raw) := by
  obtain ⟨hd, hne⟩ := decodeSignature_eq_ok.mp h
  have hlen := (base64url.length_decode? hd).1
  have hle := s.2.1
  have hpos := List.length_pos_of_ne_nil hne
  exact ⟨encodeSignature_eq_ok.mpr ⟨hne, rfl⟩, isSignature_encode (by omega) (by omega)⟩

/-- A call that was issued the signature of a reference that verifies returned one with its claims. -/
theorem result_of_issue (hP : P.RoundTrips) (hI : P.WritesInjectively) {c : SignCall P} {signerId : SignerId}
    {r : SignedObjectReference P} {value raw : Bytes} (hc : c.issue = .ok (signerId, value, raw))
    (hv : P.canonicalJsonBytes (.obj r.claims) = .ok value) (hs : decodeSignature r.signature.val = .ok raw)
    (ht : IsTimestamp r.expiresAt) : c.signerId = signerId ∧ ∃ x, c.result = .ok x ∧ x.SameClaims r := by
  simp only [SignCall.issue, bind_eq_ok, pure_eq_ok, Prod.mk.injEq] at hc
  obtain ⟨unsigned, hu, _, hv', _, hsign, hsigner, rfl, rfl⟩ := hc
  have hsame : unsigned.SameClaims r := SignedObjectReference.sameClaims_of_canon hI
    (hI.canonicalJsonBytes _ _ _ unsigned.claims_wellFormed r.claims_wellFormed hv' hv)
  obtain ⟨henc, hfit⟩ := isSignature_encode_of_decode hs
  let x : SignedObjectReference P := { unsigned with signature := ⟨_, hfit⟩ }
  have hx : x.SameClaims unsigned := ⟨rfl, rfl, rfl, rfl, rfl, rfl, rfl, rfl⟩
  exact ⟨hsigner, x, (signObjectReference_eq_ok hP).mpr
    ⟨unsigned, _, _, hu, hv', hsign, henc, hsame.expiresAt ▸ ht, hx⟩, hx.trans hsame⟩

/-- The guards of `verify` read the claims only. -/
theorem SignedObjectReference.SameClaims.authorized {x y : SignedObjectReference P} (h : x.SameClaims y)
    {signer : ReferenceSigner} {operation audience : Str} {now : DateTime}
    (hy : y.Authorized signer operation audience now) : x.Authorized signer operation audience now where
  keyId := by rw [h.keyId]; exact hy.keyId
  algorithm := by rw [h.algorithm]; exact hy.algorithm
  operation := by rw [h.allowedOperations]; exact hy.operation
  audience := by rw [h.audience]; exact hy.audience
  notExpired := by rw [h.expiresAt]; exact hy.notExpired

/-- **A signed reference cannot be widened**: when `verify` returns, an earlier call of the same signer signed a reference
with the same claims, these claims authorize the call, and the Object reference returned is the one that was signed. A
reference with claims that this signer never signed does not verify. -/
theorem verify_issued (hP : P.RoundTrips) (hI : P.WritesInjectively) {before after : List (Call P)}
    {c : VerifyCall P} {issued : List Issue}
    (h : Run SignerStep [] (before ++ .verify c :: after) issued) :
    (∀ o, c.result = .ok o → ∃ s x, Call.sign s ∈ before ∧ s.signerId = c.signerId ∧ s.result = .ok x ∧
      x.SameClaims c.reference ∧ x.Authorized c.signer c.operation c.audience c.now ∧ o = x.objectRef) ∧
    ((∀ s x, Call.sign s ∈ before → s.signerId = c.signerId → s.result = .ok x → ¬ x.SameClaims c.reference) →
      ∃ e, c.result = .error e) := by
  have hreturns : ∀ o, c.result = .ok o → ∃ s x, Call.sign s ∈ before ∧ s.signerId = c.signerId ∧ s.result = .ok x ∧
      x.SameClaims c.reference ∧ x.Authorized c.signer c.operation c.audience c.now ∧ o = x.objectRef := by
    intro o ho
    obtain ⟨issued', _, hbefore, hstep, -⟩ := h.split
    obtain ⟨rfl, hauth, raw, value, hraw, hvalue, hverify⟩ := SignedObjectReference.verify_eq_ok.mp ho
    cases hstep with
    | verify ideal =>
      obtain ⟨s, hs, hissue⟩ := issued_by hbefore _ (ideal _ _ hverify)
      obtain ⟨_, expiry, -, hexpiry, -⟩ := hauth.notExpired
      obtain ⟨hsigner, x, hx, hsame⟩ := result_of_issue hP hI hissue hvalue hraw ⟨expiry, hexpiry⟩
      exact ⟨s, x, hs, hsigner, hx, hsame, hsame.authorized hauth, hsame.objectRef.symm⟩
  refine ⟨hreturns, fun hnever => ?_⟩
  cases hr : c.result with
  | error e => exact ⟨e, rfl⟩
  | ok o =>
    obtain ⟨s, x, hs, hsigner, hx, hsame, -⟩ := hreturns o hr
    exact absurd hsame (hnever s x hs hsigner hx)

/-- The call that signs for `read_range` and `get`. -/
def signFixture : SignCall contracts where
  signerId := 0
  objectRef := .reference signingFixture.reference
  allowedOperations := signingFixture.operations
  expiresAt := signingFixture.expiresAt
  audience := signingFixture.audience.val
  signer := signingFixture.signer
  nonce := some signingFixture.nonce.val
  generated := []

theorem verify_issued_signFixture :
    ∃ (c : VerifyCall contracts) (issued : List Issue) (o : Contracts.Reference),
      Run SignerStep [] ([.sign signFixture] ++ .verify c :: []) issued ∧ c.result = .ok o ∧
      ∃ s x, Call.sign s ∈ [Call.sign signFixture] ∧ s.signerId = c.signerId ∧ s.result = .ok x ∧
        x.SameClaims c.reference ∧ x.Authorized c.signer c.operation c.audience c.now ∧ o = x.objectRef := by
  obtain ⟨x, value, signature, hsign, hclaims, hvalue, hsignature, -⟩ :=
    signingFixture.sign_eq_ok Contracts.roundTrips Contracts.serializesText []
  obtain ⟨unsigned, value', signature', hu, hv, hs, henc, -, hsame⟩ :=
    (signObjectReference_eq_ok Contracts.roundTrips).mp hsign
  rw [← hsame.claims_eq] at hv
  obtain rfl : value = value' := Except.ok.inj (hvalue.symm.trans hv)
  obtain rfl : signature = signature' :=
    Except.ok.inj (hsignature.symm.trans (decodeSignature_encodeSignature henc))
  have hissue : signFixture.issue = .ok (0, value, signature) := by
    simp only [SignCall.issue, bind_eq_ok, pure_eq_ok]
    exact ⟨unsigned, hu, value, hsame.claims_eq ▸ hv, signature, hs, rfl⟩
  let signer : ReferenceSigner :=
    { constantSigner with verify := fun v s => .ok (decide ((v, s) ∈ [(value, signature)])) }
  let c : VerifyCall contracts := ⟨0, x, signer, "get", signingFixture.audience.val, fixtureNow⟩
  have hauth : x.Authorized constantSigner "get" signingFixture.audience.val fixtureNow :=
    hclaims.authorized_iff.mpr ⟨by decide, rfl, before_fixtureExpiry⟩
  have hresult : c.result = .ok x.objectRef := SignedObjectReference.verify_eq_ok.mpr
    ⟨rfl, ⟨hauth.1, hauth.2, hauth.3, hauth.4, hauth.5⟩, signature, value, hsignature, hvalue, by simp [c, signer]⟩
  have hrun : Run SignerStep [] ([.sign signFixture] ++ .verify c :: []) [(0, value, signature)] := by
    refine (Run.nil.snoc (.sign hissue)).snoc (.verify fun v s h => ?_)
    obtain ⟨rfl, rfl⟩ := Prod.mk.inj (List.mem_singleton.mp (of_decide_eq_true (Except.ok.inj h)))
    exact List.mem_singleton_self _
  exact ⟨c, _, x.objectRef, hrun, hresult,
    (verify_issued Contracts.roundTrips Contracts.writesInjectively hrun).1 _ hresult⟩

end ObjectCommon
