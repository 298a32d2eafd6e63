import ObjectCommon.Codec.Signed
import ObjectCommon.Contracts

/-!
# Signing what can be signed

* `Expiry t n` : `t` is an expiry that can be signed, at the point `n` of the time line;
* `SigningInput` : the arguments of `sign_object_reference` and a signer that works;
* `SigningInput.sign_eq_ok` : signing succeeds, with a signature the signer accepts;
* `SigningInput.Claims.authorized_iff` : what the signed reference verifies under.
-/

namespace ObjectCommon

open Outcome PyError

/-! ## Times -/

/-- A timestamp text, or an aware `datetime` whose UTC year has four digits, and when it expires. -/
inductive Expiry : TimeValue → Int → Prop
  | timestamp {s : Str} {d : DateTime} (h : DateTime.strptime s = .ok d) :
      Expiry (.json (.str s)) d.sinceOrigin
  | datetime {d u : DateTime} {offset : Int} (ho : d.utcoffset = some offset) (hu : d.toUtc offset = .ok u)
      (hy : 1000 ≤ u.date.year) : Expiry (.datetime d) (d.instant offset)

/-- The text of an expiry is a timestamp of the same time. -/
theorem Expiry.utcTimestamp {t : TimeValue} {n : Int} (h : Expiry t n) (field : String) :
    ∃ s d, utcTimestamp t field = .ok s ∧ DateTime.strptime s = .ok d ∧ (d.sinceOrigin : Int) = n := by
  cases h with
  | @timestamp s d h => exact ⟨s, d, utcTimestamp_str_eq_ok.mpr ⟨rfl, d, h⟩, h, rfl⟩
  | @datetime d u offset ho hu hy =>
    obtain ⟨hu0, hinst⟩ := DateTime.instant_toUtc hu
    refine ⟨u.strftime, u, ?_, DateTime.strptime_strftime u hu0 hy, hinst⟩
    simp only [ObjectCommon.utcTimestamp, bind_eq_ok, DateTime.awareOffset_eq_ok, pure_eq_ok]
    exact ⟨offset, ho, u, hu, rfl⟩

/-- An aware time strictly before a point of the time line. -/
def Before (now : DateTime) (n : Int) : Prop :=
  ∃ offset, now.utcoffset = some offset ∧ now.instant offset < n

/-- An aware time strictly before a point of the time line, with a UTC year of 1 to 9999. -/
def BeforeInRange (now : DateTime) (n : Int) : Prop :=
  ∃ offset, now.utcoffset = some offset ∧ DateTime.InRange (now.instant offset) ∧ now.instant offset < n

/-! ## Signing -/

variable (P : Packages)

/-- The arguments of `sign_object_reference` with a nonce, and a signer that accepts what it signs. -/
structure SigningInput where
  reference : P.ObjectReference
  operations : List Str
  expiresAt : TimeValue
  expiry : Int
  audience : BoundedString 256
  nonce : Token
  signer : ReferenceSigner
  exact : P.digest reference ≠ none
  operations_ne_nil : operations ≠ []
  operations_nodup : operations.Nodup
  operations_subset : ∀ o ∈ operations, o ∈ signedReferenceOperations
  expires : Expiry expiresAt expiry
  keyId_token : tokenRe signer.keyId = true
  algorithm_token : tokenRe signer.algorithm = true
  works : ∀ value, ∃ signature, signer.sign value = .ok signature ∧ 1 ≤ signature.length ∧
    signature.length ≤ 1536 ∧ signer.verify value signature = .ok true

variable {P}

namespace SigningInput

def sign (q : SigningInput P) (generated : Str) : Py (SignedObjectReference P) :=
  signObjectReference (.reference q.reference) q.operations q.expiresAt q.audience.val q.signer
    (some q.nonce.val) generated

theorem operations_valid (q : SigningInput P) : ValidOperations (sorted q.operations) where
  ne_nil h := q.operations_ne_nil ((h ▸ sorted_perm q.operations).nil_eq).symm
  nodup := (sorted_perm _).nodup_iff.mpr q.operations_nodup
  sorted := sorted_pairwise _
  subset o ho := q.operations_subset o ((sorted_perm _).mem_iff.mp ho)

/-- The signed reference makes the claims it was asked to make. -/
structure Claims (q : SigningInput P) (s : SignedObjectReference P) : Prop where
  objectRef : s.objectRef = q.reference
  operations : s.allowedOperations = sorted q.operations
  expiresAt : ∃ d, DateTime.strptime s.expiresAt = .ok d ∧ (d.sinceOrigin : Int) = q.expiry
  audience : s.audience = q.audience
  keyId : s.keyId.val = q.signer.keyId
  algorithm : s.algorithm.val = q.signer.algorithm

theorem isSignature_placeholder : IsSignature (str "AA") := ⟨by decide, [0], rfl⟩

/-- The reference before it is signed. -/
theorem exists_unsigned (hP : P.RoundTrips) (q : SigningInput P) (generated : Str) :
    ∃ s, unsignedReference (.reference q.reference) q.operations q.expiresAt q.audience.val q.signer
      (some q.nonce.val) generated = .ok s ∧ q.Claims s := by
  obtain ⟨text, d, htext, hd, hn⟩ := q.expires.utcTimestamp "reference expiry"
  let s : SignedObjectReference P :=
    { objectRef := q.reference, allowedOperations := sorted q.operations, expiresAt := text
      audience := q.audience, nonce := q.nonce, keyId := ⟨q.signer.keyId, q.keyId_token⟩
      algorithm := ⟨q.signer.algorithm, q.algorithm_token⟩, signature := ⟨_, isSignature_placeholder⟩
      formatVersion := ⟨_, rfl⟩, exact := q.exact, operations_valid := q.operations_valid }
  refine ⟨s, ?_, rfl, rfl, ⟨d, hd, hn⟩, rfl, rfl, rfl⟩
  have hparse : parseObjectReference P (.reference q.reference) true = .ok q.reference :=
    parseObjectReference_eq_ok.mpr ⟨readObjectReference_reference hP _, fun _ => q.exact⟩
  have hnonce : q.nonce.val ≠ [] := (tokenRe_spec q.nonce.2).1
  simp only [unsignedReference, bind_eq_ok, SignedObjectReference.new_eq_ok]
  exact ⟨_, hparse, readObjectReference_reference hP _, ⟨_, rfl, (sorted_perm _).symm⟩, htext, rfl,
    by simp [s, hnonce], rfl, rfl, rfl, rfl⟩

/-- **Signing succeeds**, and the signature is one that the signer accepts for the claims. -/
theorem sign_eq_ok (hP : P.RoundTrips) (hS : P.SerializesText) (q : SigningInput P) (generated : Str) :
    ∃ s value signature, q.sign generated = .ok s ∧ q.Claims s ∧
      P.canonicalJsonBytes (.obj s.claims) = .ok value ∧ decodeSignature s.signature.val = .ok signature ∧
      q.signer.verify value signature = .ok true := by
  obtain ⟨unsigned, hunsigned, hclaims⟩ := q.exists_unsigned hP generated
  obtain ⟨d, hd, -⟩ := hclaims.expiresAt
  obtain ⟨value, hvalue⟩ := hS.canonicalJsonBytes _ unsigned.claims_wellFormed
    (SignedObjectReference.claims_textual hS ⟨d, hd⟩)
  obtain ⟨signature, hsign, hpos, hle, hverify⟩ := q.works value
  have henc : encodeSignature signature = .ok (base64url.encode signature) :=
    encodeSignature_eq_ok.mpr ⟨List.ne_nil_of_length_pos hpos, rfl⟩
  let s : SignedObjectReference P := { unsigned with signature := ⟨_, isSignature_encode hpos hle⟩ }
  have hsame : s.SameClaims unsigned := ⟨rfl, rfl, rfl, rfl, rfl, rfl, rfl, rfl⟩
  refine ⟨s, value, signature, ?_, ⟨hclaims.1, hclaims.2, hclaims.3, hclaims.4, hclaims.5, hclaims.6⟩, hvalue,
    decodeSignature_encodeSignature henc, hverify⟩
  exact (signObjectReference_eq_ok hP).mpr
    ⟨unsigned, value, signature, hunsigned, hvalue, hsign, henc, ⟨d, hd⟩, hsame⟩

/-- What the reference verifies under. -/
theorem Claims.authorized_iff {q : SigningInput P} {s : SignedObjectReference P} (h : q.Claims s)
    {operation audience : Str} {now : DateTime} :
    s.Authorized q.signer operation audience now ↔
      operation ∈ q.operations ∧ audience = q.audience.val ∧ BeforeInRange now q.expiry := by
  obtain ⟨d, hd, hn⟩ := h.expiresAt
  constructor
  · intro ha
    obtain ⟨offset, expiry, hoff, hexp, hr, hlt⟩ := ha.notExpired
    obtain rfl : d = expiry := by rw [hd] at hexp; exact Except.ok.inj hexp
    exact ⟨(sorted_perm _).mem_iff.mp (h.operations ▸ ha.operation), by rw [ha.audience, h.audience],
      offset, hoff, hr, hn ▸ hlt⟩
  · rintro ⟨ho, ha, offset, hoff, hr, hlt⟩
    exact ⟨h.keyId.symm, h.algorithm.symm, by rw [h.operations]; exact (sorted_perm _).mem_iff.mpr ho,
      by rw [ha, h.audience], offset, d, hoff, hd, hr, hn ▸ hlt⟩

end SigningInput

/-! ## A signing -/

/-- A signer that returns one signature and accepts all. -/
def constantSigner : ReferenceSigner := ⟨"key-1", "test-v1", fun _ => .ok [1, 2, 3], fun _ _ => .ok true⟩

/-- 2099-01-01T00:00:00Z -/
def fixtureExpiry : DateTime := ⟨⟨2099, 1, 1⟩, 0, 0, 0, 0, some 0, by decide, DateTime.midnight_valid, DateTime.utc_valid⟩

/-- 2026-01-01T00:00:00Z -/
def fixtureNow : DateTime := ⟨⟨2026, 1, 1⟩, 0, 0, 0, 0, some 0, by decide, DateTime.midnight_valid, DateTime.utc_valid⟩

/-- A reference signed for `read_range` and `get`. -/
def signingFixture : SigningInput contracts where
  reference := Contracts.fixture
  operations := ["read_range", "get"]
  expiresAt := .json (.str "2099-01-01T00:00:00.000000Z")
  expiry := fixtureExpiry.sinceOrigin
  audience := ⟨"fixture-reader", by decide, ⟨14, by decide, by decide⟩, by decide⟩
  nonce := ⟨"nonce-1", by decide⟩
  signer := constantSigner
  exact := by decide
  operations_ne_nil := by decide
  operations_nodup := by decide
  operations_subset := by decide
  expires := .timestamp rfl
  keyId_token := by decide
  algorithm_token := by decide
  works _ := ⟨[1, 2, 3], rfl, by decide, by decide, rfl⟩

theorem before_fixtureExpiry : BeforeInRange fixtureNow signingFixture.expiry :=
  ⟨0, rfl, by decide +kernel, by decide +kernel⟩

end ObjectCommon
