import ObjectCommon.Codec.Signing

/-!
# Canonical signature text

* `CanonicalText s` : the bits of the last symbol that no byte takes are zero;
* `SameUsedBits s t` : two texts differ in these bits only;
* `HmacSha256Key` : the signer of the package, over an HMAC that is a parameter;
* `signatureText_canonical_iff` : which texts are written again as they were, and which are read alike.
-/

namespace ObjectCommon

open Outcome PyError

/-! ## Texts -/

/-- The number of the last symbol. -/
def lastIndex (s : Str) : Option (Fin 64) := s.getLast?.bind urlIndex

/-- The unused bits of the last symbol are zero. -/
def CanonicalText (s : Str) : Prop := ∀ i ∈ lastIndex s, i.val % 2 ^ Base64.unusedBits s.length = 0

/-- The texts differ at most in the unused bits of the last symbol. -/
structure SameUsedBits (s t : Str) : Prop where
  length : s.length = t.length
  dropLast : s.dropLast = t.dropLast
  last : ∀ i ∈ lastIndex s, ∀ j ∈ lastIndex t,
    i.val / 2 ^ Base64.unusedBits s.length = j.val / 2 ^ Base64.unusedBits s.length

theorem urlSymbol_of_urlIndex (c : CodePoint) (i : Fin 64) (h : urlIndex c = some i) : urlSymbol i = c := by
  unfold urlIndex at h
  unfold urlSymbol
  split at h
  · next hc =>
    cases h
    rw [if_pos (by dsimp only; omega)]
    apply Fin.ext
    dsimp only
    omega
  · split at h
    · next hc =>
      cases h
      rw [if_neg (by dsimp only; omega), if_pos (by dsimp only; omega)]
      apply Fin.ext
      dsimp only
      omega
    · split at h
      · next hc =>
        cases h
        rw [if_neg (by dsimp only; omega), if_neg (by dsimp only; omega), if_pos (by dsimp only; omega)]
        apply Fin.ext
        dsimp only
        omega
      · split at h
        · next hc =>
          cases h
          exact hc.symm
        · split at h
          · next hc =>
            cases h
            exact hc.symm
          · cases h

theorem lastIndex_map_urlSymbol (xs : List (Fin 64)) : lastIndex (xs.map urlSymbol) = xs.getLast? := by
  rw [lastIndex, List.getLast?_map]
  cases xs.getLast? with
  | none => rfl
  | some i => exact urlIndex_urlSymbol i

theorem canonicalText_map_urlSymbol (xs : List (Fin 64)) : CanonicalText (xs.map urlSymbol) ↔
    ∀ i ∈ xs.getLast?, i.val % 2 ^ Base64.unusedBits xs.length = 0 := by
  rw [CanonicalText, lastIndex_map_urlSymbol, List.length_map]

theorem sameUsedBits_map_urlSymbol (xs ys : List (Fin 64)) :
    SameUsedBits (xs.map urlSymbol) (ys.map urlSymbol) ↔ Base64.SameUsedBits xs ys := by
  have hinj := List.map_injective_iff.mpr base64url.symbol_injective
  constructor
  · rintro ⟨hlength, hdrop, hlast⟩
    rw [List.length_map, List.length_map] at hlength
    rw [← List.map_dropLast, ← List.map_dropLast] at hdrop
    rw [lastIndex_map_urlSymbol, lastIndex_map_urlSymbol, List.length_map] at hlast
    exact ⟨hlength, hinj hdrop, hlast⟩
  · rintro ⟨hlength, hdrop, hlast⟩
    refine ⟨by simpa using hlength, ?_, ?_⟩
    · rw [← List.map_dropLast, ← List.map_dropLast, hdrop]
    · rw [lastIndex_map_urlSymbol, lastIndex_map_urlSymbol, List.length_map]
      exact hlast

/-- A text that decodes is that of some six-bit numbers. -/
theorem exists_indices {s : Str} {raw : Bytes} (h : decodeSignature s = .ok raw) :
    ∃ xs, xs.map urlSymbol = s ∧ Base64.bytes? xs = some raw ∧ raw ≠ [] := by
  obtain ⟨hdecode, hne⟩ := decodeSignature_eq_ok.mp h
  obtain ⟨xs, hxs, hraw⟩ := Option.bind_eq_some_iff.mp hdecode
  exact ⟨xs, base64url.map_symbol_indices? urlSymbol_of_urlIndex hxs, hraw, hne⟩

/-- A text is written again as it was exactly when it is canonical. -/
theorem encodeSignature_eq_iff {s : Str} {raw : Bytes} (h : decodeSignature s = .ok raw) :
    encodeSignature raw = .ok s ↔ CanonicalText s := by
  obtain ⟨xs, rfl, hraw, hne⟩ := exists_indices h
  have hinj := List.map_injective_iff.mpr base64url.symbol_injective
  rw [encodeSignature_eq_ok, canonicalText_map_urlSymbol, ← Base64.sextets_eq_iff hraw]
  constructor
  · rintro ⟨-, henc⟩
    exact hinj henc
  · intro hsextets
    exact ⟨hne, congrArg (List.map urlSymbol) hsextets⟩

/-- Texts are read alike exactly when they differ in unused bits only. -/
theorem decodeSignature_eq_iff {s t : Str} {raw raw' : Bytes} (h : decodeSignature s = .ok raw)
    (h' : decodeSignature t = .ok raw') : raw = raw' ↔ SameUsedBits s t := by
  obtain ⟨xs, rfl, hraw, -⟩ := exists_indices h
  obtain ⟨ys, rfl, hraw', -⟩ := exists_indices h'
  rw [sameUsedBits_map_urlSymbol, Base64.bytes?_eq_iff hraw hraw']

/-! ## The signer of the package -/

/-- `hmac.new(key, value, hashlib.sha256).digest()` -/
structure Hmac where
  digest : Bytes → Bytes → Bytes
  length_digest : ∀ key value, (digest key value).length = 32

structure HmacSha256Key where
  keyId : Token
  key : Bytes
  length_key : 32 ≤ key.length

namespace HmacSha256Key

/-- `HmacSha256Key(key_id, key)` -/
def new (keyId : Json) (key : Bytes) : Py HmacSha256Key :=
  if h : key.length < 32 then .error (valueError "HMAC-SHA256 signing keys must contain at least 32 bytes")
  else do
    let keyId ← token keyId "signing key id"
    return ⟨keyId, key, not_lt.mp h⟩

def sign (H : Hmac) (k : HmacSha256Key) (value : Bytes) : Bytes := H.digest k.key value

/-- `hmac.compare_digest(self.sign(value), signature)` -/
def verify (H : Hmac) (k : HmacSha256Key) (value signature : Bytes) : Bool := k.sign H value = signature

def signer (H : Hmac) (k : HmacSha256Key) : ReferenceSigner :=
  ⟨k.keyId.val, "hmac-sha256", fun value => .ok (k.sign H value), fun value signature => .ok (k.verify H value signature)⟩

end HmacSha256Key

variable {P : Packages}

/-- A reference that verifies under a key has the signature of the key for its claims. -/
theorem HmacSha256Key.decode_of_verify {H : Hmac} {k : HmacSha256Key} {x : SignedObjectReference P}
    {operation audience : Str} {now : DateTime} {r : P.ObjectReference}
    (h : x.verify (k.signer H) operation audience now = .ok r) :
    ∃ value, P.canonicalJsonBytes (.obj x.claims) = .ok value ∧ decodeSignature x.signature.val = .ok (k.sign H value) := by
  obtain ⟨-, -, signature, value, hdecode, hvalue, hverify⟩ := SignedObjectReference.verify_eq_ok.mp h
  have heq : k.sign H value = signature := of_decide_eq_true (Except.ok.inj hverify)
  exact ⟨value, hvalue, heq ▸ hdecode⟩

/-- An accepted text need not be the one that is written for its bytes. -/
theorem signatureText_not_canonical : ¬ ∀ (s : Str) (t : Signature) (raw : Bytes), signatureString (.str s) = .ok t →
    decodeSignature s = .ok raw → encodeSignature raw = .ok s := by
  intro h
  have hdecode : decodeSignature "AB" = .ok [0] := rfl
  have haccepted : IsSignature "AB" := ⟨by decide, [0], hdecode⟩
  have hencode := h "AB" ⟨_, haccepted⟩ [0] (signatureString_eq_ok.mpr rfl) hdecode
  have hdecoded : encodeSignature [0] = .ok (str "AA") := rfl
  rw [hdecoded] at hencode
  exact absurd (Except.ok.inj hencode) (by decide)

/-- **Signature text up to its unused bits.** An accepted text is written again as it was exactly when the unused
bits of its last symbol are zero, as they are in every text that is written; accepted texts are read alike exactly
when they differ in these bits only; so at most one document with given claims and a canonical signature verifies
under a key. -/
theorem signatureText_canonical_iff :
    (∀ (s : Str) (t : Signature), signatureString (.str s) = .ok t →
      ∃ raw, decodeSignature s = .ok raw ∧ (encodeSignature raw = .ok s ↔ CanonicalText s)) ∧
    (∀ (raw : Bytes) (s : Str), encodeSignature raw = .ok s → CanonicalText s) ∧
    (∀ (s s' : Str) (t t' : Signature), signatureString (.str s) = .ok t → signatureString (.str s') = .ok t' →
      (decodeSignature s = decodeSignature s' ↔ SameUsedBits s s')) ∧
    ∀ (P : Packages) (H : Hmac) (k : HmacSha256Key) (x y : SignedObjectReference P) (operation audience : Str)
      (now : DateTime) (r : P.ObjectReference) (operation' audience' : Str) (now' : DateTime) (r' : P.ObjectReference),
      x.claims = y.claims → CanonicalText x.signature.val → CanonicalText y.signature.val →
      x.verify (k.signer H) operation audience now = .ok r → y.verify (k.signer H) operation' audience' now' = .ok r' →
      x.toDict = y.toDict := by
  have haccepted : ∀ {s : Str} {t : Signature}, signatureString (.str s) = .ok t → ∃ raw, decodeSignature s = .ok raw := by
    intro s t h
    obtain rfl := Json.str.inj (signatureString_eq_ok.mp h)
    exact t.2.2
  refine ⟨fun s t h => ?_, fun raw s h => ?_, fun s s' t t' h h' => ?_, ?_⟩
  · obtain ⟨raw, hraw⟩ := haccepted h
    exact ⟨raw, hraw, encodeSignature_eq_iff hraw⟩
  · exact (encodeSignature_eq_iff (decodeSignature_encodeSignature h)).mp h
  · obtain ⟨raw, hraw⟩ := haccepted h
    obtain ⟨raw', hraw'⟩ := haccepted h'
    rw [hraw, hraw', Except.ok.injEq]
    exact decodeSignature_eq_iff hraw hraw'
  · intro P H k x y operation audience now r operation' audience' now' r' hclaims hx hy hverify hverify'
    obtain ⟨value, hvalue, hdecode⟩ := HmacSha256Key.decode_of_verify hverify
    obtain ⟨value', hvalue', hdecode'⟩ := HmacSha256Key.decode_of_verify hverify'
    rw [← hclaims, hvalue] at hvalue'
    obtain rfl := Except.ok.inj hvalue'
    have hsignature := ((encodeSignature_eq_iff hdecode).mpr hx).symm.trans ((encodeSignature_eq_iff hdecode').mpr hy)
    show x.claims ++ _ = y.claims ++ _
    rw [hclaims, Except.ok.inj hsignature]

end ObjectCommon
