import ObjectCommon.Codec.Signed
import ObjectCommon.Library.Base16
import ObjectCommon.Payloads.Registry

/-!
# Generated handles

* `RandomBytes n` : what the random generator returns for `n` bytes;
* `tokenUrlsafe`, `tokenHex` : the texts that `secrets` makes of them;
* `tokenRe_urlsafe` : a base 64 text is a token where its bytes do not fill the last group of three;
* `payloadToken`, `generatedNonce` : the generated handles, as the tokens they are;
* `generatedHandles_accepted` : they are accepted wherever the package uses them.
-/

namespace ObjectCommon

open Outcome PyError

/-! ## Random texts -/

/-- What the random generator returns for `n` bytes. -/
abbrev RandomBytes (n : Nat) := {raw : Bytes // raw.length = n}

variable {n : Nat}

/-- `secrets.token_urlsafe(n)` -/
def tokenUrlsafe (raw : RandomBytes n) : Str := base64url.encode raw.val

/-- The lower-case digit of a four-bit number. -/
def hexSymbol (i : Fin 16) : CodePoint :=
  if i.val < 10 then ⟨48 + i.val, by omega⟩ else ⟨97 + (i.val - 10), by omega⟩

/-- `secrets.token_hex(n)` -/
def tokenHex (raw : RandomBytes n) : Str := (Base16.nibbles raw.val).map hexSymbol

theorem tokenUrlsafe_injective : Function.Injective (tokenUrlsafe (n := n)) :=
  fun _ _ h => Subtype.ext (base64url.encode_injective h)

theorem hexSymbol_injective : Function.Injective hexSymbol := by
  intro i j
  revert i j
  decide

theorem tokenHex_injective : Function.Injective (tokenHex (n := n)) :=
  fun _ _ h => Subtype.ext (Base16.nibbles_injective (List.map_injective_iff.mpr hexSymbol_injective h))

/-! ## The token grammar -/

theorem isTokenChar_of_isAlnum {c : CodePoint} (h : isAlnum c = true) : isTokenChar c = true := by
  rw [isTokenChar, h, Bool.true_or]

theorem isTokenChar_urlSymbol (i : Fin 64) : isTokenChar (urlSymbol i) = true := by
  revert i
  decide

/-- The symbols `-` and `_` are those of 62 and 63. -/
theorem isAlnum_urlSymbol {i : Fin 64} (h : i.val % 4 = 0) : isAlnum (urlSymbol i) = true := by
  revert i
  decide

theorem isAlnum_hexSymbol (i : Fin 16) : isAlnum (hexSymbol i) = true := by
  revert i
  decide

/-- A letter, a `_` and a text of token characters that ends in a letter or a digit. -/
theorem tokenRe_prefixed {c : CodePoint} {s : Str} (hc : isAlnum c = true) (hne : s ≠ []) (hlen : s.length ≤ 510)
    (hs : ∀ d ∈ s, isTokenChar d = true) (hlast : ∀ d ∈ s.getLast?, isAlnum d = true) :
    tokenRe (c :: codePoint '_' :: s) = true := by
  apply tokenRe_cons hc
  · rw [List.length_cons]
    omega
  · exact List.forall_mem_cons.mpr ⟨by decide, hs⟩
  · obtain ⟨d, s, rfl⟩ := List.exists_cons_of_ne_nil hne
    rw [List.getLast?_cons_cons]
    exact hlast

/-- **The last symbol of base 64 is a letter or a digit** unless the bytes fill the last group of three. -/
theorem tokenRe_urlsafe (raw : RandomBytes n) (hrest : n % 3 ≠ 0) (hle : n ≤ 382) :
    tokenRe (str "p_" ++ tokenUrlsafe raw) = true := by
  obtain ⟨bs, rfl⟩ := raw
  have hlen : (base64url.encode bs).length = (bs.length * 4 + 2) / 3 := base64url.length_encode bs
  show tokenRe (codePoint 'p' :: codePoint '_' :: base64url.encode bs) = true
  apply tokenRe_prefixed (by decide)
  · apply List.ne_nil_of_length_pos
    omega
  · omega
  · intro d hd
    obtain ⟨i, -, rfl⟩ := List.mem_map.mp hd
    exact isTokenChar_urlSymbol i
  · intro d hd
    have hlast : ((Base64.sextets bs).map urlSymbol).getLast? = some d := hd
    rw [List.getLast?_map] at hlast
    obtain ⟨i, hi, rfl⟩ := Option.map_eq_some_iff.mp hlast
    exact isAlnum_urlSymbol (Base64.getLast?_sextets_mod hrest i hi)

-- 24 bytes fill their groups, and base 64 of them can end in `_`
example : tokenRe (str "n_" ++ tokenUrlsafe (⟨List.replicate 24 255, rfl⟩ : RandomBytes 24)) = false := by decide

theorem tokenRe_hex (raw : RandomBytes n) (hpos : 0 < n) (hle : n ≤ 255) :
    tokenRe (str "n_" ++ tokenHex raw) = true := by
  have hlen : (tokenHex raw).length = 2 * n := by
    rw [tokenHex, List.length_map, Base16.length_nibbles, raw.2]
  have hdigits : ∀ d ∈ tokenHex raw, isAlnum d = true := by
    intro d hd
    obtain ⟨i, -, rfl⟩ := List.mem_map.mp hd
    exact isAlnum_hexSymbol i
  show tokenRe (codePoint 'n' :: codePoint '_' :: tokenHex raw) = true
  apply tokenRe_prefixed (by decide)
  · apply List.ne_nil_of_length_pos
    omega
  · omega
  · intro d hd
    exact isTokenChar_of_isAlnum (hdigits d hd)
  · intro d hd
    exact hdigits d (List.mem_of_getLast? hd)

/-! ## Payload tokens -/

/-- The token of `register`. -/
def payloadToken (raw : RandomBytes 32) : Token :=
  ⟨str "p_" ++ tokenUrlsafe raw, tokenRe_urlsafe raw (by decide) (by decide)⟩

theorem payloadToken_injective : Function.Injective payloadToken := by
  intro raw raw' h
  apply tokenUrlsafe_injective
  exact List.append_cancel_left (congrArg Subtype.val h)

/-- What `register` does with a token that is accepted. -/
def registerDeclared (heap : SourceId → PayloadSource) (source : SourceId) (token : Token)
    (expectedLength expectedDigest : Json) : Py PayloadReference := do
  let expectedLength ← unlessNone expectedLength (nonNegativeInt · "expected payload length")
  let expectedDigest ← unlessNone expectedDigest (digest · "expected payload digest")
  return ⟨token, expectedLength, expectedDigest, (heap source).replayable, payloadReferenceFormatVersion, rfl⟩

/-- Registering fails on the declared length or the declared digest only. -/
theorem registerReference_generated (heap : SourceId → PayloadSource) (source : SourceId) (raw : RandomBytes 32)
    (expectedLength expectedDigest : Json) :
    registerReference heap source (tokenUrlsafe raw) expectedLength expectedDigest =
      registerDeclared heap source (payloadToken raw) expectedLength expectedDigest := by
  have htoken : token (.str (str "p_" ++ tokenUrlsafe raw)) "payload token" = .ok (payloadToken raw) :=
    token_eq_ok.mpr rfl
  rw [registerReference, PayloadReference.new, htoken]
  rfl

theorem registerDeclared_eq_ok {heap : SourceId → PayloadSource} {source : SourceId} {token : Token}
    {expectedLength expectedDigest : Json} {r : PayloadReference} :
    registerDeclared heap source token expectedLength expectedDigest = .ok r ↔
      expectedLength = ByteRange.wireNat r.expectedLength ∧ expectedDigest = wireDigest r.expectedDigest ∧
        r.token = token ∧ r.replayable = (heap source).replayable := by
  obtain ⟨token', length, declared, replayable, version, rfl⟩ := r
  simp only [registerDeclared, bind_eq_ok, ByteRange.unlessNone_nonNegativeInt, unlessNone_digest, pure_eq_ok]
  constructor
  · rintro ⟨_, hl, _, hd, h⟩
    cases h
    exact ⟨hl, hd, rfl, rfl⟩
  · rintro ⟨hl, hd, rfl, rfl⟩
    exact ⟨length, hl, declared, hd, rfl⟩

/-! ## Nonces -/

/-- The nonce of `sign_object_reference`, where the caller gives none. -/
def generatedNonce (raw : RandomBytes 24) : Token :=
  ⟨str "n_" ++ tokenHex raw, tokenRe_hex raw (by decide) (by decide)⟩

theorem generatedNonce_injective : Function.Injective generatedNonce := by
  intro raw raw' h
  apply tokenHex_injective
  exact List.append_cancel_left (congrArg Subtype.val h)

variable {P : Packages}

def SignedObjectReference.withNonce (nonce : Token) (x : SignedObjectReference P) : SignedObjectReference P :=
  { x with nonce := nonce }

/-- One token is as good a nonce as another. -/
theorem SignedObjectReference.new_nonce (r : P.ObjectReference) (ops : List Json) (t : TimeValue) (a k g s v : Json)
    (nonce nonce' : Token) :
    new r ops t a (.str nonce'.val) k g s v = withNonce nonce' <$> new r ops t a (.str nonce.val) k g s v := by
  have hnonce : token (.str nonce.val) "reference nonce" = .ok nonce := token_eq_ok.mpr rfl
  have hnonce' : token (.str nonce'.val) "reference nonce" = .ok nonce' := token_eq_ok.mpr rfl
  simp only [new, hnonce, hnonce', map_bind, ok_bind, map_pure]
  rfl

/-- Without a nonce of the caller, signing starts as it does with one. -/
theorem unsignedReference_generated (objectRef : ReferenceValue P) (ops : List Str) (t : TimeValue) (a : Str)
    (signer : ReferenceSigner) {nonce : Option Str} (hnonce : nonce.getD [] = []) (chosen : Token)
    (raw : RandomBytes 24) (generated : Str) :
    unsignedReference objectRef ops t a signer nonce (tokenHex raw) =
      SignedObjectReference.withNonce (generatedNonce raw) <$>
        unsignedReference objectRef ops t a signer (some chosen.val) generated := by
  have hchosen : chosen.val ≠ [] := (tokenRe_spec chosen.2).1
  unfold unsignedReference
  rw [if_pos hnonce, Option.getD_some, if_neg hchosen, map_bind]
  apply bind_congr
  intro reference
  exact SignedObjectReference.new_nonce reference _ t _ _ _ _ _ chosen (generatedNonce raw)

/-! ## Both handles -/

/-- **Generated handles are accepted**, whatever the random generator returns: the token of `register`, which then
fails on its declared inputs only and whose reference is read back, and the nonce of `sign_object_reference`, which is
as good as any that the caller could give. Distinct bytes give distinct handles. -/
theorem generatedHandles_accepted :
    (∀ (raw : RandomBytes 32) (field : String),
      token (.str (str "p_" ++ tokenUrlsafe raw)) field = .ok (payloadToken raw)) ∧
    (∀ (raw : RandomBytes 32) heap source expectedLength expectedDigest,
      registerReference heap source (tokenUrlsafe raw) expectedLength expectedDigest =
        registerDeclared heap source (payloadToken raw) expectedLength expectedDigest) ∧
    (∀ (raw : RandomBytes 32) heap source (l : Option Nat) (d : Option Digest), ∃ r,
      registerReference heap source (tokenUrlsafe raw) (ByteRange.wireNat l) (wireDigest d) = .ok r) ∧
    (∀ (raw : RandomBytes 32) heap source expectedLength expectedDigest r,
      registerReference heap source (tokenUrlsafe raw) expectedLength expectedDigest = .ok r →
        r.token = payloadToken raw ∧ PayloadReference.fromMapping r.toDict = .ok r) ∧
    (∀ raw raw' : RandomBytes 32, raw ≠ raw' → str "p_" ++ tokenUrlsafe raw ≠ str "p_" ++ tokenUrlsafe raw') ∧
    (∀ (raw : RandomBytes 24) (field : String),
      token (.str (str "n_" ++ tokenHex raw)) field = .ok (generatedNonce raw)) ∧
    (∀ raw raw' : RandomBytes 24, raw ≠ raw' → str "n_" ++ tokenHex raw ≠ str "n_" ++ tokenHex raw') ∧
    (∀ (raw : RandomBytes 24) (P : Packages) (r : P.ObjectReference) ops t a k g s v (nonce : Token),
      SignedObjectReference.new r ops t a (.str (str "n_" ++ tokenHex raw)) k g s v =
        SignedObjectReference.withNonce (generatedNonce raw) <$>
          SignedObjectReference.new r ops t a (.str nonce.val) k g s v) ∧
    ∀ (raw : RandomBytes 24) (P : Packages) (objectRef : ReferenceValue P) ops t a signer (nonce : Option Str)
      (chosen : Token) generated, nonce.getD [] = [] →
      unsignedReference objectRef ops t a signer nonce (tokenHex raw) =
        SignedObjectReference.withNonce (generatedNonce raw) <$>
          unsignedReference objectRef ops t a signer (some chosen.val) generated := by
  refine ⟨fun raw field => token_eq_ok.mpr rfl, fun raw heap source => registerReference_generated heap source raw,
    fun raw heap source l d => ?_, fun raw heap source l d r h => ?_, fun raw raw' hne h => ?_,
    fun raw field => token_eq_ok.mpr rfl, fun raw raw' hne h => ?_, fun raw P r ops t a k g s v nonce => ?_,
    fun raw P objectRef ops t a signer nonce chosen generated hnonce => ?_⟩
  · rw [registerReference_generated]
    exact ⟨⟨payloadToken raw, l, d, (heap source).replayable, payloadReferenceFormatVersion, rfl⟩,
      registerDeclared_eq_ok.mpr ⟨rfl, rfl, rfl, rfl⟩⟩
  · rw [registerReference_generated] at h
    exact ⟨(registerDeclared_eq_ok.mp h).2.2.1, PayloadReference.fromMapping_toDict r⟩
  · exact hne (payloadToken_injective (Subtype.ext h))
  · exact hne (generatedNonce_injective (Subtype.ext h))
  · exact SignedObjectReference.new_nonce r ops t a k g s v nonce (generatedNonce raw)
  · exact unsignedReference_generated objectRef ops t a signer hnonce chosen raw generated

end ObjectCommon
