import ObjectCommon.Library.Base64
import ObjectCommon.Validation.Scalars

/-!
# Signature text

* `base64url` : the symbols of URL-safe base 64;
* `decodeSignature`, `encodeSignature` : signature text without padding
  (`decodeSignature_encodeSignature`);
* `signatureString_encodeSignature` : a signature of 1 to 1536 bytes has a text that fits.
-/

namespace ObjectCommon

open Outcome PyError

/-- The symbol of a six-bit number. -/
def urlSymbol (i : Fin 64) : CodePoint :=
  if i.val < 26 then ⟨65 + i.val, by omega⟩
  else if i.val < 52 then ⟨97 + (i.val - 26), by omega⟩
  else if i.val < 62 then ⟨48 + (i.val - 52), by omega⟩
  else if i.val = 62 then codePoint '-'
  else codePoint '_'

/-- The six-bit number of a symbol, for a character of `[A-Za-z0-9_-]`. -/
def urlIndex (c : CodePoint) : Option (Fin 64) :=
  if h : 65 ≤ c.val ∧ c.val ≤ 90 then some ⟨c.val - 65, by omega⟩
  else if h : 97 ≤ c.val ∧ c.val ≤ 122 then some ⟨c.val - 97 + 26, by omega⟩
  else if h : 48 ≤ c.val ∧ c.val ≤ 57 then some ⟨c.val - 48 + 52, by omega⟩
  else if c = codePoint '-' then some 62
  else if c = codePoint '_' then some 63
  else none

theorem urlIndex_urlSymbol (i : Fin 64) : urlIndex (urlSymbol i) = some i := by
  revert i
  decide

def base64url : Base64.Alphabet CodePoint := ⟨urlSymbol, urlIndex, urlIndex_urlSymbol⟩

/-- The pattern `[A-Za-z0-9_-]+`, then `b64decode` of the text padded with `=`. -/
def decodeSignature (value : Str) : Py Bytes :=
  if value = [] ∨ base64url.indices? value = none then .error (valueError "signature must be base64url")
  else
    match base64url.decode? value with
    | none => .error (valueError "signature must be base64url")
    | some raw => do
      raiseIf (raw = []) (valueError "signature must not be empty")
      return raw

def encodeSignature (value : Bytes) : Py Str := do
  raiseIf (value = []) (valueError "reference signer returned an empty signature")
  return base64url.encode value

theorem decodeSignature_eq_ok {value : Str} {raw : Bytes} :
    decodeSignature value = .ok raw ↔ base64url.decode? value = some raw ∧ raw ≠ [] := by
  unfold decodeSignature
  split
  · next h =>
    simp only [reduceCtorEq, false_iff, not_and, not_not]
    intro hd
    rcases h with rfl | h
    · cases hd
      rfl
    · rw [Base64.Alphabet.decode?, h] at hd
      cases hd
  · cases h : base64url.decode? value with
    | none => simp
    | some raw' =>
      simp only [bind_eq_ok, exists_unit, raiseIf_eq_ok, pure_eq_ok, Option.some.injEq]
      constructor
      · rintro ⟨h, rfl⟩
        exact ⟨rfl, h⟩
      · rintro ⟨rfl, h⟩
        exact ⟨h, rfl⟩

theorem decodeSignature_raises (value : Str) : RaisesValueErrors (decodeSignature value) := by
  unfold decodeSignature
  split
  · exact RaisesOnly.error rfl
  · split
    · exact RaisesOnly.error rfl
    · exact (raiseIf_raises _ _).bind fun _ _ => RaisesOnly.pure _

theorem encodeSignature_eq_ok {value : Bytes} {s : Str} :
    encodeSignature value = .ok s ↔ value ≠ [] ∧ base64url.encode value = s := by
  simp only [encodeSignature, bind_eq_ok, exists_unit, raiseIf_eq_ok, pure_eq_ok]

/-- A signature is read back from its text. -/
theorem decodeSignature_encodeSignature {value : Bytes} {s : Str} (h : encodeSignature value = .ok s) :
    decodeSignature s = .ok value := by
  obtain ⟨hne, rfl⟩ := encodeSignature_eq_ok.mp h
  exact decodeSignature_eq_ok.mpr ⟨base64url.decode?_encode value, hne⟩

/-- Bounded text that decodes. -/
def IsSignature (s : Str) : Prop := s.length ≤ 2048 ∧ ∃ raw, decodeSignature s = .ok raw

abbrev Signature := {s : Str // IsSignature s}

def signatureString (value : Json) : Py Signature :=
  match value with
  | .str s =>
    if h : s = [] ∨ 2048 < s.length then .error (valueError "signature must be bounded base64url")
    else do
      let ⟨raw, hraw⟩ ← attach (decodeSignature s)
      return ⟨s, by omega, raw, hraw⟩
  | _ => .error (valueError "signature must be bounded base64url")

/-- Text that decodes has symbols only, at least two of them, and no single one left over. -/
theorem exists_decodeSignature_iff {s : Str} : (∃ raw, decodeSignature s = .ok raw) ↔
    s ≠ [] ∧ (∀ c ∈ s, (urlIndex c).isSome = true) ∧ s.length % 4 ≠ 1 := by
  have hdecode : (∃ raw, base64url.decode? s = some raw) ↔ (∀ c ∈ s, (urlIndex c).isSome = true) ∧ s.length % 4 ≠ 1 :=
    base64url.exists_decode?_iff
  simp only [decodeSignature_eq_ok]
  rw [← hdecode]
  constructor
  · rintro ⟨raw, h, hne⟩
    refine ⟨?_, raw, h⟩
    rintro rfl
    cases h
    exact hne rfl
  · rintro ⟨hne, raw, h⟩
    refine ⟨raw, h, ?_⟩
    rintro rfl
    have hlen := base64url.length_decode? h
    have hpos := List.length_pos_iff.mpr hne
    rw [List.length_nil] at hlen
    omega

theorem IsSignature.ne_nil {s : Str} (h : IsSignature s) : s ≠ [] := by
  rintro rfl
  obtain ⟨-, raw, hraw⟩ := h
  cases hraw

theorem signatureString_eq_ok {value : Json} {s : Signature} :
    signatureString value = .ok s ↔ value = .str s.val := by
  obtain ⟨s, hs⟩ := s
  cases value with
  | str s' =>
    unfold signatureString
    dsimp only
    constructor
    · intro h
      split at h
      · cases h
      · obtain ⟨raw, -, h⟩ := bind_eq_ok.mp h
        cases h
        rfl
    · intro h
      cases h
      obtain ⟨hl, raw, hraw⟩ := id hs
      rw [dif_neg (by simp [hs.ne_nil, hl]), bind_eq_ok]
      exact ⟨⟨raw, hraw⟩, attach_eq_ok.mpr hraw, rfl⟩
  | _ => simp [signatureString]

theorem signatureString_raises (value : Json) : RaisesValueErrors (signatureString value) := by
  unfold signatureString
  split
  · split
    · exact RaisesOnly.error rfl
    · exact (decodeSignature_raises _).attach.bind fun _ _ => RaisesOnly.pure _
  · exact RaisesOnly.error rfl

/-- **The text of a signature of 1 to 1536 bytes is a signature string.** -/
theorem isSignature_encode {value : Bytes} (h1 : 1 ≤ value.length) (h2 : value.length ≤ 1536) :
    IsSignature (base64url.encode value) := by
  have hne : value ≠ [] := List.ne_nil_of_length_pos h1
  refine ⟨?_, value, decodeSignature_eq_ok.mpr ⟨base64url.decode?_encode value, hne⟩⟩
  rw [base64url.length_encode]
  omega

end ObjectCommon
