import ObjectCommon.Codec.Signature
import ObjectCommon.Metadata
import ObjectCommon.Payloads.Reference

/-!
# Signed logical Object references

* `SignedObjectReference` : a reference to one exact Object, the operations it permits, its expiry,
  its audience and a signature over these claims;
* `SignedObjectReference.fromMapping_eq_ok` : the documents it is read from;
* `SignedObjectReference.verify_eq_ok` : what a verified reference has passed;
* `signObjectReference_eq_ok` : what signing does;
* `parseLogicalReference` : a document is read as signed exactly when it has the format version of
  a signed reference.
-/

namespace ObjectCommon

open Outcome PyError

def signedReferenceFormatVersion : Str := "meridian.object.signed-reference.v1"

def signedReferenceOperations : List Str := ["get", "read_range", "stat"]

/-- The `ReferenceSigner` contract. -/
structure ReferenceSigner where
  keyId : Str
  algorithm : Str
  sign : Bytes → Py Bytes
  verify : Bytes → Bytes → Py Bool

/-! ## Operations -/

/-- A non-empty sorted list of distinct signed-reference operations. -/
structure ValidOperations (l : List Str) : Prop where
  ne_nil : l ≠ []
  nodup : l.Nodup
  sorted : l.Pairwise (· ≤ ·)
  subset : ∀ o ∈ l, o ∈ signedReferenceOperations

theorem isBounded_of_operation {o : Str} (h : o ∈ signedReferenceOperations) : IsBounded 128 o := by
  simp only [signedReferenceOperations, List.mem_cons, List.not_mem_nil, or_false] at h
  rcases h with rfl | rfl | rfl
  · exact ⟨by decide, ⟨3, by decide, by decide⟩, by decide⟩
  · exact ⟨by decide, ⟨10, by decide, by decide⟩, by decide⟩
  · exact ⟨by decide, ⟨4, by decide, by decide⟩, by decide⟩

theorem validOperations_of {value : Json} {field : String} {l : List Str}
    (h : stringSequence value field = .ok l)
    (hs : l ≠ [] ∧ ∀ o ∈ l, o ∈ signedReferenceOperations) : ValidOperations l := by
  obtain ⟨l', -, -, hn, rfl⟩ := stringSequence_eq_ok.mp h
  exact ⟨hs.1, (sorted_perm l').nodup_iff.mpr hn, sorted_pairwise l', hs.2⟩

/-- The operations of a signed reference, sorted. -/
def signedOperations (allowedOperations : List Json) : Py {l : List Str // ValidOperations l} := do
  let ⟨operations, h⟩ ← attach (stringSequence (.arr allowedOperations) "signed reference operations")
  if hs : operations ≠ [] ∧ ∀ o ∈ operations, o ∈ signedReferenceOperations then
    .ok ⟨operations, validOperations_of h hs⟩
  else .error (valueError "signed Object references permit only get, read_range, and stat")

/-- The operations may be given in any order. -/
theorem signedOperations_eq_ok {allowedOperations : List Json} {r : {l : List Str // ValidOperations l}} :
    signedOperations allowedOperations = .ok r ↔
      ∃ l : List Str, allowedOperations = l.map .str ∧ l.Perm r.val := by
  obtain ⟨r, hv⟩ := r
  rw [signedOperations, bind_eq_ok]
  constructor
  · rintro ⟨⟨operations, h⟩, -, h'⟩
    obtain ⟨l, hl, -, -, rfl⟩ := stringSequence_eq_ok.mp h
    dsimp only at h'
    split at h'
    · cases h'
      exact ⟨l, by simpa using hl, (sorted_perm l).symm⟩
    · cases h'
  · rintro ⟨l, rfl, hperm⟩
    have hsort : sorted l = r := by rw [sorted_eq_of_perm hperm, sorted_eq_self hv.sorted]
    have hspec : stringSequence (.arr (l.map .str)) "signed reference operations" = .ok r :=
      stringSequence_eq_ok.mpr ⟨l, rfl, fun s hs =>
        isBounded_of_operation (hv.subset s (hperm.mem_iff.mp hs)), hperm.nodup_iff.mpr hv.nodup, hsort.symm⟩
    exact ⟨⟨r, hspec⟩, attach_eq_ok.mpr hspec, dif_pos ⟨hv.ne_nil, hv.subset⟩⟩

theorem signedOperations_raises (allowedOperations : List Json) :
    RaisesValueErrors (signedOperations allowedOperations) := by
  refine (stringSequence_raises _ _).attach.bind fun _ _ => ?_
  dsimp only
  split
  · exact RaisesOnly.ok _
  · exact RaisesOnly.error rfl

/-! ## The signed reference -/

variable (P : Packages)

structure SignedObjectReference where
  objectRef : P.ObjectReference
  allowedOperations : List Str
  expiresAt : Str
  audience : BoundedString 256
  nonce : Token
  keyId : Token
  algorithm : Token
  signature : Signature
  formatVersion : {v : Str // v = signedReferenceFormatVersion}
  exact : P.digest objectRef ≠ none
  operations_valid : ValidOperations allowedOperations

variable {P}

theorem digest_ne_none {value : ReferenceValue P} {r : P.ObjectReference}
    (h : parseObjectReference P value true = .ok r) : P.digest r ≠ none :=
  (parseObjectReference_eq_ok.mp h).2 rfl

namespace SignedObjectReference

/-- `SignedObjectReference(object_ref, allowed_operations, expires_at, ...)` -/
def new (objectRef : P.ObjectReference) (allowedOperations : List Json) (expiresAt : TimeValue)
    (audience nonce keyId algorithm signature : Json)
    (formatVersion : Json := .str signedReferenceFormatVersion) : Py (SignedObjectReference P) := do
  let ⟨reference, hr⟩ ← attach (parseObjectReference P (.reference objectRef) true)
  let operations ← signedOperations allowedOperations
  let expiresAt ← utcTimestamp expiresAt "reference expiry"
  let audience ← boundedString audience "reference audience" 256
  let nonce ← token nonce "reference nonce"
  let keyId ← token keyId "signing key id"
  let algorithm ← token algorithm "signing algorithm"
  let signature ← signatureString signature
  let formatVersion ← ObjectCommon.formatVersion formatVersion signedReferenceFormatVersion
  return ⟨reference, operations, expiresAt, audience, nonce, keyId, algorithm, signature,
    formatVersion, digest_ne_none hr, operations.2⟩

/-- The claims over a given Object reference document and operations. -/
def claimsOver (s : SignedObjectReference P) (objectRef : Object) (operations : List Str) : Object :=
  [("formatVersion", .str s.formatVersion.val), ("objectRef", .obj objectRef),
    ("allowedOperations", .arr (operations.map .str)), ("expiresAt", .str s.expiresAt),
    ("audience", .str s.audience.val), ("nonce", .str s.nonce.val), ("keyId", .str s.keyId.val),
    ("algorithm", .str s.algorithm.val)]

def claims (s : SignedObjectReference P) : Object :=
  s.claimsOver (P.referenceToDict s.objectRef) s.allowedOperations

/-- The claims over a given Object reference document and operations, with the signature. -/
def documentOver (s : SignedObjectReference P) (objectRef : Object) (operations : List Str) : Object :=
  s.claimsOver objectRef operations ++ [(str "signature", Json.str s.signature.val)]

def toDict (s : SignedObjectReference P) : Object :=
  s.documentOver (P.referenceToDict s.objectRef) s.allowedOperations

/-- The fields of a signed reference. -/
def fields : List String :=
  ["formatVersion", "objectRef", "allowedOperations", "expiresAt", "audience", "nonce", "keyId",
    "algorithm", "signature"]

variable (P) in
def fromMapping (value : Object) : Py (SignedObjectReference P) := do
  exactFields value fields
  let rawRef ← getItem value "objectRef"
  let rawOperations ← getItem value "allowedOperations"
  let rawRef ← asMapping rawRef (typeError "signed Object objectRef must be an object")
  let rawOperations ← asSequence rawOperations (typeError "signed Object allowedOperations must be an array")
  let objectRef ← parseObjectReference P (.document rawRef) true
  let expiresAt ← getItem value "expiresAt"
  let audience ← getItem value "audience"
  let nonce ← getItem value "nonce"
  let keyId ← getItem value "keyId"
  let algorithm ← getItem value "algorithm"
  let signature ← getItem value "signature"
  let formatVersion ← getItem value "formatVersion"
  new objectRef rawOperations (.json expiresAt) audience nonce keyId algorithm signature formatVersion

/-! ### Construction -/

theorem new_eq_ok {r : P.ObjectReference} {ops : List Json} {t : TimeValue} {a n k g s v : Json}
    {x : SignedObjectReference P} :
    new r ops t a n k g s v = .ok x ↔
      readObjectReference P (.reference r) = .ok x.objectRef ∧
      (∃ l : List Str, ops = l.map .str ∧ l.Perm x.allowedOperations) ∧
      utcTimestamp t "reference expiry" = .ok x.expiresAt ∧ a = .str x.audience.val ∧
      n = .str x.nonce.val ∧ k = .str x.keyId.val ∧ g = .str x.algorithm.val ∧
      s = .str x.signature.val ∧ v = .str x.formatVersion.val := by
  obtain ⟨r', ops', t', a', n', k', g', s', v', hd, ho⟩ := x
  have hops : (∃ l : List Str, ops = l.map .str ∧ l.Perm ops') ↔
      signedOperations ops = .ok ⟨ops', ho⟩ := (signedOperations_eq_ok (r := ⟨ops', ho⟩)).symm
  simp only [new, hops, bind_eq_ok, attach_eq_ok, parseObjectReference_eq_ok, boundedString_eq_ok,
    token_eq_ok, signatureString_eq_ok, formatVersion_eq_ok, pure_eq_ok]
  constructor
  · rintro ⟨⟨_, hr⟩, ⟨hr', -⟩, _, ho', _, ht, _, ha, _, hn, _, hk, _, hg, _, hs, _, hv, h⟩
    cases h
    exact ⟨hr', ho', ht, ha, hn, hk, hg, hs, hv⟩
  · rintro ⟨hr, ho', ht, ha, hn, hk, hg, hs, hv⟩
    exact ⟨⟨r', parseObjectReference_eq_ok.mpr ⟨hr, fun _ => hd⟩⟩, ⟨hr, fun _ => hd⟩, ⟨ops', ho⟩, ho',
      t', ht, a', ha, n', hn, k', hk, g', hg, s', hs, v', hv, rfl⟩

theorem new_json_raises {E : PyError → Prop} (hP : P.RaisesOfReferences E) (hE : ∀ e, IsTypeOrValueError e → E e)
    (r : P.ObjectReference) (ops : List Json) (t a n k g s v : Json) :
    RaisesOnly E (new r ops (.json t) a n k g s v) :=
  (parseObjectReference_raises hP hE _ _).attach.bind fun _ _ =>
    ((signedOperations_raises ops).mono hE).bind fun _ _ =>
    ((utcTimestamp_json_raises t _).mono hE).bind fun _ _ =>
    ((boundedString_raises a _ _).mono hE).bind fun _ _ =>
    ((token_raises n _).mono hE).bind fun _ _ =>
    ((token_raises k _).mono hE).bind fun _ _ =>
    ((token_raises g _).mono hE).bind fun _ _ =>
    ((signatureString_raises s).mono hE).bind fun _ _ =>
    ((formatVersion_raises v _).mono hE).bind fun _ _ => RaisesOnly.pure _

/-! ### Documents -/

theorem keys_documentOver (x : SignedObjectReference P) (raw : Object) (ops : List Str) :
    Dict.keys (x.documentOver raw ops) = fields.map str := rfl

/-- The documents a signed reference is read from, by what Semantics makes of the Object reference. -/
theorem fromMapping_iff {value : Object} {x : SignedObjectReference P} :
    fromMapping P value = .ok x ↔
      ∃ raw ops r, Dict.Same value (x.documentOver raw ops) ∧ readObjectReference P (.document raw) = .ok r ∧
        P.digest r ≠ none ∧ readObjectReference P (.reference r) = .ok x.objectRef ∧ ops.Perm x.allowedOperations ∧
        IsTimestamp x.expiresAt := by
  simp only [fromMapping, bind_eq_ok, exists_unit, getItem_eq_ok, asMapping_eq_ok, asSequence_eq_ok,
    new_eq_ok, utcTimestamp_json_eq_ok, parseObjectReference_eq_ok]
  constructor
  · rintro ⟨hf, _, hr, _, ho, raw, rfl, _, rfl, r, ⟨hread, hd⟩, _, ht, _, ha, _, hn, _, hk, _, hg, _, hs, _, hv,
      hself, ⟨l, rfl, hl⟩, ⟨rfl, hts⟩, rfl, rfl, rfl, rfl, rfl, rfl⟩
    refine ⟨raw, l, r, (exactFields_and_get?_iff fields (keys_documentOver x raw l)).mp ⟨hf, ?_⟩, hread, hd trivial, hself,
      hl, hts⟩
    simp [fields, documentOver, claimsOver, hr, ho, ht, ha, hn, hk, hg, hs, hv]
  · rintro ⟨raw, l, r, hsame, hread, hd, hself, hl, hts⟩
    obtain ⟨hf, hget⟩ := (exactFields_and_get?_iff (u := ()) fields (keys_documentOver x raw l)).mpr hsame
    simp [fields, documentOver, claimsOver] at hget
    obtain ⟨hv, hr, ho, ht, ha, hn, hk, hg, hs⟩ := hget
    exact ⟨hf, _, hr, _, ho, raw, rfl, _, rfl, r, ⟨hread, fun _ => hd⟩, _, ht, _, ha, _, hn, _, hk, _, hg,
      _, hs, _, hv, hself, ⟨l, rfl, hl⟩, ⟨rfl, hts⟩, rfl, rfl, rfl, rfl, rfl, rfl⟩

/-- **The documents a signed reference is read from**: what it writes, up to the order of the fields
and of the operations, with any document of its Object reference. -/
theorem fromMapping_eq_ok (hP : P.RoundTrips) {value : Object} {x : SignedObjectReference P} :
    fromMapping P value = .ok x ↔
      ∃ raw ops, Dict.Same value (x.documentOver raw ops) ∧
        readObjectReference P (.document raw) = .ok x.objectRef ∧ ops.Perm x.allowedOperations ∧
        IsTimestamp x.expiresAt := by
  rw [fromMapping_iff]
  constructor
  · rintro ⟨raw, ops, r, hsame, hread, -, hself, hl, hts⟩
    rw [readObjectReference_reference hP] at hself
    obtain rfl := Except.ok.inj hself
    exact ⟨raw, ops, hsame, hread, hl, hts⟩
  · rintro ⟨raw, ops, hsame, hread, hl, hts⟩
    exact ⟨raw, ops, _, hsame, hread, x.exact, readObjectReference_reference hP _, hl, hts⟩

/-- A signed reference is read back from what it writes. -/
theorem fromMapping_toDict (hP : P.RoundTrips) {x : SignedObjectReference P} (h : IsTimestamp x.expiresAt) :
    fromMapping P x.toDict = .ok x :=
  (fromMapping_eq_ok hP).mpr ⟨_, _, Dict.Same.refl _, readObjectReference_toDict hP _, .refl _, h⟩

theorem fromMapping_raises {E : PyError → Prop} (hP : P.RaisesOfReferences E)
    (hE : ∀ e, IsTypeOrValueError e → E e) (value : Object) : RaisesOnly E (fromMapping P value) :=
  ((exactFields_raises _ _ _).mono hE).bind fun _ hf =>
    (getItem_raises hf (by simp [fields])).bind fun _ _ =>
    (getItem_raises hf (by simp [fields])).bind fun _ _ =>
    ((asMapping_raises _ _).mono hE).bind fun _ _ =>
    ((asSequence_raises _ _).mono hE).bind fun _ _ =>
    (parseObjectReference_raises hP hE _ _).bind fun _ _ =>
    (getItem_raises hf (by simp [fields])).bind fun _ _ =>
    (getItem_raises hf (by simp [fields])).bind fun _ _ =>
    (getItem_raises hf (by simp [fields])).bind fun _ _ =>
    (getItem_raises hf (by simp [fields])).bind fun _ _ =>
    (getItem_raises hf (by simp [fields])).bind fun _ _ =>
    (getItem_raises hf (by simp [fields])).bind fun _ _ =>
    (getItem_raises hf (by simp [fields])).bind fun _ _ => new_json_raises hP hE _ _ _ _ _ _ _ _ _

theorem claimsOver_wellFormed (x : SignedObjectReference P) {raw : Object}
    (h : Json.WellFormed (.obj raw)) (ops : List Str) : Json.WellFormed (.obj (x.claimsOver raw ops)) := by
  have hops : Json.WellFormed (.arr (ops.map .str)) := .arr (by simp [Json.WellFormed.str])
  exact .obj (by simp [claimsOver]) (by simp [claimsOver, h, hops, Json.WellFormed.str])

theorem claims_wellFormed (x : SignedObjectReference P) : Json.WellFormed (.obj x.claims) :=
  x.claimsOver_wellFormed (P.referenceToDict_wellFormed _) _

/-- The claims can be serialized. -/
theorem claims_textual (hP : P.SerializesText) {x : SignedObjectReference P} (h : IsTimestamp x.expiresAt) :
    Json.Textual (.obj x.claims) := by
  have hops : Json.Textual (.arr (x.allowedOperations.map .str)) := by
    refine .arr fun v hv => ?_
    obtain ⟨o, ho, rfl⟩ := List.mem_map.mp hv
    exact .str (isBounded_of_operation (x.operations_valid.subset o ho)).encodable
  have hversion : Encodable x.formatVersion.val := by
    rw [x.formatVersion.2]
    exact encodable_literal (by decide)
  refine .obj ?_ ?_
  · simp only [claims, claimsOver, List.forall_mem_cons, List.not_mem_nil, false_imp_iff, implies_true, and_true]
    refine ⟨?_, ?_, ?_, ?_, ?_, ?_, ?_, ?_⟩ <;> exact encodable_literal (by decide)
  · simp only [claims, claimsOver, List.forall_mem_cons, List.not_mem_nil, false_imp_iff, implies_true, and_true]
    exact ⟨.str hversion, hP.referenceToDict _, hops, .str h.encodable, .str x.audience.2.encodable,
      .str x.nonce.encodable, .str x.keyId.encodable, .str x.algorithm.encodable⟩

theorem toDict_wellFormed (x : SignedObjectReference P) : Json.WellFormed (.obj x.toDict) := by
  have h := P.referenceToDict_wellFormed x.objectRef
  have hops : Json.WellFormed (.arr (x.allowedOperations.map .str)) := .arr (by simp [Json.WellFormed.str])
  exact .obj (by simp [toDict, documentOver, claimsOver])
    (by simp [toDict, documentOver, claimsOver, h, hops, Json.WellFormed.str])

/-! ### Claims -/

/-- Two signed references that claim the same. -/
structure SameClaims (x y : SignedObjectReference P) : Prop where
  objectRef : x.objectRef = y.objectRef
  allowedOperations : x.allowedOperations = y.allowedOperations
  expiresAt : x.expiresAt = y.expiresAt
  audience : x.audience = y.audience
  nonce : x.nonce = y.nonce
  keyId : x.keyId = y.keyId
  algorithm : x.algorithm = y.algorithm
  formatVersion : x.formatVersion = y.formatVersion

theorem SameClaims.trans {x y z : SignedObjectReference P} (h : SameClaims x y) (h' : SameClaims y z) :
    SameClaims x z :=
  ⟨h.1.trans h'.1, h.2.trans h'.2, h.3.trans h'.3, h.4.trans h'.4, h.5.trans h'.5, h.6.trans h'.6,
    h.7.trans h'.7, h.8.trans h'.8⟩

theorem SameClaims.claims_eq {x y : SignedObjectReference P} (h : SameClaims x y) : x.claims = y.claims := by
  simp only [claims, claimsOver, h.objectRef, h.allowedOperations, h.expiresAt, h.audience, h.nonce, h.keyId,
    h.algorithm, h.formatVersion]

/-- **The claims determine every field but the signature.** -/
theorem sameClaims_of_canon (hP : P.WritesInjectively) {x y : SignedObjectReference P}
    (h : Json.canon (.obj x.claims) = Json.canon (.obj y.claims)) : SameClaims x y := by
  have hget := Json.get?_of_canon_eq x.claims_wellFormed.keys_nodup y.claims_wellFormed.keys_nodup h
  have hr := hget (str "objectRef")
  have ho := hget (str "allowedOperations")
  have ht := hget (str "expiresAt")
  have ha := hget (str "audience")
  have hn := hget (str "nonce")
  have hk := hget (str "keyId")
  have hg := hget (str "algorithm")
  have hv := hget (str "formatVersion")
  simp [claims, claimsOver, Json.canon] at hr ho ht ha hn hk hg hv
  refine ⟨hP.referenceToDict _ _ (by simpa [Json.canon] using hr), ?_, ht, Subtype.ext ha, Subtype.ext hn,
    Subtype.ext hk, Subtype.ext hg, Subtype.ext hv⟩
  exact List.map_injective_iff.mpr (fun _ _ h => Json.str.inj h) ho

/-! ### Verification -/

def verify (s : SignedObjectReference P) (signer : ReferenceSigner) (operation audience : Str)
    (now : DateTime) : Py P.ObjectReference := do
  raiseIf (signer.keyId ≠ s.keyId.val ∨ signer.algorithm ≠ s.algorithm.val)
    (ObjectAuthorizationFailed "signed Object reference key identity does not match")
  raiseIf (operation ∉ s.allowedOperations)
    (ObjectAuthorizationFailed "signed Object reference does not permit the operation")
  raiseIf (audience ≠ s.audience.val)
    (ObjectAuthorizationFailed "signed Object reference audience does not match")
  let offset ← now.awareOffset (valueError "reference verification time must be timezone-aware")
  let expiry ← DateTime.strptime s.expiresAt
  let selected ← now.toUtc offset
  raiseIf (expiry.sinceOrigin ≤ selected.sinceOrigin)
    (ObjectAuthorizationFailed "signed Object reference has expired")
  let signature ← decodeSignature s.signature.val
  let value ← P.canonicalJsonBytes (.obj s.claims)
  let valid ← signer.verify value signature
  raiseIf (valid = false) (ObjectAuthorizationFailed "signed Object reference signature is invalid")
  return s.objectRef

/-- The guards of `verify` up to the signature. -/
structure Authorized (s : SignedObjectReference P) (signer : ReferenceSigner) (operation audience : Str)
    (now : DateTime) : Prop where
  keyId : signer.keyId = s.keyId.val
  algorithm : signer.algorithm = s.algorithm.val
  operation : operation ∈ s.allowedOperations
  audience : audience = s.audience.val
  notExpired : ∃ offset expiry, now.utcoffset = some offset ∧ DateTime.strptime s.expiresAt = .ok expiry ∧
    DateTime.InRange (now.instant offset) ∧ now.instant offset < expiry.sinceOrigin

/-- **What a verified reference has passed**, and that its own Object reference is returned. -/
theorem verify_eq_ok {s : SignedObjectReference P} {signer : ReferenceSigner} {operation audience : Str}
    {now : DateTime} {r : P.ObjectReference} :
    s.verify signer operation audience now = .ok r ↔
      r = s.objectRef ∧ s.Authorized signer operation audience now ∧
        ∃ signature value, decodeSignature s.signature.val = .ok signature ∧
          P.canonicalJsonBytes (.obj s.claims) = .ok value ∧ signer.verify value signature = .ok true := by
  simp only [verify, bind_eq_ok, exists_unit, raiseIf_eq_ok, DateTime.awareOffset_eq_ok, pure_eq_ok, not_or,
    not_not, not_le, Bool.not_eq_false]
  constructor
  · rintro ⟨⟨hk, hg⟩, ho, ha, offset, hoff, expiry, he, selected, hsel, hlt, signature, hs, value, hv, _, hver,
      rfl, rfl⟩
    obtain ⟨-, hinst⟩ := DateTime.instant_toUtc hsel
    have hr := DateTime.toUtc_eq_ok_iff.mp ⟨selected, hsel⟩
    exact ⟨rfl, ⟨hk, hg, ho, ha, offset, expiry, hoff, he, hr, by omega⟩, signature, value, hs, hv, hver⟩
  · rintro ⟨rfl, ⟨hk, hg, ho, ha, offset, expiry, hoff, he, hr, hlt⟩, signature, value, hs, hv, hver⟩
    obtain ⟨selected, hsel⟩ := DateTime.toUtc_eq_ok_iff.mpr hr
    obtain ⟨-, hinst⟩ := DateTime.instant_toUtc hsel
    exact ⟨⟨hk, hg⟩, ho, ha, offset, hoff, expiry, he, selected, hsel, by omega, signature, hs, value, hv, true,
      hver, rfl, rfl⟩

end SignedObjectReference

/-! ## Signing -/

open SignedObjectReference

/-- `replace(unsigned, signature=signature)` -/
def SignedObjectReference.replaceSignature (s : SignedObjectReference P) (signature : Str) :
    Py (SignedObjectReference P) :=
  new s.objectRef (s.allowedOperations.map .str) (.json (.str s.expiresAt)) (.str s.audience.val)
    (.str s.nonce.val) (.str s.keyId.val) (.str s.algorithm.val) (.str signature) (.str s.formatVersion.val)

/-- The reference before it is signed; `generated` is what `secrets.token_hex(24)` returns. -/
def unsignedReference (objectRef : ReferenceValue P) (allowedOperations : List Str) (expiresAt : TimeValue)
    (audience : Str) (signer : ReferenceSigner) (nonce : Option Str) (generated : Str) :
    Py (SignedObjectReference P) := do
  let reference ← parseObjectReference P objectRef true
  let selectedNonce := if nonce.getD [] = [] then str "n_" ++ generated else nonce.getD []
  new reference (allowedOperations.map .str) expiresAt (.str audience) (.str selectedNonce)
    (.str signer.keyId) (.str signer.algorithm) (.str "AA")

def signObjectReference (objectRef : ReferenceValue P) (allowedOperations : List Str) (expiresAt : TimeValue)
    (audience : Str) (signer : ReferenceSigner) (nonce : Option Str) (generated : Str) :
    Py (SignedObjectReference P) := do
  let unsigned ← unsignedReference objectRef allowedOperations expiresAt audience signer nonce generated
  let value ← P.canonicalJsonBytes (.obj unsigned.claims)
  let signed ← signer.sign value
  let signature ← encodeSignature signed
  unsigned.replaceSignature signature

/-- A signature that fits is put in the place of another; nothing else changes. -/
theorem replaceSignature_eq_ok (hP : P.RoundTrips) {s x : SignedObjectReference P} {signature : Str} :
    s.replaceSignature signature = .ok x ↔
      IsTimestamp s.expiresAt ∧ SameClaims x s ∧ x.signature.val = signature := by
  simp only [SignedObjectReference.replaceSignature, new_eq_ok, utcTimestamp_json_eq_ok, Json.str.injEq,
    readObjectReference_reference hP, Except.ok.injEq]
  constructor
  · rintro ⟨hr, ⟨l, hl, hperm⟩, ⟨ht, hts⟩, ha, hn, hk, hg, hs, hv⟩
    obtain rfl : s.allowedOperations = l := List.map_injective_iff.mpr (fun _ _ h => Json.str.inj h) hl
    have hops : x.allowedOperations = s.allowedOperations := by
      rw [← sorted_eq_self x.operations_valid.sorted, ← sorted_eq_self s.operations_valid.sorted]
      exact sorted_eq_of_perm hperm.symm
    exact ⟨ht ▸ hts, ⟨hr.symm, hops, ht.symm, Subtype.ext ha.symm, Subtype.ext hn.symm, Subtype.ext hk.symm,
      Subtype.ext hg.symm, Subtype.ext hv.symm⟩, hs.symm⟩
  · rintro ⟨hts, h, hs⟩
    exact ⟨h.objectRef.symm, ⟨_, rfl, by rw [h.allowedOperations]⟩, ⟨h.expiresAt.symm, h.expiresAt ▸ hts⟩,
      by rw [h.audience], by rw [h.nonce], by rw [h.keyId], by rw [h.algorithm], hs.symm, by rw [h.formatVersion]⟩

/-- **What signing does**: the signature is that of the claims the reference makes. -/
theorem signObjectReference_eq_ok (hP : P.RoundTrips) {objectRef : ReferenceValue P}
    {allowedOperations : List Str} {expiresAt : TimeValue} {audience : Str} {signer : ReferenceSigner}
    {nonce : Option Str} {generated : Str} {x : SignedObjectReference P} :
    signObjectReference objectRef allowedOperations expiresAt audience signer nonce generated = .ok x ↔
      ∃ unsigned value signed, unsignedReference objectRef allowedOperations expiresAt audience signer nonce
          generated = .ok unsigned ∧
        P.canonicalJsonBytes (.obj unsigned.claims) = .ok value ∧ signer.sign value = .ok signed ∧
        encodeSignature signed = .ok x.signature.val ∧ IsTimestamp unsigned.expiresAt ∧ SameClaims x unsigned := by
  simp only [signObjectReference, bind_eq_ok, replaceSignature_eq_ok hP]
  constructor
  · rintro ⟨unsigned, hu, value, hv, signed, hs, signature, hg, ht, hsame, rfl⟩
    exact ⟨unsigned, value, signed, hu, hv, hs, hg, ht, hsame⟩
  · rintro ⟨unsigned, value, signed, hu, hv, hs, hg, ht, hsame⟩
    exact ⟨unsigned, hu, value, hv, signed, hs, _, hg, ht, hsame, rfl⟩

/-! ## Logical references -/

variable (P) in
/-- What `parse_logical_reference` returns. -/
inductive LogicalReference where
  | object (r : P.ObjectReference)
  | signed (s : SignedObjectReference P)

variable (P) in
/-- `parse_logical_reference` of a mapping -/
def parseLogicalReference (value : Object) : Py (LogicalReference P) :=
  if ((Dict.get? value "formatVersion").getD .null).isStr signedReferenceFormatVersion then
    .signed <$> fromMapping P value
  else
    .object <$> (parseObjectReference P (.document value)).mapError
      (translate fun e => ObjectInvalidRequest (.text "invalid logical Object reference: " :: e.message))

/-- A document that carries the format version of a signed reference. -/
def HasSignedFormat (value : Object) : Prop :=
  Dict.get? value "formatVersion" = some (.str signedReferenceFormatVersion)

theorem hasSignedFormat_iff {value : Object} :
    ((Dict.get? value "formatVersion").getD .null).isStr signedReferenceFormatVersion = true ↔
      HasSignedFormat value := by
  unfold HasSignedFormat
  cases h : Dict.get? value (str "formatVersion") <;> simp

theorem hasSignedFormat_documentOver (s : SignedObjectReference P) (raw : Object) (ops : List Str) :
    HasSignedFormat (s.documentOver raw ops) := by
  have hv := s.formatVersion.2
  simp [HasSignedFormat, documentOver, claimsOver, hv]

/-- A document is read as a signed reference exactly when it has its format version. -/
theorem parseLogicalReference_signed_eq_ok {value : Object} {s : SignedObjectReference P} :
    parseLogicalReference P value = .ok (.signed s) ↔
      HasSignedFormat value ∧ fromMapping P value = .ok s := by
  rw [← hasSignedFormat_iff]
  unfold parseLogicalReference
  split
  · next h => simp [h, map_eq_ok]
  · next h => simp [h, map_eq_ok]

theorem parseLogicalReference_object_eq_ok {value : Object} {r : P.ObjectReference} :
    parseLogicalReference P value = .ok (.object r) ↔
      ¬ HasSignedFormat value ∧ readObjectReference P (.document value) = .ok r := by
  rw [← hasSignedFormat_iff]
  unfold parseLogicalReference
  split
  · next h => simp [h, map_eq_ok]
  · next h => simp [h, map_eq_ok, mapError_eq_ok, parseObjectReference_eq_ok]

end ObjectCommon
