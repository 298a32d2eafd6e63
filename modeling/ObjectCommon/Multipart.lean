import ObjectCommon.Immutability
import ObjectCommon.Library.KeySort
import ObjectCommon.Metadata
import ObjectCommon.Payloads.Reference

/-!
# Multipart transfers

* `MultipartLimits`, `MultipartLimits.validate_eq_ok` : the advertised limits, and the plans they allow;
* `MultipartSession`, `MultipartSession.fromMapping_eq_ok` : a session and the documents it is read from;
* `MultipartCompletion`, `MultipartCompletion.new_eq_ok` : the part lists that complete an Object.
-/

namespace ObjectCommon

open Outcome PyError KeySort

/-! ## Limits -/

structure MultipartLimits where
  minPartBytes : Nat
  maxPartBytes : Nat
  maxParts : Nat
  minPartBytes_pos : 0 < minPartBytes
  maxParts_pos : 0 < maxParts
  min_le_max : minPartBytes ≤ maxPartBytes

namespace MultipartLimits

/-- `MultipartLimits(min_part_bytes, max_part_bytes, max_parts)` -/
def new (minPartBytes maxPartBytes maxParts : Json) : Py MultipartLimits := do
  let minimum ← positiveInt minPartBytes "minimum part bytes"
  let maximum ← positiveInt maxPartBytes "maximum part bytes"
  let parts ← positiveInt maxParts "maximum parts"
  if h : minimum.val ≤ maximum.val then .ok ⟨minimum, maximum, parts, minimum.2, parts.2, h⟩
  else .error (MultipartInvalid "minimum part bytes exceeds maximum part bytes")

/-- `max(1, (total_length + size - 1) // size)` -/
def partCount (size : Nat) (totalLength : Int) : Int := max 1 ((totalLength + size - 1) / size)

def validate (l : MultipartLimits) (partSize : Json) (totalLength : Option Int := none) : Py (Option Int) := do
  let size ← positiveInt partSize "part size"
  raiseIf (¬ (l.minPartBytes ≤ size.val ∧ size.val ≤ l.maxPartBytes))
    (MultipartInvalid "part size is outside the advertised multipart limits")
  match totalLength with
  | none => return none
  | some totalLength =>
    raiseIf (totalLength < 0) (MultipartInvalid "total length must be non-negative")
    let count := partCount size.val totalLength
    raiseIf (l.maxParts < count) (MultipartInvalid "multipart plan exceeds the advertised part-count limit")
    return some count

theorem new_eq_ok {n x p : Json} {l : MultipartLimits} :
    new n x p = .ok l ↔ n = .int l.minPartBytes ∧ x = .int l.maxPartBytes ∧ p = .int l.maxParts := by
  obtain ⟨n', x', p', hn, hp, hle⟩ := l
  simp only [new, bind_eq_ok, positiveInt_eq_ok]
  constructor
  · rintro ⟨_, rfl, _, rfl, _, rfl, h⟩
    split at h
    · cases h
      exact ⟨rfl, rfl, rfl⟩
    · cases h
  · rintro ⟨rfl, rfl, rfl⟩
    exact ⟨⟨n', hn⟩, rfl, ⟨x', by omega⟩, rfl, ⟨p', hp⟩, rfl, dif_pos hle⟩

/-- The plans that the limits allow, and their part counts. -/
theorem validate_eq_ok {l : MultipartLimits} {partSize : Json} {n : Nat} {c : Option Int} :
    l.validate partSize (some n) = .ok c ↔
      ∃ s : Nat, partSize = .int s ∧ l.minPartBytes ≤ s ∧ s ≤ l.maxPartBytes ∧
        c = some (partCount s n) ∧ partCount s n ≤ l.maxParts := by
  simp only [validate, bind_eq_ok, positiveInt_eq_ok, exists_unit, raiseIf_eq_ok, pure_eq_ok, not_not, not_lt,
    Int.natCast_nonneg, true_and]
  constructor
  · rintro ⟨size, rfl, ⟨hmin, hmax⟩, hcount, rfl⟩
    exact ⟨size.val, rfl, hmin, hmax, rfl, hcount⟩
  · rintro ⟨s, rfl, hmin, hmax, rfl, hcount⟩
    have hpos := l.minPartBytes_pos
    exact ⟨⟨s, by omega⟩, rfl, ⟨hmin, hmax⟩, hcount, rfl⟩

end MultipartLimits

/-! ## Sessions -/

def multipartSessionFormatVersion : Str := "meridian.object.multipart-session.v1"

/-- `utc_timestamp` of a session's expiry that is not `None` -/
def sessionExpiry : TimeValue → Py (Option Str)
  | .json .null => .ok none
  | value => some <$> utcTimestamp value "session expiry"

/-- Which field a timestamp is for shows in its errors only. -/
theorem utcTimestamp_eq_ok_congr {value : TimeValue} {r : Str} (field field' : String) :
    utcTimestamp value field = .ok r ↔ utcTimestamp value field' = .ok r := by
  cases value with
  | datetime d => simp only [utcTimestamp, bind_eq_ok, DateTime.awareOffset_eq_ok]
  | json value => rw [utcTimestamp_json_eq_ok, utcTimestamp_json_eq_ok]

theorem sessionExpiry_eq_ok {value : TimeValue} {r : Option Str} :
    sessionExpiry value = .ok r ↔ deadline value = .ok r := by
  unfold sessionExpiry deadline
  split
  · rfl
  · simp only [map_eq_ok, utcTimestamp_eq_ok_congr "session expiry" "retention deadline"]

variable (P : Packages)

structure MultipartSession where
  sessionId : Token
  objectRef : P.ObjectReference
  partSize : Positive
  expiresAt : Option Str
  formatVersion : {v : Str // v = multipartSessionFormatVersion}

variable {P}

namespace MultipartSession

/-- `MultipartSession(session_id, object_ref, part_size, expires_at, format_version)` -/
def new (sessionId : Json) (objectRef : ReferenceValue P) (partSize : Json) (expiresAt : TimeValue)
    (formatVersion : Json := .str multipartSessionFormatVersion) : Py (MultipartSession P) := do
  let sessionId ← token sessionId "multipart session id"
  let objectRef ← parseObjectReference P objectRef
  let partSize ← positiveInt partSize "part size"
  let expiresAt ← sessionExpiry expiresAt
  let formatVersion ← ObjectCommon.formatVersion formatVersion multipartSessionFormatVersion
  return ⟨sessionId, objectRef, partSize, expiresAt, formatVersion⟩

/-- The document over a given document of the Object reference. -/
def documentOver (s : MultipartSession P) (objectRef : Object) : Object :=
  [("formatVersion", .str s.formatVersion.val), ("sessionId", .str s.sessionId.val), ("objectRef", .obj objectRef),
    ("partSize", .int s.partSize.val), ("expiresAt", Json.nullable .str s.expiresAt)]

def toDict (s : MultipartSession P) : Object := s.documentOver (P.referenceToDict s.objectRef)

/-- The fields of a session. -/
def fields : List String := ["formatVersion", "sessionId", "objectRef", "partSize", "expiresAt"]

variable (P) in
def fromMapping (value : Object) : Py (MultipartSession P) := do
  exactFields value fields
  let rawRef ← getItem value "objectRef"
  let rawRef ← asMapping rawRef (typeError "multipart objectRef must be an object")
  let sessionId ← getItem value "sessionId"
  let objectRef ← parseObjectReference P (.document rawRef)
  let partSize ← getItem value "partSize"
  let expiresAt ← getItem value "expiresAt"
  let formatVersion ← getItem value "formatVersion"
  new sessionId (.reference objectRef) partSize (.json expiresAt) formatVersion

theorem new_eq_ok {i : Json} {r : ReferenceValue P} {n : Json} {t : TimeValue} {v : Json} {s : MultipartSession P} :
    new i r n t v = .ok s ↔
      i = .str s.sessionId.val ∧ readObjectReference P r = .ok s.objectRef ∧ n = .int s.partSize.val ∧
        sessionExpiry t = .ok s.expiresAt ∧ v = .str s.formatVersion.val := by
  obtain ⟨i', r', n', t', v'⟩ := s
  simp only [new, bind_eq_ok, token_eq_ok, parseObjectReference_eq_ok, positiveInt_eq_ok, formatVersion_eq_ok, pure_eq_ok]
  constructor
  · rintro ⟨_, hi, _, ⟨hr, -⟩, _, hn, _, ht, _, hv, h⟩
    cases h
    exact ⟨hi, hr, hn, ht, hv⟩
  · rintro ⟨hi, hr, hn, ht, hv⟩
    exact ⟨i', hi, r', ⟨hr, by simp⟩, n', hn, t', ht, v', hv, rfl⟩

/-- **The documents a session is read from**: what it writes, up to the order of the fields, with any document of
its Object reference. -/
theorem fromMapping_eq_ok (hP : P.RoundTrips) {value : Object} {s : MultipartSession P} :
    fromMapping P value = .ok s ↔
      ∃ raw, Dict.Same value (s.documentOver raw) ∧ readObjectReference P (.document raw) = .ok s.objectRef ∧
        ∀ t ∈ s.expiresAt, IsTimestamp t := by
  simp only [fromMapping, bind_eq_ok, exists_unit, getItem_eq_ok, asMapping_eq_ok, parseObjectReference_eq_ok, new_eq_ok,
    sessionExpiry_eq_ok, deadline_json_eq_ok]
  constructor
  · rintro ⟨hf, _, hr, raw, rfl, _, hi, r, ⟨hread, -⟩, _, hn, _, ht, _, hv, rfl, hself, rfl, ⟨rfl, hts⟩, rfl⟩
    rw [readObjectReference_reference hP] at hself
    cases hself
    refine ⟨raw, (exactFields_and_get?_iff fields rfl).mp ⟨hf, ?_⟩, hread, hts⟩
    simp [fields, documentOver, hr, hi, hn, ht, hv]
  · rintro ⟨raw, hsame, hread, hts⟩
    obtain ⟨hf, hget⟩ := (exactFields_and_get?_iff (u := ()) fields rfl).mpr hsame
    simp [fields, documentOver] at hget
    obtain ⟨hv, hi, hr, hn, ht⟩ := hget
    exact ⟨hf, _, hr, raw, rfl, _, hi, _, ⟨hread, by simp⟩, _, hn, _, ht, _, hv, rfl,
      readObjectReference_reference hP _, rfl, ⟨rfl, hts⟩, rfl⟩

end MultipartSession

/-! ## Parts and completions -/

structure MultipartPart where
  number : Positive
  identity : ContentIdentity
  verificationToken : Token
  deriving DecidableEq

/-- `MultipartPart(number, identity, verification_token)` -/
def MultipartPart.new (number : Json) (identity : ContentIdentity) (verificationToken : Json) : Py MultipartPart := do
  let number ← positiveInt number "part number"
  let verificationToken ← token verificationToken "part verification token"
  return ⟨number, identity, verificationToken⟩

namespace MultipartCompletion

def numbers (parts : List MultipartPart) : List Nat := parts.map fun p => p.number.val

/-- `sorted(parts, key=lambda item: item.number)` -/
def sortedByNumber (parts : List MultipartPart) : List MultipartPart := sortByKey (fun p => p.number.val) parts

def totalBytes (parts : List MultipartPart) : Nat := (parts.map fun p => p.identity.byteLength).sum

end MultipartCompletion

open MultipartCompletion

/-- Parts numbered from one without a gap, in order, whose lengths are those of the Object. -/
structure MultipartCompletion where
  parts : List MultipartPart
  identity : ContentIdentity
  parts_ne_nil : parts ≠ []
  contiguous : numbers parts = List.range' 1 parts.length
  lengths : totalBytes parts = identity.byteLength

namespace MultipartCompletion

/-- `MultipartCompletion(parts, identity)` -/
def new (parts : List MultipartPart) (identity : ContentIdentity) : Py MultipartCompletion :=
  let parts := sortedByNumber parts
  if hne : parts = [] then .error (MultipartInvalid "multipart completion requires at least one part")
  else if hnumbers : numbers parts ≠ List.range' 1 parts.length then
    .error (MultipartInvalid "multipart part numbers must be contiguous from one")
  else if hlengths : totalBytes parts ≠ identity.byteLength then
    .error (MultipartInvalid "multipart part lengths do not match the completed Object")
  else .ok ⟨parts, identity, hne, not_not.mp hnumbers, not_not.mp hlengths⟩

/-- Every byte of an Object is in one of the parts: the parts are numbered from one, each number once, and
their lengths add up. -/
structure Complete (parts : List MultipartPart) (identity : ContentIdentity) : Prop where
  ne_nil : parts ≠ []
  numbers : (numbers parts).Perm (List.range' 1 parts.length)
  lengths : totalBytes parts = identity.byteLength

theorem Complete.nodup {parts : List MultipartPart} {identity : ContentIdentity} (h : Complete parts identity) :
    (MultipartCompletion.numbers parts).Nodup :=
  h.numbers.nodup_iff.mpr List.nodup_range'

/-- The order of the parts does not matter. -/
theorem Complete.perm {parts parts' : List MultipartPart} {identity : ContentIdentity} (h : Complete parts identity)
    (hperm : parts.Perm parts') : Complete parts' identity where
  ne_nil := by
    rintro rfl
    exact h.ne_nil hperm.eq_nil
  numbers := by
    rw [← hperm.length_eq]
    exact (hperm.map _).symm.trans h.numbers
  lengths := by
    rw [← h.lengths]
    exact ((hperm.map _).sum_nat).symm

/-- The sorted parts are those of the completion. -/
theorem new_eq_ok {parts : List MultipartPart} {identity : ContentIdentity} {c : MultipartCompletion} :
    new parts identity = .ok c ↔
      Complete parts identity ∧ c.parts = sortedByNumber parts ∧ c.identity = identity := by
  have hlength : (sortedByNumber parts).length = parts.length := (sortByKey_perm _ parts).length_eq
  have htotal : totalBytes (sortedByNumber parts) = totalBytes parts := ((sortByKey_perm _ parts).map _).sum_nat
  obtain ⟨parts', identity', hne', hnumbers', hlengths'⟩ := c
  unfold new
  dsimp only
  constructor
  · intro h
    split at h
    · cases h
    split at h
    · cases h
    split at h
    · cases h
    next hne hnumbers hlengths =>
    cases h
    refine ⟨⟨?_, ?_, ?_⟩, rfl, rfl⟩
    · rintro rfl
      exact hne rfl
    · rw [not_not, hlength] at hnumbers
      exact map_sortByKey_eq_range'_iff.mp hnumbers
    · rw [← htotal]
      exact not_not.mp hlengths
  · rintro ⟨-, rfl, rfl⟩
    rw [dif_neg hne', dif_neg (not_not.mpr hnumbers'), dif_neg (not_not.mpr hlengths')]

theorem exists_new {parts : List MultipartPart} {identity : ContentIdentity} (h : Complete parts identity) :
    ∃ c, new parts identity = .ok c := by
  have hperm : (sortedByNumber parts).Perm parts := sortByKey_perm _ parts
  have hsorted := h.perm hperm.symm
  have hnumbers : numbers (sortedByNumber parts) = List.range' 1 (sortedByNumber parts).length := by
    rw [hperm.length_eq]
    exact map_sortByKey_eq_range'_iff.mpr h.numbers
  exact ⟨⟨_, identity, hsorted.ne_nil, hnumbers, hsorted.lengths⟩, new_eq_ok.mpr ⟨h, rfl, rfl⟩⟩

/-- What is not complete is refused with one error. -/
theorem new_raises (parts : List MultipartPart) (identity : ContentIdentity) :
    RaisesOnly (fun e => ∃ message, e = MultipartInvalid message) (new parts identity) := by
  unfold new
  dsimp only
  split
  · exact RaisesOnly.error ⟨_, rfl⟩
  split
  · exact RaisesOnly.error ⟨_, rfl⟩
  split
  · exact RaisesOnly.error ⟨_, rfl⟩
  · exact RaisesOnly.ok _

end MultipartCompletion

/-- **Completion accepts exactly the complete part lists**, in any order, and keeps their parts. -/
theorem multipartCompletion_exact (parts : List MultipartPart) (identity : ContentIdentity) :
    ((∃ c, MultipartCompletion.new parts identity = .ok c) ↔ Complete parts identity) ∧
    (¬ Complete parts identity →
      ∃ message, MultipartCompletion.new parts identity = .error (MultipartInvalid message)) ∧
    ∀ c, MultipartCompletion.new parts identity = .ok c →
      c.identity = identity ∧ c.parts.Perm parts ∧
        c.parts.Pairwise (fun p q => p.number.val < q.number.val) ∧
        ∀ parts' : List MultipartPart, parts'.Perm parts → MultipartCompletion.new parts' identity = .ok c := by
  have hexists : (∃ c, MultipartCompletion.new parts identity = .ok c) ↔ Complete parts identity := by
    constructor
    · rintro ⟨c, hc⟩
      exact (MultipartCompletion.new_eq_ok.mp hc).1
    · intro h
      exact MultipartCompletion.exists_new h
  refine ⟨hexists, fun hincomplete => ?_, fun c hc => ?_⟩
  · cases hnew : MultipartCompletion.new parts identity with
    | ok c => exact absurd (hexists.mp ⟨c, hnew⟩) hincomplete
    | error e =>
      obtain ⟨message, rfl⟩ := MultipartCompletion.new_raises parts identity e hnew
      exact ⟨message, rfl⟩
  · obtain ⟨hcomplete, hparts, hidentity⟩ := MultipartCompletion.new_eq_ok.mp hc
    refine ⟨hidentity, ?_, ?_, fun parts' hperm => ?_⟩
    · rw [hparts]
      exact sortByKey_perm _ parts
    · rw [hparts]
      exact sortByKey_pairwise_lt hcomplete.nodup
    · -- the keys are distinct, so the other order sorts to the same list
      have hsort := sortByKey_eq_of_perm hcomplete.nodup hperm.symm
      exact MultipartCompletion.new_eq_ok.mpr ⟨hcomplete.perm hperm.symm, hparts.trans hsort, hidentity⟩

end ObjectCommon
