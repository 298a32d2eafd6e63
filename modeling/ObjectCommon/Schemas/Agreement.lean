import ObjectCommon.Codec.Signing
import ObjectCommon.Schemas.Documents

/-!
# Codecs and schemas

* `tokenSchema_iff`, `digestSchema_iff`, ... : a member schema accepts what its validator accepts;
* `payloadReferenceSchema_iff` : a payload reference is read exactly from the documents of its schema;
* `BeyondSchema` : what the codec of signed references asks of a document beyond its schema;
* `signedReferenceSchema_iff` : a signed reference is read exactly from the documents of its schema that
  meet it;
* `codecs_read_schemas` : both.
-/

namespace ObjectCommon

open Outcome PyError Schema

/-! ## Members -/

/-- A text with one pattern. -/
theorem text_pattern_iff {re : Str → Bool} {v : Json} :
    text [pattern re] v = true ↔ ∃ s : {s : Str // re s = true}, v = .str s.val := by
  rw [text_iff]
  constructor
  · rintro ⟨s, rfl, h⟩
    exact ⟨⟨s, h _ List.mem_cons_self⟩, rfl⟩
  · rintro ⟨⟨s, hs⟩, rfl⟩
    exact ⟨s, rfl, by simpa [pattern] using hs⟩

theorem tokenSchema_iff {v : Json} : tokenSchema v = true ↔ ∃ t : Token, v = .str t.val := text_pattern_iff

theorem digestSchema_iff {v : Json} : digestSchema v = true ↔ ∃ d : Digest, v = .str d.val := text_pattern_iff

theorem timestampSchema_iff {v : Json} : timestampSchema v = true ↔ ∃ s, v = .str s ∧ timestampRe s = true := by
  simp [timestampSchema, text_iff, pattern]

theorem naturalOrNull_iff {v : Json} : naturalOrNull v = true ↔ ∃ n : Option Nat, v = ByteRange.wireNat n := by
  constructor
  · intro h
    cases v with
    | null => exact ⟨none, rfl⟩
    | int i =>
      have hi : 0 ≤ i := by simpa [naturalOrNull, typeOf, minimum] using h
      exact ⟨some i.toNat, by rw [ByteRange.wireNat, Json.nullable_some, Int.toNat_of_nonneg hi]⟩
    | _ => simp [naturalOrNull, typeOf] at h
  · rintro ⟨n, rfl⟩
    cases n <;> simp [naturalOrNull, ByteRange.wireNat, typeOf, minimum]

theorem nullable_digestSchema_iff {v : Json} :
    nullable digestSchema v = true ↔ ∃ d : Option Digest, v = wireDigest d := by
  rw [nullable_iff, digestSchema_iff]
  constructor
  · rintro (⟨d, rfl⟩ | rfl)
    · exact ⟨some d, rfl⟩
    · exact ⟨none, rfl⟩
  · rintro ⟨d, rfl⟩
    cases d with
    | none => exact Or.inr rfl
    | some d => exact Or.inl ⟨d, rfl⟩

theorem boolean_iff {v : Json} : types [.boolean] v = true ↔ ∃ b, v = .bool b := by
  rw [types_iff, List.mem_singleton, typeOf_eq_boolean]

/-! ## Payload references -/

/-- **A payload reference is read exactly from the documents of its schema.** -/
theorem payloadReferenceSchema_iff {value : Object} :
    payloadReferenceSchema (.obj value) = true ↔ ∃ r, PayloadReference.fromMapping value = .ok r := by
  refine record_required_iff.trans ?_
  simp only [List.forall_mem_cons, List.not_mem_nil, false_imp_iff, implies_true, and_true, constant_iff,
    tokenSchema_iff, naturalOrNull_iff, nullable_digestSchema_iff, boolean_iff, PayloadReference.fromMapping,
    bind_eq_ok, exists_unit, getItem_eq_ok, PayloadReference.new_eq_ok]
  constructor
  · rintro ⟨hf, ⟨_, hv, rfl⟩, ⟨_, ht, t, rfl⟩, ⟨_, hl, l, rfl⟩, ⟨_, hd, d, rfl⟩, _, hb, b, rfl⟩
    exact ⟨⟨t, l, d, b, ⟨_, rfl⟩⟩, hf, _, ht, _, hl, _, hd, _, hb, _, hv, rfl, rfl, rfl, rfl, rfl⟩
  · rintro ⟨r, hf, _, ht, _, hl, _, hd, _, hb, _, hv, rfl, rfl, rfl, rfl, rfl⟩
    exact ⟨hf, ⟨_, hv, by rw [r.formatVersion.2]; rfl⟩, ⟨_, ht, _, rfl⟩, ⟨_, hl, _, rfl⟩, ⟨_, hd, _, rfl⟩, _, hb, _, rfl⟩

/-! ## Signed references -/

theorem urlIndex_isSome {c : CodePoint} : (urlIndex c).isSome = (isAlnum c || c ∈ str "_-") := by
  have hu : isUpper c = true ↔ 65 ≤ c.val ∧ c.val ≤ 90 := inRange_eq_true
  have hl : isLower c = true ↔ 97 ≤ c.val ∧ c.val ≤ 122 := inRange_eq_true
  have hd : isDigit c = true ↔ 48 ≤ c.val ∧ c.val ≤ 57 := inRange_eq_true
  have hm : c ∈ str "_-" ↔ c = codePoint '_' ∨ c = codePoint '-' := by
    change c ∈ [codePoint '_', codePoint '-'] ↔ _
    simp
  rw [Bool.eq_iff_iff, Bool.or_eq_true, decide_eq_true_eq, isAlnum, Bool.or_eq_true, Bool.or_eq_true, hu, hl, hd, hm]
  unfold urlIndex
  split
  · next h => simp [h]
  · next h =>
    split
    · next h => simp [h]
    · next h' =>
      split
      · next h => simp [h]
      · next h'' =>
        split
        · next e => simp [e]
        · next e =>
          split
          · next e' => simp [e']
          · next e' => simp [h, h', h'', e, e']

theorem isSignature_iff {s : Str} :
    IsSignature s ↔ (signatureRe s = true ∧ s.length ≤ 2048) ∧ s.length % 4 ≠ 1 := by
  have hre : signatureRe s = true ↔ s ≠ [] ∧ ∀ c ∈ s, (urlIndex c).isSome = true := by
    simp only [signatureRe, urlIndex_isSome, Bool.and_eq_true, Bool.not_eq_true', List.isEmpty_eq_false_iff,
      List.all_eq_true]
  rw [IsSignature, exists_decodeSignature_iff, hre]
  tauto

/-- Strings, each of which is one of the given ones. -/
theorem strings_of_enum {names : List Str} {l : List Json} (h : items (enum names) (.arr l) = true) :
    ∃ strings : List Str, l = strings.map .str ∧ ∀ s ∈ strings, s ∈ names := by
  replace h := List.all_eq_true.mp h
  induction l with
  | nil => exact ⟨[], rfl, by simp⟩
  | cons v l ih =>
    obtain ⟨strings, rfl, hs⟩ := ih fun w hw => h w (List.mem_cons_of_mem _ hw)
    obtain ⟨s, hmem, rfl⟩ := enum_iff.mp (h v List.mem_cons_self)
    exact ⟨s :: strings, rfl, List.forall_mem_cons.mpr ⟨hmem, hs⟩⟩

/-- The schema of the operations accepts the lists that are valid operations once sorted. -/
theorem allowedOperations_iff {v : Json} :
    allOf [types [.array], minItems 1, uniqueItems, items (enum ["get", "read_range", "stat"])] v = true ↔
      ∃ l r : List Str, v = .arr (l.map .str) ∧ l.Perm r ∧ ValidOperations r := by
  simp only [allOf_iff, List.forall_mem_cons, types_iff, List.mem_singleton, typeOf_eq_array, forall_eq]
  constructor
  · rintro ⟨⟨array, rfl⟩, hmin, huniq, hitems⟩
    obtain ⟨l, rfl, hl⟩ := strings_of_enum hitems
    have hperm := sorted_perm l
    have hlen : 1 ≤ l.length := by simpa [minItems] using hmin
    refine ⟨l, sorted l, rfl, hperm.symm, ?_, ?_, sorted_pairwise l, fun o ho => hl o (hperm.mem_iff.mp ho)⟩
    · exact List.ne_nil_of_length_pos (by rw [hperm.length_eq]; exact hlen)
    · exact hperm.nodup_iff.mpr (uniqueItems_strings.mp huniq)
  · rintro ⟨l, r, rfl, hperm, hr⟩
    have hlen : minItems 1 (.arr (l.map .str)) = true := by
      rw [minItems, decide_eq_true_eq, List.length_map, hperm.length_eq]
      exact List.length_pos_iff.mpr hr.ne_nil
    refine ⟨⟨_, rfl⟩, hlen, uniqueItems_strings.mpr (hperm.nodup_iff.mpr hr.nodup), ?_⟩
    refine List.all_eq_true.mpr fun v hv => ?_
    obtain ⟨o, ho, rfl⟩ := List.mem_map.mp hv
    exact enum_iff.mpr ⟨o, hr.subset o (hperm.mem_iff.mp ho), rfl⟩

variable (P : Packages)

/-- The `objectRef` of a document is a valid exact reference: it has the schema's shape, and the
constructors of Semantics accept it. -/
structure HasExactReference (value : Object) : Prop where
  schema : ∃ v, Dict.get? value "objectRef" = some v ∧ exactObjectRefSchema v = true
  parses : ∃ raw r, Dict.get? value "objectRef" = some (.obj raw) ∧
    parseObjectReference P (.document raw) true = .ok r

/-- What the codec of signed references asks of a document beyond its schema. -/
structure BeyondSchema (value : Object) : Prop where
  expiresAt : ∃ d : DateTime, d.utcoffset = some 0 ∧ Dict.get? value "expiresAt" = some (.str d.fullText)
  audience : ∃ s n, Dict.get? value "audience" = some (.str s) ∧ utf8Length s = some n ∧ n ≤ 256 ∧
    ∀ c ∈ s, isControl c = false
  signature : ∃ s, Dict.get? value "signature" = some (.str s) ∧ s.length % 4 ≠ 1

variable {P}

theorem audienceSchema_iff {v : Json} :
    text [minLength 1, maxLength 256] v = true ↔ ∃ s, v = .str s ∧ 1 ≤ s.length ∧ s.length ≤ 256 := by
  simp [text_iff, minLength, maxLength]

theorem signatureSchema_iff {v : Json} :
    text [pattern signatureRe, maxLength 2048] v = true ↔ ∃ s, v = .str s ∧ signatureRe s = true ∧ s.length ≤ 2048 := by
  simp [text_iff, pattern, maxLength]

/-- **A signed reference to a valid exact reference is read exactly from the documents of its schema
that meet what the codec asks beyond it.** -/
theorem signedReferenceSchema_iff (hP : P.RoundTrips) {value : Object} (hr : HasExactReference P value) :
    (signedReferenceSchema (.obj value) = true ∧ BeyondSchema value) ↔
      ∃ s, SignedObjectReference.fromMapping P value = .ok s := by
  obtain ⟨v, hv, hschema⟩ := hr.schema
  obtain ⟨raw, r, hraw, hparse⟩ := hr.parses
  rw [hraw] at hv
  cases hv
  obtain ⟨hread, hexact⟩ := parseObjectReference_eq_ok.mp hparse
  have hrecord : signedReferenceSchema (.obj value) = true ↔ _ := record_required_iff
  simp only [hrecord, List.forall_mem_cons, List.not_mem_nil, false_imp_iff, implies_true, and_true, constant_iff,
    tokenSchema_iff, timestampSchema_iff, allowedOperations_iff, audienceSchema_iff, signatureSchema_iff]
  constructor
  · rintro ⟨⟨hf, ⟨_, hv, rfl⟩, -, ⟨_, ho, l, ops, rfl, hperm, hops⟩, -, ⟨_, ha, a, rfl, hpos, -⟩, ⟨_, hn, n, rfl⟩,
      ⟨_, hk, k, rfl⟩, ⟨_, hg, g, rfl⟩, _, hs, s, rfl, hre, hlen⟩, ⟨d, hd, ht⟩, ⟨a', m, ha', hm, hle, hctl⟩, s', hs', hmod⟩
    obtain rfl : a = a' := by simpa [ha] using ha'
    obtain rfl : s = s' := by simpa [hs] using hs'
    have hbounded : IsBounded 256 a := ⟨List.ne_nil_of_length_pos hpos, ⟨m, hm, hle⟩, List.any_eq_false.mpr (by simpa using hctl)⟩
    let x : SignedObjectReference P := ⟨r, ops, d.fullText, ⟨a, hbounded⟩, n, k, g,
      ⟨s, isSignature_iff.mpr ⟨⟨hre, hlen⟩, hmod⟩⟩, ⟨_, rfl⟩, hexact rfl, hops⟩
    refine ⟨x, (SignedObjectReference.fromMapping_eq_ok hP).mpr ⟨raw, l, ?_, hread, hperm, d,
      DateTime.strptime_eq_ok.mpr ⟨hd, rfl⟩⟩⟩
    refine (exactFields_and_get?_iff SignedObjectReference.fields (SignedObjectReference.keys_documentOver x raw l)).mp
      ⟨hf, ?_⟩
    simp only [SignedObjectReference.fields, List.forall_mem_cons, List.not_mem_nil, false_imp_iff, implies_true,
      and_true]
    exact ⟨hv, hraw, ho, ht, ha, hn, hk, hg, hs⟩
  · rintro ⟨x, hx⟩
    obtain ⟨raw', l, hsame, -, hperm, d, hd⟩ := (SignedObjectReference.fromMapping_eq_ok hP).mp hx
    obtain ⟨hutc, htext⟩ := DateTime.strptime_eq_ok.mp hd
    obtain ⟨hf, hget⟩ := (exactFields_and_get?_iff (u := ()) SignedObjectReference.fields
      (SignedObjectReference.keys_documentOver x raw' l)).mpr hsame
    simp only [SignedObjectReference.fields, List.forall_mem_cons, List.not_mem_nil, false_imp_iff, implies_true,
      and_true] at hget
    obtain ⟨hv, -, ho, ht, ha, hn, hk, hg, hs⟩ := hget
    obtain ⟨⟨hre, hlen⟩, hmod⟩ := isSignature_iff.mp x.signature.2
    obtain ⟨hne, ⟨m, hm, hle⟩, hctl⟩ := x.audience.2
    refine ⟨⟨hf, ⟨_, hv, congrArg Json.str x.formatVersion.2⟩, ⟨_, hraw, hschema⟩,
      ⟨_, ho, l, _, rfl, hperm, x.operations_valid⟩, ⟨_, ht, _, rfl, timestampRe_of_strptime hd⟩,
      ⟨_, ha, _, rfl, List.length_pos_iff.mpr hne, x.audience.2.length_le⟩, ⟨_, hn, _, rfl⟩, ⟨_, hk, _, rfl⟩,
      ⟨_, hg, _, rfl⟩, _, hs, _, rfl, hre, hlen⟩, ⟨d, hutc, htext ▸ ht⟩, ⟨_, m, ha, hm, hle, ?_⟩, _, hs, hmod⟩
    simpa using hctl

/-- **Codecs and schemas accept the same documents.** -/
theorem codecs_read_schemas (hP : P.RoundTrips) (value : Object) :
    ((∃ r, PayloadReference.fromMapping value = .ok r) ↔ payloadReferenceSchema (.obj value) = true) ∧
      (HasExactReference P value →
        ((∃ s, SignedObjectReference.fromMapping P value = .ok s) ↔
          signedReferenceSchema (.obj value) = true ∧ BeyondSchema value)) :=
  ⟨payloadReferenceSchema_iff.symm, fun hr => (signedReferenceSchema_iff hP hr).symm⟩

/-- A signed reference that permits `stat` and `get`. -/
def signedDocument : Object :=
  [("formatVersion", .str signedReferenceFormatVersion), ("objectRef", .obj (Contracts.referenceToDict Contracts.fixture)),
    ("allowedOperations", .arr [.str "stat", .str "get"]), ("expiresAt", .str fixtureExpiry.fullText),
    ("audience", .str "fixture-reader"), ("nonce", .str "nonce-1"), ("keyId", .str "key-1"),
    ("algorithm", .str "test-v1"), ("signature", .str "AQID")]

theorem signedDocument_exact : HasExactReference contracts signedDocument where
  schema := ⟨_, rfl, by decide +kernel⟩
  parses := by
    have hread := readObjectReference_toDict Contracts.roundTrips Contracts.fixture
    have hexact : contracts.digest Contracts.fixture ≠ none := signingFixture.exact
    exact ⟨_, _, rfl, parseObjectReference_eq_ok.mpr ⟨hread, fun _ => hexact⟩⟩

theorem signedDocument_beyondSchema : BeyondSchema signedDocument where
  expiresAt := ⟨fixtureExpiry, rfl, rfl⟩
  audience := by
    have hcontrol : (str "fixture-reader").any isControl = false := by decide
    exact ⟨"fixture-reader", 14, rfl, by decide, by decide, by simpa using hcontrol⟩
  signature := ⟨"AQID", rfl, by decide⟩

theorem codecs_read_schemas_signedDocument :
    ∃ s, SignedObjectReference.fromMapping contracts signedDocument = .ok s :=
  ((codecs_read_schemas Contracts.roundTrips signedDocument).2 signedDocument_exact).mpr
    ⟨by decide +kernel, signedDocument_beyondSchema⟩

end ObjectCommon
