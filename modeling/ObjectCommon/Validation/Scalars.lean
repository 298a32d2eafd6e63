import ObjectCommon.Python.DateTime
import ObjectCommon.Python.Json

/-!
# Validation of strings, integers and timestamps

A validator takes the JSON value under its field name and returns the value with its certificate,
or raises `TypeError` or `ValueError`.

* `boundedString`, `token`, `digest`, `mediaType`, `nonNegativeInt`, `positiveInt` : `*_eq_ok` says
  which values each accepts, and that it returns what it was given;
* `utcTimestamp` : a timestamp text is returned as it is, a `datetime` as its UTC text;
* `*_raises` : a validator raises nothing else.
-/

namespace ObjectCommon

open Outcome PyError

/-- A call that raises only `TypeError` and `ValueError`. -/
abbrev RaisesValueErrors {α : Type} (x : Py α) : Prop := RaisesOnly IsTypeOrValueError x

theorem raiseIf_raises (c : Prop) [Decidable c] (m : Message) :
    RaisesValueErrors (raiseIf c (valueError m)) :=
  RaisesOnly.raiseIf fun _ => rfl

/-- `value[key]` -/
def getItem (value : Object) (key : Str) : Py Json :=
  match Dict.get? value key with
  | some item => .ok item
  | none => .error (keyError key)

theorem getItem_eq_ok {value : Object} {key : Str} {item : Json} :
    getItem value key = .ok item ↔ Dict.get? value key = some item := by
  unfold getItem
  split <;> simp_all

/-! ## Types -/

/-- `isinstance(value, Mapping)`, else `e` -/
def asMapping (value : Json) (e : PyError) : Py Object :=
  match value with
  | .obj entries => .ok entries
  | _ => .error e

@[simp] theorem asMapping_eq_ok {value : Json} {e : PyError} {entries : Object} :
    asMapping value e = .ok entries ↔ value = .obj entries := by
  cases value <;> simp [asMapping]

theorem asMapping_raises (value : Json) (m : Message) : RaisesValueErrors (asMapping value (typeError m)) := by
  cases value with
  | obj entries => exact RaisesOnly.ok entries
  | _ => exact RaisesOnly.error rfl

/-- `isinstance(value, Sequence)` and not a string, else `e` -/
def asSequence (value : Json) (e : PyError) : Py (List Json) :=
  match value with
  | .arr items => .ok items
  | _ => .error e

@[simp] theorem asSequence_eq_ok {value : Json} {e : PyError} {items : List Json} :
    asSequence value e = .ok items ↔ value = .arr items := by
  cases value <;> simp [asSequence]

theorem asSequence_raises (value : Json) (m : Message) : RaisesValueErrors (asSequence value (typeError m)) := by
  cases value with
  | arr items => exact RaisesOnly.ok items
  | _ => exact RaisesOnly.error rfl

/-- `isinstance(value, bool)`, else `e` -/
def asBool (value : Json) (e : PyError) : Py Bool :=
  match value with
  | .bool b => .ok b
  | _ => .error e

@[simp] theorem asBool_eq_ok {value : Json} {e : PyError} {b : Bool} :
    asBool value e = .ok b ↔ value = .bool b := by
  cases value <;> simp [asBool]

theorem asBool_raises (value : Json) (m : Message) : RaisesValueErrors (asBool value (typeError m)) := by
  cases value with
  | bool b => exact RaisesOnly.ok b
  | _ => exact RaisesOnly.error rfl

/-- A member that is validated only if it `is not None`. -/
def unlessNone {α : Type} (value : Json) (f : Json → Py α) : Py (Option α) :=
  match value with
  | .null => .ok none
  | value => some <$> f value

theorem unlessNone_eq_ok {α : Type} {value : Json} {f : Json → Py α} {wire : α → Json}
    (hf : ∀ v a, f v = .ok a ↔ v = wire a) (hn : ∀ a, wire a ≠ .null) {r : Option α} :
    unlessNone value f = .ok r ↔ value = Json.nullable wire r := by
  cases value with
  | null =>
    cases r with
    | none => simp [unlessNone]
    | some a => simpa [unlessNone] using (hn a).symm
  | _ => cases r <;> simp [unlessNone, map_eq_ok, hf]

theorem unlessNone_raises {α : Type} {value : Json} {f : Json → Py α} {E : PyError → Prop}
    (hf : RaisesOnly E (f value)) : RaisesOnly E (unlessNone value f) := by
  cases value with
  | null => exact RaisesOnly.ok none
  | _ => exact hf.map

/-! ## Patterns -/

def isAlnum (c : CodePoint) : Bool := isUpper c || isLower c || isDigit c

/-- `[A-Za-z0-9._~-]` -/
def isTokenChar (c : CodePoint) : Bool := isAlnum c || c ∈ str "._~-"

/-- `^[A-Za-z0-9](?:[A-Za-z0-9._~-]{0,510}[A-Za-z0-9])?$` -/
def tokenRe : Str → Bool
  | [] => false
  | c :: rest =>
    isAlnum c && (rest.isEmpty ||
      (rest.dropLast.length ≤ 510 && rest.dropLast.all isTokenChar && rest.getLast?.any isAlnum))

/-- `[0-9a-f]` -/
def isHexDigit (c : CodePoint) : Bool := isDigit c || inRange 'a' 'f' c

/-- `^sha256:[0-9a-f]{64}$` -/
def digestRe (s : Str) : Bool :=
  s.take 7 == str "sha256:" && (s.drop 7).length == 64 && (s.drop 7).all isHexDigit

/-- `[^/\s]` -/
def isMediaChar (c : CodePoint) : Bool := c != codePoint '/' && !isSpace c

/-- `^[^/\s]+/[^/\s]+$` -/
def mediaTypeRe (s : Str) : Bool :=
  match s.dropWhile (· != codePoint '/') with
  | [] => false
  | _ :: subtype =>
    let type := s.takeWhile (· != codePoint '/')
    !type.isEmpty && type.all isMediaChar && !subtype.isEmpty && subtype.all isMediaChar

/-- `^[0-9]{4}-[0-9]{2}-[0-9]{2}T[0-9]{2}:[0-9]{2}:[0-9]{2}\.[0-9]{6}Z$` -/
def timestampRe (s : Str) : Bool := (scan DateTime.template s).isSome

/-! ## Strings -/

/-- Non-empty text of at most `maximum` UTF-8 bytes with no control character. -/
def IsBounded (maximum : Nat) (s : Str) : Prop :=
  s ≠ [] ∧ (∃ n ∈ utf8Length s, n ≤ maximum) ∧ s.any isControl = false

theorem IsBounded.encodable {maximum : Nat} {s : Str} (h : IsBounded maximum s) : Encodable s := by
  obtain ⟨-, ⟨n, hn, -⟩, -⟩ := h
  exact encodable_of_utf8Length hn

theorem IsBounded.length_le {maximum : Nat} {s : Str} (h : IsBounded maximum s) : s.length ≤ maximum := by
  obtain ⟨-, ⟨n, hn, hle⟩, -⟩ := h
  exact (length_le_utf8Length hn).trans hle

abbrev BoundedString (maximum : Nat) := {s : Str // IsBounded maximum s}

def boundedString (value : Json) (field : String) (maximum : Nat := 512) : Py (BoundedString maximum) :=
  match value with
  | .str s =>
    if h₁ : s = [] then .error (valueError (field ++ " must be a non-empty string" : String))
    else match h₂ : utf8Length s with
      | none => .error (.builtin .unicodeEncodeError [.foreign])
      | some n =>
        if h₃ : maximum < n then
          .error (valueError (field ++ " exceeds " ++ toString maximum ++ " UTF-8 bytes" : String))
        else if h₄ : s.any isControl then
          .error (valueError (field ++ " contains a control character" : String))
        else .ok ⟨s, h₁, ⟨n, h₂, Nat.le_of_not_lt h₃⟩, by simpa using h₄⟩
  | _ => .error (valueError (field ++ " must be a non-empty string" : String))

theorem boundedString_eq_ok {value : Json} {field : String} {maximum : Nat}
    {s : BoundedString maximum} : boundedString value field maximum = .ok s ↔ value = .str s.val := by
  obtain ⟨s, h₁, ⟨n, h₂, h₃⟩, h₄⟩ := s
  cases value with
  | str s' =>
    unfold boundedString
    constructor
    · intro h
      dsimp only at h
      split at h
      · cases h
      · split at h
        · cases h
        · split at h
          · cases h
          · split at h
            · cases h
            · cases h; rfl
    · intro h
      cases h
      dsimp only
      rw [dif_neg h₁]
      split
      · next hn => rw [hn] at h₂; cases h₂
      · next m hm =>
        obtain rfl : m = n := by rw [hm] at h₂; exact Option.some.inj h₂
        rw [dif_neg (Nat.not_lt.mpr h₃), dif_neg (by simp [h₄])]
  | _ => simp [boundedString]

theorem boundedString_raises (value : Json) (field : String) (maximum : Nat) :
    RaisesValueErrors (boundedString value field maximum) := by
  intro e he
  unfold boundedString at he
  split at he
  · split at he
    · cases he; rfl
    · split at he
      · cases he; rfl
      · split at he
        · cases he; rfl
        · split at he <;> cases he
          rfl
  · cases he; rfl

abbrev Token := {s : Str // tokenRe s = true}

def token (value : Json) (field : String) (maximum : Nat := 512) : Py Token := do
  let result ← boundedString value field maximum
  if h : tokenRe result.val then .ok ⟨result.val, h⟩
  else .error (valueError (field ++ " must be an opaque token, not a URL or physical locator" : String))

theorem isAlnum_ascii {c : CodePoint} (h : isAlnum c = true) : 32 ≤ c.val ∧ c.val < 127 := by
  simp only [isAlnum, isUpper, isLower, isDigit, Bool.or_eq_true, inRange_eq_true] at h
  have h1 : 'A'.toNat = 65 := rfl
  have h2 : 'Z'.toNat = 90 := rfl
  have h3 : 'a'.toNat = 97 := rfl
  have h4 : 'z'.toNat = 122 := rfl
  have h5 : '0'.toNat = 48 := rfl
  have h6 : '9'.toNat = 57 := rfl
  omega

theorem isTokenChar_ascii {c : CodePoint} (h : isTokenChar c = true) : 32 ≤ c.val ∧ c.val < 127 := by
  rw [isTokenChar, Bool.or_eq_true, decide_eq_true_eq] at h
  rcases h with h | h
  · exact isAlnum_ascii h
  · obtain ⟨d, hd, rfl⟩ := List.mem_map.mp h
    have hall : ("._~-".toList.all fun d => decide (32 ≤ d.toNat ∧ d.toNat < 127)) = true := by decide
    exact of_decide_eq_true (List.all_eq_true.mp hall d hd)

/-- What holds of all characters but the last and of the last holds of all. -/
theorem forall_mem_of_dropLast {s : Str} {p : CodePoint → Prop} (h : ∀ c ∈ s.dropLast, p c)
    (hlast : ∀ c, s.getLast? = some c → p c) : ∀ c ∈ s, p c := by
  intro c hc
  have hne := List.ne_nil_of_mem hc
  rw [← List.dropLast_append_getLast hne] at hc
  rcases List.mem_append.mp hc with hc | hc
  · exact h c hc
  · rw [List.mem_singleton] at hc
    exact hlast c (hc ▸ List.getLast?_eq_some_getLast hne)

def exampleToken : Token := ⟨"p_a", by decide⟩

/-- A token is at most 512 printable ASCII characters. -/
theorem tokenRe_spec {s : Str} (h : tokenRe s = true) :
    s ≠ [] ∧ s.length ≤ 512 ∧ ∀ c ∈ s, 32 ≤ c.val ∧ c.val < 127 := by
  cases s with
  | nil => cases h
  | cons c rest =>
    rw [tokenRe, Bool.and_eq_true] at h
    obtain ⟨hc, h⟩ := h
    refine ⟨List.cons_ne_nil _ _, ?_⟩
    cases hr : rest.isEmpty with
    | true =>
      rw [List.isEmpty_iff] at hr
      subst hr
      exact ⟨by simp, by simpa using isAlnum_ascii hc⟩
    | false =>
      rw [hr, Bool.false_or, Bool.and_eq_true, Bool.and_eq_true, decide_eq_true_eq] at h
      obtain ⟨⟨hlen, hmid⟩, hlast⟩ := h
      constructor
      · rw [List.length_dropLast] at hlen
        simp only [List.length_cons]
        omega
      · refine List.forall_mem_cons.mpr ⟨isAlnum_ascii hc, forall_mem_of_dropLast ?_ fun d hd => ?_⟩
        · exact fun d hd => isTokenChar_ascii (List.all_eq_true.mp hmid d hd)
        · rw [hd, Option.any_some] at hlast
          exact isAlnum_ascii hlast

/-- A first character of `[A-Za-z0-9]` before token characters of which the last is of `[A-Za-z0-9]`. -/
theorem tokenRe_cons {c : CodePoint} {s : Str} (hc : isAlnum c = true) (hlen : s.length ≤ 511)
    (hs : ∀ d ∈ s, isTokenChar d = true) (hlast : ∀ d ∈ s.getLast?, isAlnum d = true) : tokenRe (c :: s) = true := by
  rw [tokenRe, hc, Bool.true_and]
  cases hl : s.getLast? with
  | none =>
    rw [List.getLast?_eq_none_iff.mp hl]
    rfl
  | some d =>
    have hmid : s.dropLast.all isTokenChar = true :=
      List.all_eq_true.mpr fun e he => hs e ((List.dropLast_sublist s).subset he)
    have hcount : s.dropLast.length ≤ 510 := by
      rw [List.length_dropLast]
      omega
    have hend : isAlnum d = true := hlast d hl
    rw [hmid, decide_eq_true hcount, Option.any_some, hend]
    exact Bool.or_true _

theorem Token.encodable (t : Token) : Encodable t.val :=
  encodable_ascii fun c hc => lt_trans ((tokenRe_spec t.2).2.2 c hc).2 (by decide)

/-- Printable ASCII text meets every bound on its length. -/
theorem isBounded_of_ascii {s : Str} {maximum : Nat} (hne : s ≠ []) (hlen : s.length ≤ maximum)
    (h : ∀ c ∈ s, 32 ≤ c.val ∧ c.val < 127) : IsBounded maximum s := by
  refine ⟨hne, ⟨s.length, utf8Length_ascii fun c hc => ?_, hlen⟩, ?_⟩
  · have := h c hc
    omega
  · rw [List.any_eq_false]
    intro c hc
    have := h c hc
    simp only [isControl, Bool.or_eq_true, decide_eq_true_eq, beq_iff_eq]
    omega

theorem token_eq_ok {value : Json} {field : String} {t : Token} :
    token value field = .ok t ↔ value = .str t.val := by
  obtain ⟨s, hs⟩ := t
  unfold token
  rw [bind_eq_ok]
  constructor
  · rintro ⟨r, hr, h⟩
    split at h
    · cases h
      exact boundedString_eq_ok.mp hr
    · cases h
  · intro h
    obtain ⟨h1, h2, h3⟩ := tokenRe_spec hs
    exact ⟨⟨s, isBounded_of_ascii h1 h2 h3⟩, boundedString_eq_ok.mpr h, dif_pos hs⟩

theorem token_raises (value : Json) (field : String) : RaisesValueErrors (token value field) := by
  refine (boundedString_raises value field 512).bind fun r _ => ?_
  split
  · exact RaisesOnly.ok _
  · exact RaisesOnly.error rfl

abbrev Digest := {s : Str // digestRe s = true}

def digest (value : Json) (field : String := "digest") : Py Digest :=
  match value with
  | .str s =>
    if h : digestRe s then .ok ⟨s, h⟩
    else .error (valueError (field ++ " must be sha256:<lowercase hex>" : String))
  | _ => .error (valueError (field ++ " must be sha256:<lowercase hex>" : String))

theorem digest_eq_ok {value : Json} {field : String} {d : Digest} :
    digest value field = .ok d ↔ value = .str d.val := by
  obtain ⟨s, hs⟩ := d
  cases value with
  | str s' =>
    unfold digest
    dsimp only
    constructor
    · intro h
      split at h <;> cases h
      rfl
    · intro h
      cases h
      exact dif_pos hs
  | _ => simp [digest]

theorem digest_raises (value : Json) (field : String) : RaisesValueErrors (digest value field) := by
  intro e he
  unfold digest at he
  split at he
  · split at he <;> cases he
    rfl
  · cases he; rfl

abbrev MediaType := {s : BoundedString 255 // mediaTypeRe s.val = true}

def mediaType (value : Json) : Py MediaType := do
  let result ← boundedString value "media type" 255
  if h : mediaTypeRe result.val then .ok ⟨result, h⟩
  else .error (valueError "media type must contain one type/subtype separator")

theorem mediaType_eq_ok {value : Json} {m : MediaType} :
    mediaType value = .ok m ↔ value = .str m.val.val := by
  obtain ⟨s, hs⟩ := m
  unfold mediaType
  rw [bind_eq_ok]
  constructor
  · rintro ⟨r, hr, h⟩
    split at h
    · cases h
      exact boundedString_eq_ok.mp hr
    · cases h
  · intro h
    exact ⟨s, boundedString_eq_ok.mpr h, dif_pos hs⟩

theorem mediaType_raises (value : Json) : RaisesValueErrors (mediaType value) := by
  refine (boundedString_raises value _ 255).bind fun r _ => ?_
  split
  · exact RaisesOnly.ok _
  · exact RaisesOnly.error rfl

/-! ## Integers -/

def nonNegativeInt (value : Json) (field : String) : Py Nat :=
  match value with
  | .int (.ofNat n) => .ok n
  | _ => .error (valueError (field ++ " must be a non-negative integer" : String))

theorem nonNegativeInt_eq_ok {value : Json} {field : String} {n : Nat} :
    nonNegativeInt value field = .ok n ↔ value = .int n := by
  unfold nonNegativeInt
  split
  · next m => simp
  · next h =>
    simp only [reduceCtorEq, false_iff]
    rintro rfl
    exact h n rfl

theorem nonNegativeInt_raises (value : Json) (field : String) :
    RaisesValueErrors (nonNegativeInt value field) := by
  intro e he
  unfold nonNegativeInt at he
  split at he <;> cases he
  rfl

abbrev Positive := {n : Nat // 0 < n}

def positiveInt (value : Json) (field : String) : Py Positive := do
  let result ← nonNegativeInt value field
  if h : 0 < result then .ok ⟨result, h⟩
  else .error (valueError (field ++ " must be positive" : String))

theorem positiveInt_eq_ok {value : Json} {field : String} {n : Positive} :
    positiveInt value field = .ok n ↔ value = .int n.val := by
  obtain ⟨n, hn⟩ := n
  simp only [positiveInt, bind_eq_ok, nonNegativeInt_eq_ok]
  constructor
  · rintro ⟨m, h, h'⟩
    split at h'
    · cases h'
      exact h
    · cases h'
  · intro h
    exact ⟨n, h, dif_pos hn⟩

theorem positiveInt_raises (value : Json) (field : String) :
    RaisesValueErrors (positiveInt value field) := by
  refine (nonNegativeInt_raises value field).bind fun n _ => ?_
  split
  · exact RaisesOnly.ok _
  · exact RaisesOnly.error rfl

/-! ## Timestamps -/

/-- What a timestamp field is given: a JSON value or a `datetime`. -/
inductive TimeValue where
  | json (value : Json)
  | datetime (value : DateTime)

/-- `value is None` -/
def TimeValue.isNone : TimeValue → Bool
  | .json value => value.isNull
  | .datetime _ => false

def utcTimestamp (value : TimeValue) (field : String) : Py Str :=
  match value with
  | .datetime d => do
    let offset ← d.awareOffset (valueError (field ++ " must be timezone-aware" : String))
    let utc ← d.toUtc offset
    return utc.strftime
  | .json (.str s) => do
    raiseIf (timestampRe s = false)
      (valueError (field ++ " must be UTC RFC 3339 with six fractional digits" : String))
    let _ ← (DateTime.strptime s).mapError
      fun _ => valueError (field ++ " is not a valid UTC instant" : String)
    return s
  | .json _ =>
    .error (valueError (field ++ " must be UTC RFC 3339 with six fractional digits" : String))

/-- A timestamp text that `utcTimestamp` accepts. -/
def IsTimestamp (s : Str) : Prop := ∃ d, DateTime.strptime s = .ok d

theorem IsTimestamp.encodable {s : Str} (h : IsTimestamp s) : Encodable s := by
  obtain ⟨d, hd⟩ := h
  exact encodable_ascii (DateTime.ascii_of_strptime hd)

theorem timestampRe_of_strptime {s : Str} {d : DateTime} (h : DateTime.strptime s = .ok d) :
    timestampRe s = true := by
  unfold timestampRe
  unfold DateTime.strptime at h
  split at h
  · next hs => rw [hs]; rfl
  · cases h

theorem utcTimestamp_str_eq_ok {s r : Str} {field : String} :
    utcTimestamp (.json (.str s)) field = .ok r ↔ r = s ∧ IsTimestamp s := by
  simp only [utcTimestamp, bind_eq_ok, raiseIf_eq_ok, mapError_eq_ok, pure_eq_ok, IsTimestamp]
  constructor
  · rintro ⟨-, -, d, hd, rfl⟩
    exact ⟨rfl, d, hd⟩
  · rintro ⟨rfl, d, hd⟩
    exact ⟨(), by simp [timestampRe_of_strptime hd], d, hd, rfl⟩

theorem utcTimestamp_json_eq_ok {value : Json} {r : Str} {field : String} :
    utcTimestamp (.json value) field = .ok r ↔ value = .str r ∧ IsTimestamp r := by
  cases value with
  | str s =>
    rw [utcTimestamp_str_eq_ok]
    constructor
    · rintro ⟨rfl, h⟩; exact ⟨rfl, h⟩
    · rintro ⟨h, h'⟩
      cases h
      exact ⟨rfl, h'⟩
  | _ => simp [utcTimestamp]

theorem utcTimestamp_json_raises (value : Json) (field : String) :
    RaisesValueErrors (utcTimestamp (.json value) field) := by
  cases value with
  | str s =>
    refine (raiseIf_raises _ _).bind fun _ _ => RaisesOnly.bind ?_ fun _ _ => RaisesOnly.pure _
    intro e he
    obtain ⟨e', -, rfl⟩ := mapError_eq_error.mp he
    rfl
  | _ => exact RaisesOnly.error rfl

end ObjectCommon
