import ObjectCommon.Packages
import ObjectCommon.Validation.Mappings

/-!
# Immutability and retention inputs

* `ImmutabilityRequest`, `RetentionRequest` : what a put may ask for;
* `*.fromMapping_eq_ok` : the documents of a request are what it writes, up to the order of the
  fields;
* `parseObjectProfile` : the profile of an Object Resource.
-/

namespace ObjectCommon

open Outcome PyError

/-! ## Immutability -/

inductive Mutability where
  | immutable
  | mutable
  deriving DecidableEq

def Mutability.value : Mutability → Str
  | .immutable => "immutable"
  | .mutable => "mutable"

theorem Mutability.value_inj {a b : Mutability} : a.value = b.value ↔ a = b := by
  cases a <;> cases b <;> simp [value]

/-- `mutability not in {"immutable", "mutable"}`; a list or a mapping cannot be looked up in a set. -/
def mutability (value : Json) : Py Mutability :=
  match value with
  | .arr _ => .error (.builtin .typeError [.foreign])
  | .obj _ => .error (.builtin .typeError [.foreign])
  | value =>
    if value.isStr "immutable" then .ok .immutable
    else if value.isStr "mutable" then .ok .mutable
    else .error (valueError "mutability must be immutable or mutable")

theorem mutability_eq_ok {value : Json} {m : Mutability} :
    mutability value = .ok m ↔ value = .str m.value := by
  cases value with
  | str s =>
    unfold mutability
    dsimp only
    simp only [Json.isStr_iff, Json.str.injEq]
    constructor
    · intro h
      split at h
      · cases h; assumption
      · split at h
        · cases h; assumption
        · cases h
    · rintro rfl
      cases m <;> simp [Mutability.value]
  | _ => simp [mutability, Json.isStr]

theorem mutability_raises (value : Json) : RaisesValueErrors (mutability value) := by
  unfold mutability
  split
  · exact RaisesOnly.error rfl
  · exact RaisesOnly.error rfl
  · split
    · exact RaisesOnly.ok _
    · split
      · exact RaisesOnly.ok _
      · exact RaisesOnly.error rfl

structure ImmutabilityRequest where
  mutability : Mutability
  publishOnce : Bool
  valid : publishOnce = true → mutability = .immutable

namespace ImmutabilityRequest

/-- `ImmutabilityRequest(mutability, publish_once)` -/
def new (mutabilityValue publishOnce : Json) : Py ImmutabilityRequest := do
  let mutability ← ObjectCommon.mutability mutabilityValue
  let publishOnce ← asBool publishOnce (typeError "publish_once must be boolean")
  if h : publishOnce = true → mutability = .immutable then .ok ⟨mutability, publishOnce, h⟩
  else .error (valueError "publish-once requires immutable Object bytes")

def toDict (r : ImmutabilityRequest) : Object :=
  [("mutability", .str r.mutability.value), ("publishOnce", .bool r.publishOnce)]

def fromMapping (value : Object) : Py ImmutabilityRequest := do
  exactFields value ["mutability", "publishOnce"]
  let mutability ← getItem value "mutability"
  let publishOnce ← getItem value "publishOnce"
  new mutability publishOnce

theorem new_eq_ok {m p : Json} {r : ImmutabilityRequest} :
    new m p = .ok r ↔ m = .str r.mutability.value ∧ p = .bool r.publishOnce := by
  obtain ⟨m', p', hv⟩ := r
  simp only [new, bind_eq_ok, mutability_eq_ok, asBool_eq_ok]
  constructor
  · rintro ⟨_, hm, _, hp, h⟩
    split at h
    · cases h
      exact ⟨hm, hp⟩
    · cases h
  · rintro ⟨hm, hp⟩
    exact ⟨m', hm, p', hp, dif_pos hv⟩

theorem new_raises (m p : Json) : RaisesValueErrors (new m p) := by
  refine (mutability_raises m).bind fun _ _ => (asBool_raises _ _).bind fun _ _ => ?_
  split
  · exact RaisesOnly.ok _
  · exact RaisesOnly.error rfl

/-- The documents a request is read from are what it writes. -/
theorem fromMapping_eq_ok {value : Object} {r : ImmutabilityRequest} :
    fromMapping value = .ok r ↔ Dict.Same value r.toDict := by
  rw [← exactFields_and_get?_iff (u := ()) ["mutability", "publishOnce"] rfl]
  simp only [fromMapping, bind_eq_ok, exists_unit, getItem_eq_ok, new_eq_ok]
  constructor
  · rintro ⟨hf, _, hm, _, hp, rfl, rfl⟩
    exact ⟨hf, by simp [toDict, hm, hp]⟩
  · rintro ⟨hf, h⟩
    simp [toDict] at h
    exact ⟨hf, _, h.1, _, h.2, rfl, rfl⟩

theorem fromMapping_raises (value : Object) : RaisesValueErrors (fromMapping value) :=
  (exactFields_raises _ _ _).bind fun _ hf =>
    (getItem_raises hf (by simp)).bind fun _ _ =>
    (getItem_raises hf (by simp)).bind fun _ _ => new_raises _ _

theorem toDict_wellFormed (r : ImmutabilityRequest) : Json.WellFormed (.obj r.toDict) :=
  .obj (by simp [toDict]) (by simp [toDict, Json.WellFormed.str, Json.WellFormed.bool])

end ImmutabilityRequest

/-! ## Retention -/

/-- `utc_timestamp` of a deadline that is not `None` -/
def deadline : TimeValue → Py (Option Str)
  | .json .null => .ok none
  | value => some <$> utcTimestamp value "retention deadline"

theorem deadline_json_eq_ok {value : Json} {r : Option Str} :
    deadline (.json value) = .ok r ↔
      value = Json.nullable .str r ∧ ∀ s ∈ r, IsTimestamp s := by
  cases value with
  | null => cases r <;> simp [deadline]
  | str s =>
    rw [deadline, map_eq_ok]
    · simp only [utcTimestamp_str_eq_ok]
      cases r with
      | none => simp
      | some s' =>
        simp only [Option.some.injEq, Json.nullable_some, Json.str.injEq, Option.mem_def, forall_eq']
        constructor
        · rintro ⟨_, ⟨rfl, h⟩, rfl⟩
          exact ⟨rfl, h⟩
        · rintro ⟨rfl, h⟩
          exact ⟨s, ⟨rfl, h⟩, rfl⟩
    · simp
  | _ => cases r <;> simp [deadline, utcTimestamp]

theorem deadline_ne_none {value : TimeValue} {r : Option Str} (h : deadline value = .ok r)
    (hv : value.isNone = false) : r ≠ none := by
  unfold deadline at h
  split at h
  · cases hv
  · obtain ⟨s, -, rfl⟩ := map_eq_ok.mp h
    simp

theorem deadline_json_raises (value : Json) : RaisesValueErrors (deadline (.json value)) := by
  unfold deadline
  split
  · exact RaisesOnly.ok none
  · exact (utcTimestamp_json_raises value _).map

structure RetentionRequest where
  retainUntil : Option Str
  policy : Option (BoundedString 256)
  requireEnforcement : Bool
  valid : retainUntil ≠ none ∨ policy ≠ none

namespace RetentionRequest

def wirePolicy : Option (BoundedString 256) → Json := Json.nullable fun s => .str s.val

def policy? (value : Json) : Py (Option (BoundedString 256)) :=
  unlessNone value (boundedString · "retention policy" 256)

theorem policy?_eq_ok {value : Json} {r : Option (BoundedString 256)} :
    policy? value = .ok r ↔ value = wirePolicy r :=
  unlessNone_eq_ok (fun _ _ => boundedString_eq_ok) (by simp)

theorem policy?_ne_none {value : Json} {r : Option (BoundedString 256)} (h : policy? value = .ok r)
    (hv : value.isNull = false) : r ≠ none := by
  rintro rfl
  rw [policy?_eq_ok.mp h] at hv
  cases hv

theorem valid_of_given {retainUntil : TimeValue} {policy : Json} {d : Option Str}
    {p : Option (BoundedString 256)} (h : ¬ (retainUntil.isNone && policy.isNull) = true)
    (hd : deadline retainUntil = .ok d) (hp : policy? policy = .ok p) : d ≠ none ∨ p ≠ none := by
  rw [Bool.and_eq_true, not_and_or, Bool.not_eq_true, Bool.not_eq_true] at h
  exact h.imp (deadline_ne_none hd) (policy?_ne_none hp)

/-- `RetentionRequest(retain_until, policy, require_enforcement)` -/
def new (retainUntil : TimeValue) (policy requireEnforcement : Json) : Py RetentionRequest :=
  if h : retainUntil.isNone && policy.isNull then
    .error (valueError "retention intent requires retain_until or a logical policy")
  else do
    let ⟨d, hd⟩ ← attach (deadline retainUntil)
    let ⟨p, hp⟩ ← attach (policy? policy)
    let requireEnforcement ← asBool requireEnforcement (typeError "require_enforcement must be boolean")
    return ⟨d, p, requireEnforcement, valid_of_given h hd hp⟩

def toDict (r : RetentionRequest) : Object :=
  [("retainUntil", Json.nullable .str r.retainUntil), ("policy", wirePolicy r.policy),
    ("requireEnforcement", .bool r.requireEnforcement)]

def fromMapping (value : Object) : Py RetentionRequest := do
  exactFields value ["retainUntil", "policy", "requireEnforcement"]
  let retainUntil ← getItem value "retainUntil"
  let policy ← getItem value "policy"
  let requireEnforcement ← getItem value "requireEnforcement"
  new (.json retainUntil) policy requireEnforcement

def permitsDelete (r : RetentionRequest) (now : DateTime) : Py Bool :=
  match r.retainUntil with
  | none => .ok false
  | some retainUntil => do
    let offset ← now.awareOffset (valueError "deletion check time must be timezone-aware")
    let deadline ← DateTime.strptime retainUntil
    let selected ← now.toUtc offset
    return deadline.sinceOrigin ≤ selected.sinceOrigin

def requireDeleteAllowed (r : RetentionRequest) (now : DateTime) : Py Unit := do
  let permitted ← r.permitsDelete now
  raiseIf (permitted = false) RetentionDenied

theorem requireDeleteAllowed_eq_ok {r : RetentionRequest} {now : DateTime} :
    r.requireDeleteAllowed now = .ok () ↔ r.permitsDelete now = .ok true := by
  unfold requireDeleteAllowed
  simp only [bind_eq_ok, raiseIf_eq_ok, Bool.not_eq_false, exists_eq_right]

/-- What is built keeps the text of its deadline. -/
theorem new_eq_ok {t : TimeValue} {p e : Json} {r : RetentionRequest} :
    new t p e = .ok r ↔ deadline t = .ok r.retainUntil ∧ p = wirePolicy r.policy ∧ e = .bool r.requireEnforcement := by
  obtain ⟨t', p', e', hv⟩ := r
  rw [← policy?_eq_ok]
  unfold new
  split
  · next hn =>
    rw [Bool.and_eq_true, Json.isNull_iff] at hn
    obtain ⟨ht, rfl⟩ := hn
    refine iff_of_false nofun ?_
    rintro ⟨hd, hp, -⟩
    have hp' : p' = none := (Json.nullable_eq_null (by simp)).mp (policy?_eq_ok.mp hp).symm
    have ht' : t' = none := by
      cases t with
      | datetime d => cases ht
      | json value =>
        obtain rfl := Json.isNull_iff.mp ht
        exact (Except.ok.inj hd).symm
    exact hv.elim (absurd ht') (absurd hp')
  · simp only [bind_eq_ok, attach_eq_ok, asBool_eq_ok, pure_eq_ok]
    constructor
    · rintro ⟨_, hu, _, hp, _, he, h⟩
      cases h
      exact ⟨hu, hp, he⟩
    · rintro ⟨hu, hp, he⟩
      exact ⟨⟨t', hu⟩, hu, ⟨p', hp⟩, hp, e', he, rfl⟩

theorem new_json_eq_ok {u p e : Json} {r : RetentionRequest} :
    new (.json u) p e = .ok r ↔
      (u = Json.nullable .str r.retainUntil ∧ ∀ s ∈ r.retainUntil, IsTimestamp s) ∧
        p = wirePolicy r.policy ∧ e = .bool r.requireEnforcement := by
  rw [new_eq_ok, deadline_json_eq_ok]

/-- The documents a request is read from are what it writes. -/
theorem fromMapping_eq_ok {value : Object} {r : RetentionRequest} :
    fromMapping value = .ok r ↔
      Dict.Same value r.toDict ∧ ∀ s ∈ r.retainUntil, IsTimestamp s := by
  rw [← exactFields_and_get?_iff (u := ()) ["retainUntil", "policy", "requireEnforcement"] rfl]
  simp only [fromMapping, bind_eq_ok, exists_unit, getItem_eq_ok, new_json_eq_ok]
  constructor
  · rintro ⟨hf, _, hu, _, hp, _, he, ⟨rfl, ht⟩, rfl, rfl⟩
    exact ⟨⟨hf, by simp [toDict, hu, hp, he]⟩, ht⟩
  · rintro ⟨⟨hf, h⟩, ht⟩
    simp [toDict] at h
    exact ⟨hf, _, h.1, _, h.2.1, _, h.2.2, ⟨rfl, ht⟩, rfl, rfl⟩

theorem new_json_raises (u p e : Json) : RaisesValueErrors (new (.json u) p e) := by
  unfold new
  split
  · exact RaisesOnly.error rfl
  · exact (deadline_json_raises u).attach.bind fun _ _ =>
      (unlessNone_raises (boundedString_raises _ _ _)).attach.bind fun _ _ =>
      (asBool_raises _ _).bind fun _ _ => RaisesOnly.pure _

theorem fromMapping_raises (value : Object) : RaisesValueErrors (fromMapping value) :=
  (exactFields_raises _ _ _).bind fun _ hf =>
    (getItem_raises hf (by simp)).bind fun _ _ =>
    (getItem_raises hf (by simp)).bind fun _ _ =>
    (getItem_raises hf (by simp)).bind fun _ _ => new_json_raises _ _ _

theorem toDict_wellFormed (r : RetentionRequest) : Json.WellFormed (.obj r.toDict) := by
  have hu : Json.WellFormed (Json.nullable .str r.retainUntil) :=
    Json.wellFormed_nullable (fun _ => .str _) _
  have hp : Json.WellFormed (wirePolicy r.policy) := Json.wellFormed_nullable (fun _ => .str _) _
  exact .obj (by simp [toDict]) (by simp [toDict, hu, hp, Json.WellFormed.bool])

end RetentionRequest

/-! ## Resource profiles -/

variable (P : Packages)

/-- `parse_object_profile` of a mapping -/
def parseObjectProfile (value : Object) : Py P.ObjectProfile := do
  let result ← P.profileFromMapping value
  match P.asObjectProfile result with
  | some profile => return profile
  | none => .error (valueError "Object Resource profile must be object, artifact, or media")

variable {P}

theorem parseObjectProfile_eq_ok {value : Object} {profile : P.ObjectProfile} :
    parseObjectProfile P value = .ok profile ↔
      ∃ q, P.profileFromMapping value = .ok q ∧ P.asObjectProfile q = some profile := by
  rw [parseObjectProfile, bind_eq_ok]
  refine exists_congr fun q => and_congr_right fun _ => ?_
  cases P.asObjectProfile q <;> simp [pure_eq_ok]

theorem parseObjectProfile_raises {E : PyError → Prop} (hP : P.RaisesDocumented E)
    (hE : ∀ e, IsTypeOrValueError e → E e) (value : Object) : RaisesOnly E (parseObjectProfile P value) := by
  refine (hP.profileFromMapping value).bind fun q _ => ?_
  split
  · exact RaisesOnly.pure _
  · exact RaisesOnly.error (hE _ rfl)

/-- The document that a profile writes parses to it. -/
theorem parseObjectProfile_toDict (hP : P.RoundTrips) (profile : P.ObjectProfile) :
    parseObjectProfile P (P.profileToDict profile) = .ok profile :=
  parseObjectProfile_eq_ok.mpr (hP.profileToDict profile)

end ObjectCommon
