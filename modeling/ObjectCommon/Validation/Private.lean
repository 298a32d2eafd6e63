import ObjectCommon.Validation.Scalars

/-!
# Private configuration is rejected

A key is private when case folding and the removal of everything outside `a-z0-9` leave one of the
private names.

* `rejectPrivateConfiguration_eq_ok` : a value passes exactly when no key at any depth is private;
* `rejectPrivateConfiguration_raises` : otherwise `ValueError` is raised;
* `Respelling` : a key in another case or with punctuation put in (`Respelling.foldedForm_eq`);
* `hasPrivateKey_respelled` : spelling a value's keys another way changes nothing.
-/

namespace ObjectCommon

open Outcome PyError

/-- `_PRIVATE_KEYS` -/
def privateKeys : List Str :=
  ["accesskey", "acl", "adapter", "adapterid", "bucket", "cloudcredential", "credential", "credentials",
    "endpoint", "engine", "engineid", "kmskey", "lifecycle", "password", "physicalkey",
    "physicallocator", "region", "repository", "secret", "secretkey", "storagebinding"]

mutual

def rejectPrivateConfiguration (value : Json) (path : Str := "arguments") : Py Unit :=
  match value with
  | .obj entries => rejectPrivateEntries entries path
  | .arr items => rejectPrivateItems items path 0
  | _ => .ok ()

def rejectPrivateEntries : List (Str × Json) → Str → Py Unit
  | [], _ => .ok ()
  | (key, item) :: rest, path => do
    raiseIf (foldedForm key ∈ privateKeys)
      (valueError [.text (path ++ str "." ++ key ++ str " belongs to private Adapter or IaC configuration")])
    rejectPrivateConfiguration item (path ++ str "." ++ key)
    rejectPrivateEntries rest path

def rejectPrivateItems : List Json → Str → Nat → Py Unit
  | [], _, _ => .ok ()
  | item :: rest, path, index => do
    rejectPrivateConfiguration item (path ++ str "[" ++ str (toString index) ++ str "]")
    rejectPrivateItems rest path (index + 1)

end

/-- A key whose folded form is a private name. -/
def IsPrivate (key : Str) : Prop := foldedForm key ∈ privateKeys

instance : DecidablePred IsPrivate := fun key => by unfold IsPrivate; infer_instance

/-- Some key of some mapping inside the value is private. -/
def HasPrivateKey (v : Json) : Prop := ∃ k, v.HasKey k ∧ IsPrivate k

theorem hasPrivateKey_arr_cons {v : Json} {items : List Json} :
    HasPrivateKey (.arr (v :: items)) ↔ HasPrivateKey v ∨ HasPrivateKey (.arr items) := by
  simp only [HasPrivateKey, Json.hasKey_arr_cons, or_and_right, exists_or]

theorem hasPrivateKey_obj_cons {k : Str} {v : Json} {entries : List (Str × Json)} :
    HasPrivateKey (.obj ((k, v) :: entries)) ↔
      IsPrivate k ∨ HasPrivateKey v ∨ HasPrivateKey (.obj entries) := by
  simp only [HasPrivateKey, Json.hasKey_obj_cons, or_and_right, exists_or, exists_eq_left]

/-- A private key of a mapping is one of its keys or is inside one of its members. -/
theorem hasPrivateKey_obj {d : Object} :
    HasPrivateKey (.obj d) ↔ ∃ e ∈ d, IsPrivate e.1 ∨ HasPrivateKey e.2 := by
  constructor
  · rintro ⟨k, hk, hp⟩
    cases hk with
    | here he => exact ⟨_, he, Or.inl hp⟩
    | entry he hv => exact ⟨_, he, Or.inr ⟨k, hv, hp⟩⟩
  · rintro ⟨e, he, hp | ⟨k, hk, hp⟩⟩
    · exact ⟨e.1, .here he, hp⟩
    · exact ⟨k, .entry he hk, hp⟩

/-- The order of a mapping's entries does not matter. -/
theorem not_hasPrivateKey_same {d d' : Object} (hn : (Dict.keys d).Nodup) (hs : Dict.Same d d')
    (h : ¬ HasPrivateKey (.obj d')) : ¬ HasPrivateKey (.obj d) := by
  rw [hasPrivateKey_obj] at h ⊢
  rintro ⟨e, he, hp⟩
  have hget : Dict.get? d' e.1 = some e.2 := by rw [← hs, ← Dict.mem_iff_get? hn]; exact he
  exact h ⟨e, Dict.mem_of_get? hget, hp⟩

/-- A document has a private key only if a field name is private or a member has one. -/
theorem not_hasPrivateKey_fields {d : Object} (fields : List String) (hd : Dict.keys d = fields.map str)
    (hf : ∀ f ∈ fields, ¬ IsPrivate (str f)) (hv : ∀ e ∈ d, ¬ HasPrivateKey e.2) :
    ¬ HasPrivateKey (.obj d) := by
  rw [hasPrivateKey_obj]
  rintro ⟨e, he, hp | hp⟩
  · have hk : e.1 ∈ Dict.keys d := List.mem_map_of_mem he
    obtain ⟨f, hfm, hfe⟩ := List.mem_map.mp (hd ▸ hk)
    exact hf f hfm (hfe ▸ hp)
  · exact hv e he hp

@[simp] theorem not_hasPrivateKey_str (s : Str) : ¬ HasPrivateKey (.str s) := by simp [HasPrivateKey]

@[simp] theorem not_hasPrivateKey_bool (b : Bool) : ¬ HasPrivateKey (.bool b) := by simp [HasPrivateKey]

@[simp] theorem not_hasPrivateKey_int (n : Int) : ¬ HasPrivateKey (.int n) := by simp [HasPrivateKey]

@[simp] theorem not_hasPrivateKey_null : ¬ HasPrivateKey .null := by simp [HasPrivateKey]

theorem not_hasPrivateKey_nullable {α : Type} {f : α → Json} (h : ∀ a, ¬ HasPrivateKey (f a))
    (o : Option α) : ¬ HasPrivateKey (Json.nullable f o) := by
  cases o with
  | none => exact not_hasPrivateKey_null
  | some a => exact h a

theorem not_hasPrivateKey_strings (l : List Str) : ¬ HasPrivateKey (.arr (l.map .str)) := by
  induction l with
  | nil => simp [HasPrivateKey]
  | cons s l ih =>
    rw [List.map_cons, hasPrivateKey_arr_cons, not_or]
    exact ⟨not_hasPrivateKey_str s, ih⟩

mutual

/-- **A value passes exactly when it has no private key at any depth.** -/
theorem rejectPrivateConfiguration_eq_ok (value : Json) (path : Str) (u : Unit) :
    rejectPrivateConfiguration value path = .ok u ↔ ¬ HasPrivateKey value := by
  cases value with
  | obj entries => exact rejectPrivateEntries_eq_ok entries path u
  | arr items => exact rejectPrivateItems_eq_ok items path 0 u
  | _ => simp [rejectPrivateConfiguration, HasPrivateKey]

theorem rejectPrivateEntries_eq_ok (entries : List (Str × Json)) (path : Str) (u : Unit) :
    rejectPrivateEntries entries path = .ok u ↔ ¬ HasPrivateKey (.obj entries) := by
  cases entries with
  | nil => simp [rejectPrivateEntries, HasPrivateKey]
  | cons e rest =>
    obtain ⟨key, item⟩ := e
    simp only [rejectPrivateEntries, bind_eq_ok, raiseIf_eq_ok, hasPrivateKey_obj_cons, not_or]
    constructor
    · rintro ⟨-, hk, _, hi, hr⟩
      exact ⟨hk, (rejectPrivateConfiguration_eq_ok item _ _).mp hi,
        (rejectPrivateEntries_eq_ok rest _ _).mp hr⟩
    · rintro ⟨hk, hi, hr⟩
      exact ⟨(), hk, (), (rejectPrivateConfiguration_eq_ok item _ _).mpr hi,
        (rejectPrivateEntries_eq_ok rest _ _).mpr hr⟩

theorem rejectPrivateItems_eq_ok (items : List Json) (path : Str) (index : Nat) (u : Unit) :
    rejectPrivateItems items path index = .ok u ↔ ¬ HasPrivateKey (.arr items) := by
  cases items with
  | nil => simp [rejectPrivateItems, HasPrivateKey]
  | cons item rest =>
    simp only [rejectPrivateItems, bind_eq_ok, hasPrivateKey_arr_cons, not_or]
    constructor
    · rintro ⟨_, hi, hr⟩
      exact ⟨(rejectPrivateConfiguration_eq_ok item _ _).mp hi,
        (rejectPrivateItems_eq_ok rest _ _ _).mp hr⟩
    · rintro ⟨hi, hr⟩
      exact ⟨(), (rejectPrivateConfiguration_eq_ok item _ _).mpr hi,
        (rejectPrivateItems_eq_ok rest _ _ _).mpr hr⟩

end

/-- A `ValueError`. -/
def IsValueError (e : PyError) : Prop := ∃ m, e = valueError m

mutual

theorem rejectPrivateConfiguration_raises (value : Json) (path : Str) :
    RaisesOnly IsValueError (rejectPrivateConfiguration value path) := by
  cases value with
  | obj entries => exact rejectPrivateEntries_raises entries path
  | arr items => exact rejectPrivateItems_raises items path 0
  | _ => exact RaisesOnly.ok ()

theorem rejectPrivateEntries_raises (entries : List (Str × Json)) (path : Str) :
    RaisesOnly IsValueError (rejectPrivateEntries entries path) := by
  cases entries with
  | nil => exact RaisesOnly.ok ()
  | cons e rest =>
    obtain ⟨key, item⟩ := e
    exact (RaisesOnly.raiseIf fun _ => ⟨_, rfl⟩).bind fun _ _ =>
      (rejectPrivateConfiguration_raises item _).bind fun _ _ => rejectPrivateEntries_raises rest path

theorem rejectPrivateItems_raises (items : List Json) (path : Str) (index : Nat) :
    RaisesOnly IsValueError (rejectPrivateItems items path index) := by
  cases items with
  | nil => exact RaisesOnly.ok ()
  | cons item rest =>
    exact (rejectPrivateConfiguration_raises item _).bind fun _ _ => rejectPrivateItems_raises rest path _

end

/-- A value is rejected, with a `ValueError`, exactly when it has a private key. -/
theorem rejectPrivateConfiguration_eq_error (value : Json) (path : Str) :
    (∃ m, rejectPrivateConfiguration value path = .error (valueError m)) ↔ HasPrivateKey value := by
  constructor
  · rintro ⟨m, h⟩
    by_contra hn
    rw [(rejectPrivateConfiguration_eq_ok value path ()).mpr hn] at h
    cases h
  · intro h
    rcases ok_or_error (rejectPrivateConfiguration value path) with ⟨u, hu⟩ | ⟨e, he⟩
    · exact absurd h ((rejectPrivateConfiguration_eq_ok value path u).mp hu)
    · obtain ⟨m, rfl⟩ := rejectPrivateConfiguration_raises value path e he
      exact ⟨m, he⟩

/-! ## Spelling -/

/-- `k'` is `k` in another case or with punctuation put in: a character may give way to text with the
same folded form, and characters that fold to nothing may be inserted. -/
inductive Respelling : Str → Str → Prop
  | nil : Respelling [] []
  | recase {c : CodePoint} {t k k' : Str} (h : foldedForm t = foldedAlnum c) (hk : Respelling k k') :
      Respelling (c :: k) (t ++ k')
  | insert {p : CodePoint} {k k' : Str} (h : foldedAlnum p = []) (hk : Respelling k k') :
      Respelling k (p :: k')

theorem foldedForm_append (s t : Str) : foldedForm (s ++ t) = foldedForm s ++ foldedForm t :=
  List.flatMap_append

theorem Respelling.foldedForm_eq {k k' : Str} (h : Respelling k k') : foldedForm k' = foldedForm k := by
  induction h with
  | nil => rfl
  | recase h _ ih => rw [foldedForm_append, h, ih]; rfl
  | insert h _ ih => rw [foldedForm, List.flatMap_cons, h, List.nil_append]; exact ih

theorem Respelling.isPrivate_iff {k k' : Str} (h : Respelling k k') : IsPrivate k' ↔ IsPrivate k := by
  rw [IsPrivate, IsPrivate, h.foldedForm_eq]

/-- `v'` is `v` with its keys, at any depth, spelled another way. -/
inductive Respelled : Json → Json → Prop
  | refl (v : Json) : Respelled v v
  | nil : Respelled (.obj []) (.obj [])
  | cons {k k' : Str} {v v' : Json} {rest rest' : List (Str × Json)} (hk : Respelling k k')
      (hv : Respelled v v') (hr : Respelled (.obj rest) (.obj rest')) :
      Respelled (.obj ((k, v) :: rest)) (.obj ((k', v') :: rest'))
  | item {v v' : Json} {rest rest' : List Json} (hv : Respelled v v')
      (hr : Respelled (.arr rest) (.arr rest')) : Respelled (.arr (v :: rest)) (.arr (v' :: rest'))

/-- Spelling the keys of a value another way makes none private and none public. -/
theorem hasPrivateKey_respelled {v v' : Json} (h : Respelled v v') :
    HasPrivateKey v' ↔ HasPrivateKey v := by
  induction h with
  | refl v => rfl
  | nil => rfl
  | cons hk _ _ ihv ihr =>
    rw [hasPrivateKey_obj_cons, hasPrivateKey_obj_cons, hk.isPrivate_iff, ihv, ihr]
  | item _ _ ihv ihr => rw [hasPrivateKey_arr_cons, hasPrivateKey_arr_cons, ihv, ihr]

end ObjectCommon
