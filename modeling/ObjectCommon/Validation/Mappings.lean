import ObjectCommon.Validation.Scalars

/-!
# Validation of mappings and sequences

* `exactFields` : the fields of a mapping are the required ones and maybe the optional ones;
* `getItem_raises` : a field that was required can be read;
* `exactFields_and_get?_iff` : a document with given fields and values is determined up to order;
* `jsonMapping` : free-form JSON objects pass through;
* `stringMapping` : bounded strings under bounded keys, sorted (`stringMapping_eq_ok`);
* `stringSequence` : distinct bounded strings, sorted (`stringSequence_eq_ok`).
-/

namespace ObjectCommon

open Outcome PyError

/-! ## Fields -/

def missingFields (value : Object) (required : List String) : List Str :=
  (required.map str).filter (· ∉ Dict.keys value)

def unknownFields (value : Object) (required optional : List String) : List Str :=
  (Dict.keys value).filter fun k => k ∉ required.map str ∧ k ∉ optional.map str

def exactFields (value : Object) (required : List String) (optional : List String := []) : Py Unit :=
  let missing := missingFields value required
  let unknown := unknownFields value required optional
  raiseIf (missing ≠ [] ∨ unknown ≠ [])
    (valueError [.text "missing fields ", .reprs (sorted missing), .text "; unknown fields ",
      .reprs (sorted unknown)])

theorem exactFields_eq_ok {value : Object} {required optional : List String} {u : Unit} :
    exactFields value required optional = .ok u ↔
      (∀ k ∈ required, str k ∈ Dict.keys value) ∧
        ∀ k ∈ Dict.keys value, k ∈ required.map str ∨ k ∈ optional.map str := by
  rw [exactFields, raiseIf_eq_ok, not_or, not_not, not_not, missingFields, unknownFields,
    List.filter_eq_nil_iff, List.filter_eq_nil_iff]
  simp only [List.mem_map, decide_eq_true_eq, not_not, not_and_or, forall_exists_index, and_imp,
    forall_apply_eq_imp_iff₂]

theorem exactFields_raises (value : Object) (required optional : List String) :
    RaisesValueErrors (exactFields value required optional) :=
  RaisesOnly.raiseIf fun _ => rfl

/-- The mapping has all the fields. -/
def HasFields (value : Object) (fields : List String) : Prop := ∀ k ∈ fields, str k ∈ Dict.keys value

theorem hasFields_of_exactFields {value : Object} {required optional : List String} {u : Unit}
    (h : exactFields value required optional = .ok u) : HasFields value required :=
  (exactFields_eq_ok.mp h).1

theorem HasFields.set {value : Object} {fields : List String} (h : HasFields value fields) (k : Str)
    (v : Json) : HasFields (Dict.set value k v) fields :=
  fun f hf => Dict.mem_keys_set v (h f hf)

/-- Reading a field that is there raises nothing. -/
theorem HasFields.getItem_raises {value : Object} {fields : List String} (h : HasFields value fields)
    {k : String} (hk : k ∈ fields) {E : PyError → Prop} : RaisesOnly E (getItem value (str k)) := by
  obtain ⟨item, hitem⟩ := Dict.mem_keys_iff.mp (h k hk)
  rw [getItem_eq_ok.mpr hitem]
  exact RaisesOnly.ok item

/-- Reading a required field raises nothing. -/
theorem getItem_raises {value : Object} {required optional : List String} {u : Unit}
    (h : exactFields value required optional = .ok u) {k : String} (hk : k ∈ required)
    {E : PyError → Prop} : RaisesOnly E (getItem value (str k)) :=
  (hasFields_of_exactFields h).getItem_raises hk

/-- A document has exactly the given fields with the values of `d` when it is `d` up to order. -/
theorem exactFields_and_get?_iff {value d : Object} {u : Unit} (fields : List String)
    (hd : Dict.keys d = fields.map str) :
    (exactFields value fields = .ok u ∧
      ∀ k ∈ fields, Dict.get? value (str k) = Dict.get? d (str k)) ↔ Dict.Same value d := by
  rw [exactFields_eq_ok]
  constructor
  · rintro ⟨⟨-, hu⟩, h⟩ k
    by_cases hk : k ∈ fields.map str
    · obtain ⟨f, hf, rfl⟩ := List.mem_map.mp hk
      exact h f hf
    · have hv : k ∉ Dict.keys value := fun hv => by simpa [hk] using hu k hv
      rw [Dict.get?_eq_none_iff.mpr hv, Dict.get?_eq_none_iff.mpr (hd ▸ hk)]
  · intro h
    have hkeys : ∀ k, k ∈ Dict.keys value ↔ k ∈ fields.map str := fun k => by
      rw [← hd, Dict.mem_keys_iff, Dict.mem_keys_iff, h k]
    exact ⟨⟨fun k hk => (hkeys _).mpr (List.mem_map_of_mem hk), fun k hk => Or.inl ((hkeys k).mp hk)⟩,
      fun k _ => h (str k)⟩

/-- Only the names of the fields matter to `exactFields`. -/
theorem exactFields_update {value u : Object} (h : ∀ k ∈ Dict.keys u, k ∈ Dict.keys value)
    (required optional : List String) :
    exactFields (Dict.update value u) required optional = exactFields value required optional := by
  unfold exactFields missingFields unknownFields
  rw [Dict.keys_update h]

/-- An optional field is a required one where it is present. -/
theorem exactFields_optional {value : Object} {k o : String} {u : Unit} :
    exactFields value [k] [o] = .ok u ↔
      (str o ∈ Dict.keys value ∧ exactFields value [k, o] = .ok u) ∨
        (str o ∉ Dict.keys value ∧ exactFields value [k] = .ok u) := by
  simp only [exactFields_eq_ok, List.map_cons, List.map_nil, List.mem_cons, List.not_mem_nil, or_false,
    forall_eq, forall_eq_or_imp]
  by_cases h : str o ∈ Dict.keys value
  · simp [h]
  · simp only [h, false_and, not_false_eq_true, true_and, false_or, and_congr_right_iff]
    intro _
    refine forall₂_congr fun x hx => or_iff_left ?_
    rintro rfl
    exact h hx

/-! ## Mappings -/

def jsonMapping (value : Json) (field : String) : Py Object :=
  asMapping value (typeError (field ++ " must be an object" : String))

theorem jsonMapping_raises (value : Json) (field : String) :
    RaisesValueErrors (jsonMapping value field) :=
  asMapping_raises value _

/-- The order of `sorted(result.items())`. -/
def itemLe (a b : Str × Str) : Prop := a.1 < b.1 ∨ a.1 = b.1 ∧ a.2 ≤ b.2

instance : DecidableRel itemLe := fun a b => by unfold itemLe; infer_instance

instance : Std.Total itemLe where
  total a b := by
    unfold itemLe
    rcases lt_trichotomy a.1 b.1 with h | h | h
    · exact Or.inl (Or.inl h)
    · rcases le_total a.2 b.2 with h' | h'
      · exact Or.inl (Or.inr ⟨h, h'⟩)
      · exact Or.inr (Or.inr ⟨h.symm, h'⟩)
    · exact Or.inr (Or.inl h)

instance : IsTrans (Str × Str) itemLe where
  trans a b c := by
    unfold itemLe
    rintro (h | ⟨h, h'⟩) (k | ⟨k, k'⟩)
    · exact Or.inl (h.trans k)
    · exact Or.inl (k ▸ h)
    · exact Or.inl (h ▸ k)
    · exact Or.inr ⟨h.trans k, h'.trans k'⟩

def sortedItems (items : Dict Str Str) : Dict Str Str := items.insertionSort itemLe

theorem sortedItems_perm (items : Dict Str Str) : (sortedItems items).Perm items :=
  List.perm_insertionSort _ items

@[simp] theorem sortedItems_sortedItems (items : Dict Str Str) :
    sortedItems (sortedItems items) = sortedItems items :=
  (List.pairwise_insertionSort itemLe items).insertionSort_eq

/-- The JSON object of a mapping of strings. -/
def wireStrings (items : Dict Str Str) : Object := items.map fun e => (e.1, .str e.2)

theorem keys_wireStrings (items : Dict Str Str) : Dict.keys (wireStrings items) = Dict.keys items := by
  unfold wireStrings Dict.keys
  rw [List.map_map]
  rfl

/-- The loop of `stringMapping`: each value is checked before its key. -/
def stringItems (field : String) (maximumKeyBytes maximumValueBytes : Nat) :
    Object → Dict Str Str → Py (Dict Str Str)
  | [], result => .ok result
  | (key, item) :: rest, result => do
    let value ← boundedString item (field ++ " value") maximumValueBytes
    let key ← boundedString (.str key) (field ++ " key") maximumKeyBytes
    stringItems field maximumKeyBytes maximumValueBytes rest (Dict.set result key.val value.val)

def stringMapping (value : Json) (field : String)
    (maximumEntries maximumKeyBytes maximumValueBytes : Nat) : Py (Dict Str Str) :=
  match value with
  | .obj entries => do
    raiseIf (maximumEntries < entries.length) (valueError (field ++ " exceeds its entry bound" : String))
    let result ← stringItems field maximumKeyBytes maximumValueBytes entries []
    return sortedItems result
  | _ => .error (valueError (field ++ " exceeds its entry bound" : String))

/-- Every key and every value of a mapping is within its bound. -/
def BoundedItems (maximumKeyBytes maximumValueBytes : Nat) (items : Dict Str Str) : Prop :=
  ∀ e ∈ items, IsBounded maximumKeyBytes e.1 ∧ IsBounded maximumValueBytes e.2

/-- The loop appends the entries to the result so far when all the keys are distinct. -/
theorem stringItems_eq_ok {field : String} {mk mv : Nat} {entries : Object} {acc r : Dict Str Str}
    (hn : (Dict.keys acc ++ Dict.keys entries).Nodup) :
    stringItems field mk mv entries acc = .ok r ↔
      ∃ items, entries = wireStrings items ∧ BoundedItems mk mv items ∧ r = acc ++ items := by
  induction entries generalizing acc with
  | nil =>
    simp only [stringItems, Except.ok.injEq]
    constructor
    · rintro rfl
      exact ⟨[], rfl, by simp [BoundedItems], (List.append_nil _).symm⟩
    · rintro ⟨items, hi, -, rfl⟩
      have : items = [] := by simpa [wireStrings] using hi.symm
      rw [this, List.append_nil]
  | cons e entries ih =>
    obtain ⟨k, v⟩ := e
    have hk : k ∉ Dict.keys acc := fun h =>
      (List.disjoint_of_nodup_append hn) h (by simp)
    have hset : ∀ w, Dict.set acc k w = acc ++ [(k, w)] := fun w => Dict.set_of_notMem w hk
    have hn' : ∀ w, (Dict.keys (acc ++ [(k, w)]) ++ Dict.keys entries).Nodup := by
      intro w
      simpa [Dict.keys] using hn
    simp only [stringItems, bind_eq_ok, boundedString_eq_ok]
    constructor
    · rintro ⟨⟨w, hw⟩, rfl, ⟨k', hk'⟩, hkk, h⟩
      obtain rfl : k = k' := by simpa using hkk
      rw [hset, ih (hn' w)] at h
      obtain ⟨items, rfl, hb, rfl⟩ := h
      refine ⟨(k, w) :: items, rfl, ?_, by simp⟩
      intro e he
      rcases List.mem_cons.mp he with rfl | he
      · exact ⟨hk', hw⟩
      · exact hb e he
    · rintro ⟨items, hi, hb, rfl⟩
      cases items with
      | nil => simp [wireStrings] at hi
      | cons e items =>
        obtain ⟨k', w⟩ := e
        simp only [wireStrings, List.map_cons, List.cons.injEq, Prod.mk.injEq] at hi
        obtain ⟨⟨rfl, rfl⟩, hrest⟩ := hi
        obtain ⟨hbk, hbw⟩ := hb (k, w) List.mem_cons_self
        refine ⟨⟨w, hbw⟩, rfl, ⟨k, hbk⟩, rfl, ?_⟩
        rw [hset, ih (hn' w)]
        exact ⟨items, hrest, fun e he => hb e (List.mem_cons_of_mem _ he), by simp⟩

/-- A mapping of strings is accepted when it is within its bounds, and returned sorted. -/
theorem stringMapping_eq_ok {entries : Object} {field : String} {me mk mv : Nat} {r : Dict Str Str}
    (hn : (Dict.keys entries).Nodup) :
    stringMapping (.obj entries) field me mk mv = .ok r ↔
      ∃ items, entries = wireStrings items ∧ items.length ≤ me ∧ BoundedItems mk mv items ∧
        r = sortedItems items := by
  have hitems : ∀ {result}, stringItems field mk mv entries [] = .ok result ↔
      ∃ items, entries = wireStrings items ∧ BoundedItems mk mv items ∧ result = [] ++ items :=
    stringItems_eq_ok (by simpa using hn)
  simp only [stringMapping, bind_eq_ok, raiseIf_eq_ok, pure_eq_ok, not_lt, hitems, List.nil_append]
  constructor
  · rintro ⟨-, hl, result, ⟨items, rfl, hb, rfl⟩, rfl⟩
    exact ⟨result, rfl, by simpa [wireStrings] using hl, hb, rfl⟩
  · rintro ⟨items, rfl, hl, hb, rfl⟩
    exact ⟨(), by simpa [wireStrings] using hl, items, ⟨items, rfl, hb, rfl⟩, rfl⟩

theorem stringMapping_obj {value : Json} {field : String} {me mk mv : Nat} {r : Dict Str Str}
    (h : stringMapping value field me mk mv = .ok r) : ∃ entries, value = .obj entries := by
  cases value with
  | obj entries => exact ⟨entries, rfl⟩
  | _ => cases h

theorem stringItems_raises (field : String) (mk mv : Nat) (entries : Object) (acc : Dict Str Str) :
    RaisesValueErrors (stringItems field mk mv entries acc) := by
  induction entries generalizing acc with
  | nil => exact RaisesOnly.ok acc
  | cons e entries ih =>
    exact (boundedString_raises _ _ _).bind fun _ _ => (boundedString_raises _ _ _).bind fun _ _ => ih _

theorem stringMapping_raises (value : Json) (field : String) (me mk mv : Nat) :
    RaisesValueErrors (stringMapping value field me mk mv) := by
  cases value with
  | obj entries =>
    exact (raiseIf_raises _ _).bind fun _ _ =>
      (stringItems_raises field mk mv entries []).bind fun _ _ => RaisesOnly.pure _
  | _ => exact RaisesOnly.error rfl

/-! ## Sequences -/

/-- `tuple(bounded_string(item, field, 128) for item in value)` -/
def boundedItems (field : String) : List Json → Py (List Str)
  | [] => .ok []
  | item :: rest => do
    let s ← boundedString item field 128
    let l ← boundedItems field rest
    return s.val :: l

def stringSequence (value : Json) (field : String) : Py (List Str) :=
  match value with
  | .arr items => do
    let strings ← boundedItems field items
    let result := sorted strings
    raiseIf (¬ result.Nodup) (valueError (field ++ " entries must be unique" : String))
    return result
  | _ => .error (typeError (field ++ " must be an array" : String))

theorem boundedItems_eq_ok {field : String} {items : List Json} {l : List Str} :
    boundedItems field items = .ok l ↔ items = l.map .str ∧ ∀ s ∈ l, IsBounded 128 s := by
  induction items generalizing l with
  | nil =>
    cases l with
    | nil => simp [boundedItems]
    | cons s l => simp [boundedItems]
  | cons item items ih =>
    simp only [boundedItems, bind_eq_ok, boundedString_eq_ok, pure_eq_ok]
    constructor
    · rintro ⟨s, rfl, l', hl', rfl⟩
      obtain ⟨rfl, hb⟩ := ih.mp hl'
      exact ⟨rfl, by simpa using ⟨s.2, hb⟩⟩
    · rintro ⟨h, hb⟩
      cases l with
      | nil => simp at h
      | cons s l =>
        simp only [List.map_cons, List.cons.injEq] at h
        obtain ⟨rfl, rfl⟩ := h
        simp only [List.mem_cons, forall_eq_or_imp] at hb
        exact ⟨⟨s, hb.1⟩, rfl, l, ih.mpr ⟨rfl, hb.2⟩, rfl⟩

/-- A sequence of strings is accepted when they are bounded and distinct, and returned sorted. -/
theorem stringSequence_eq_ok {value : Json} {field : String} {r : List Str} :
    stringSequence value field = .ok r ↔
      ∃ l, value = .arr (l.map .str) ∧ (∀ s ∈ l, IsBounded 128 s) ∧ l.Nodup ∧ r = sorted l := by
  cases value with
  | arr items =>
    simp only [stringSequence, bind_eq_ok, boundedItems_eq_ok, raiseIf_eq_ok, pure_eq_ok, not_not,
      Json.arr.injEq]
    constructor
    · rintro ⟨l, ⟨rfl, hb⟩, -, hn, rfl⟩
      exact ⟨l, rfl, hb, (sorted_perm l).nodup_iff.mp hn, rfl⟩
    · rintro ⟨l, rfl, hb, hn, rfl⟩
      exact ⟨l, ⟨rfl, hb⟩, (), (sorted_perm l).nodup_iff.mpr hn, rfl⟩
  | _ => simp [stringSequence]

theorem boundedItems_raises (field : String) (items : List Json) :
    RaisesValueErrors (boundedItems field items) := by
  induction items with
  | nil => exact RaisesOnly.ok []
  | cons item items ih =>
    exact (boundedString_raises _ _ _).bind fun _ _ => ih.bind fun _ _ => RaisesOnly.pure _

theorem stringSequence_raises (value : Json) (field : String) :
    RaisesValueErrors (stringSequence value field) := by
  cases value with
  | arr items =>
    exact (boundedItems_raises field items).bind fun _ _ =>
      (raiseIf_raises _ _).bind fun _ _ => RaisesOnly.pure _
  | _ => exact RaisesOnly.error rfl

end ObjectCommon
