import ObjectCommon.Python.JsonText
import ObjectCommon.Validation.Mappings

/-!
# JSON Schema keywords

A schema is a test of JSON values, a keyword one that values of another type pass.

* `types`, `constant`, `enum`, `pattern`, `minLength`, ... : the keywords; lengths are counted in code
  points, patterns are anchored, and a number with a fraction is no integer;
* `allOf`, `anyOf`, `oneOf` : the combinators; a schema object is `allOf` of its keywords;
* `record required properties` : an object schema with `additionalProperties` false;
* `*_iff` : what a keyword says of a value.
-/

namespace ObjectCommon

open Outcome

abbrev Schema := Json → Bool

namespace Schema

/-! ## Types -/

inductive JsonType where
  | null
  | boolean
  | integer
  | number
  | string
  | array
  | object
  deriving DecidableEq

def typeOf : Json → JsonType
  | .null => .null
  | .bool _ => .boolean
  | .int _ => .integer
  | .float _ => .number
  | .str _ => .string
  | .arr _ => .array
  | .obj _ => .object

def types (l : List JsonType) : Schema := fun v => typeOf v ∈ l

/-! ## Keywords -/

/-- `const` of a string -/
def constant (s : Str) : Schema := fun v => v.isStr s

/-- `enum` of strings -/
def enum (l : List Str) : Schema := fun v => l.any v.isStr

/-- A keyword for strings. -/
def onString (f : Str → Bool) : Schema
  | .str s => f s
  | _ => true

def pattern (f : Str → Bool) : Schema := onString f

def minLength (n : Nat) : Schema := onString fun s => n ≤ s.length

def maxLength (n : Nat) : Schema := onString fun s => s.length ≤ n

def minimum (n : Int) : Schema
  | .int i => n ≤ i
  | _ => true

def maximum (n : Int) : Schema
  | .int i => i ≤ n
  | _ => true

def minItems (n : Nat) : Schema
  | .arr items => n ≤ items.length
  | _ => true

/-- `uniqueItems`, for items without floats: equal values have equal canonical texts -/
def uniqueItems : Schema
  | .arr items => (items.map fun v => v.canon.text).Nodup
  | _ => true

def items (S : Schema) : Schema
  | .arr items => items.all S
  | _ => true

def maxProperties (n : Nat) : Schema
  | .obj d => d.length ≤ n
  | _ => true

def required (fields : List String) : Schema
  | .obj d => fields.all fun k => str k ∈ Dict.keys d
  | _ => true

def properties (l : List (String × Schema)) : Schema
  | .obj d => l.all fun p => (Dict.get? d (str p.1)).all p.2
  | _ => true

/-- `additionalProperties` beside the given `properties` -/
def additionalProperties (known : List String) (S : Schema) : Schema
  | .obj d => d.all fun e => e.1 ∈ known.map str || S e.2
  | _ => true

/-! ## Combinators -/

def allOf (l : List Schema) : Schema := fun v => l.all (· v)

def anyOf (l : List Schema) : Schema := fun v => l.any (· v)

def oneOf (l : List Schema) : Schema := fun v => l.countP (· v) = 1

/-- The schema `false`. -/
def never : Schema := fun _ => false

/-- An object with the given properties and no others. -/
def record (fields : List String) (l : List (String × Schema)) : Schema :=
  allOf [types [.object], additionalProperties (l.map Prod.fst) never, required fields, properties l]

/-- A string under further keywords. -/
def text (l : List Schema) : Schema := allOf (types [.string] :: l)

/-- A value of the schema, or null. -/
def nullable (S : Schema) : Schema := anyOf [S, types [.null]]

/-! ## What they say -/

@[simp] theorem types_iff {l : List JsonType} {v : Json} : types l v = true ↔ typeOf v ∈ l := by
  simp [types]

@[simp] theorem constant_iff {s : Str} {v : Json} : constant s v = true ↔ v = .str s := Json.isStr_iff

@[simp] theorem enum_iff {l : List Str} {v : Json} : enum l v = true ↔ ∃ s ∈ l, v = .str s := by
  simp [enum]

@[simp] theorem onString_iff {f : Str → Bool} {s : Str} : onString f (.str s) = f s := rfl

@[simp] theorem allOf_iff {l : List Schema} {v : Json} : allOf l v = true ↔ ∀ S ∈ l, S v = true := by
  simp [allOf]

@[simp] theorem anyOf_iff {l : List Schema} {v : Json} : anyOf l v = true ↔ ∃ S ∈ l, S v = true := by
  simp [anyOf]

/-- Of schemas that exclude each other, one accepts a value exactly when some does. -/
theorem oneOf_iff {l : List Schema} {v : Json} (h : l.Pairwise fun S T => S v = true → T v = false) :
    oneOf l v = true ↔ ∃ S ∈ l, S v = true := by
  rw [oneOf, decide_eq_true_eq]
  induction l with
  | nil => simp
  | cons S l ih =>
    obtain ⟨hS, hl⟩ := List.pairwise_cons.mp h
    cases hv : S v with
    | false => simpa [List.countP_cons, hv] using ih hl
    | true =>
      have hzero : l.countP (· v) = 0 :=
        List.countP_eq_zero.mpr fun T hT => by simp [hS T hT hv]
      simp [hv, hzero]

theorem typeOf_eq_string {v : Json} : typeOf v = .string ↔ ∃ s, v = .str s := by
  cases v <;> simp [typeOf]

theorem typeOf_eq_object {v : Json} : typeOf v = .object ↔ ∃ d, v = .obj d := by
  cases v <;> simp [typeOf]

theorem typeOf_eq_null {v : Json} : typeOf v = .null ↔ v = .null := by
  cases v <;> simp [typeOf]

theorem typeOf_eq_boolean {v : Json} : typeOf v = .boolean ↔ ∃ b, v = .bool b := by
  cases v <;> simp [typeOf]

theorem typeOf_eq_integer {v : Json} : typeOf v = .integer ↔ ∃ n, v = .int n := by
  cases v <;> simp [typeOf]

theorem typeOf_eq_array {v : Json} : typeOf v = .array ↔ ∃ l, v = .arr l := by
  cases v <;> simp [typeOf]

theorem text_iff {l : List Schema} {v : Json} :
    text l v = true ↔ ∃ s, v = .str s ∧ ∀ S ∈ l, S (.str s) = true := by
  simp only [text, allOf_iff, List.forall_mem_cons, types_iff, List.mem_singleton, typeOf_eq_string]
  constructor
  · rintro ⟨⟨s, rfl⟩, h⟩
    exact ⟨s, rfl, h⟩
  · rintro ⟨s, rfl, h⟩
    exact ⟨⟨s, rfl⟩, h⟩

theorem nullable_iff {S : Schema} {v : Json} : nullable S v = true ↔ S v = true ∨ v = .null := by
  simp [nullable, typeOf_eq_null]

theorem properties_iff {l : List (String × Schema)} {d : Object} :
    properties l (.obj d) = true ↔ ∀ p ∈ l, ∀ v, Dict.get? d (str p.1) = some v → p.2 v = true := by
  simp only [properties, List.all_eq_true]
  refine forall₂_congr fun p _ => ?_
  cases Dict.get? d (str p.1) <;> simp

/-- An object schema: the fields that must and may be there, and the schemas of the members. -/
theorem record_iff {fields : List String} {l : List (String × Schema)} {v : Json} :
    record fields l v = true ↔ ∃ d, v = .obj d ∧ (∀ k ∈ fields, str k ∈ Dict.keys d) ∧
      (∀ k ∈ Dict.keys d, k ∈ (l.map Prod.fst).map str) ∧
      ∀ p ∈ l, ∀ w, Dict.get? d (str p.1) = some w → p.2 w = true := by
  have hadd : ∀ d : Object, additionalProperties (l.map Prod.fst) never (.obj d) = true ↔
      ∀ k ∈ Dict.keys d, k ∈ (l.map Prod.fst).map str := by
    intro d
    simp [additionalProperties, never, Dict.keys]
  have hreq : ∀ d : Object, required fields (.obj d) = true ↔ ∀ k ∈ fields, str k ∈ Dict.keys d := by
    intro d
    simp [required]
  simp only [record, allOf_iff, List.forall_mem_cons, types_iff, List.mem_singleton, typeOf_eq_object, forall_eq]
  constructor
  · rintro ⟨⟨d, rfl⟩, ha, hr, hp⟩
    exact ⟨d, rfl, (hreq d).mp hr, (hadd d).mp ha, properties_iff.mp hp⟩
  · rintro ⟨d, rfl, hr, ha, hp⟩
    exact ⟨⟨d, rfl⟩, (hadd d).mpr ha, (hreq d).mpr hr, properties_iff.mpr hp⟩

/-- An object schema that requires all its properties. -/
theorem record_required_iff {l : List (String × Schema)} {d : Object} :
    record (l.map Prod.fst) l (.obj d) = true ↔ exactFields d (l.map Prod.fst) = .ok () ∧
      ∀ p ∈ l, ∃ v, Dict.get? d (str p.1) = some v ∧ p.2 v = true := by
  rw [record_iff, exactFields_eq_ok]
  simp only [List.map_nil, List.not_mem_nil, or_false]
  constructor
  · rintro ⟨d, ⟨⟩, hr, ha, hp⟩
    refine ⟨⟨hr, ha⟩, fun p hpl => ?_⟩
    obtain ⟨v, hv⟩ := Dict.mem_keys_iff.mp (hr p.1 (List.mem_map_of_mem hpl))
    exact ⟨v, hv, hp p hpl v hv⟩
  · rintro ⟨⟨hr, ha⟩, hp⟩
    refine ⟨d, rfl, hr, ha, fun p hpl w hw => ?_⟩
    obtain ⟨v, hv, h⟩ := hp p hpl
    rw [hw] at hv
    cases hv
    exact h

theorem quote_inj {s t : Str} (h : quote s = quote t) : s = t :=
  (quoteRest_append_inj (congrArg (· ++ []) (List.cons.inj h).2)).1

/-- Strings are unique items when they are distinct. -/
theorem uniqueItems_strings {l : List Str} : uniqueItems (.arr (l.map .str)) = true ↔ l.Nodup := by
  have hquote : Function.Injective fun s : Str => (Json.str s).canon.text := by
    intro s t h
    exact quote_inj (Option.some.inj h)
  rw [uniqueItems, decide_eq_true_eq, List.map_map]
  exact List.nodup_map_iff hquote

end Schema

end ObjectCommon
