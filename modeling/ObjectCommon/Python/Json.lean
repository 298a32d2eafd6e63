import ObjectCommon.Library.OrderedDict
import ObjectCommon.Python.Text

/-!
# JSON values

The values an Expression carries: a Python mapping is the list of its entries in insertion order.

* `Json.HasKey v k` : `k` is a key of some mapping inside `v`, at any depth;
* `Json.WellFormed v` : the keys of every mapping inside `v` are distinct;
* `Json.Textual v` : no number inside `v` is a float, and its strings and keys have a UTF-8 encoding;
* `Json.canon v` : `v` with the entries of every mapping sorted by key. Two well-formed values are
  equal in Python exactly when their `canon` is (`get?_of_canon_eq`).
-/

namespace ObjectCommon

inductive Json where
  | null
  | bool (b : Bool)
  | int (n : Int)
  | float (bits : UInt64)
  | str (s : Str)
  | arr (items : List Json)
  | obj (entries : List (Str × Json))

/-- A JSON object. -/
abbrev Object := Dict Str Json

namespace Json

/-- An optional member: `null` stands for `None`. -/
def nullable {α : Type} (f : α → Json) : Option α → Json
  | none => .null
  | some a => f a

@[simp] theorem nullable_none {α : Type} (f : α → Json) : nullable f none = .null := rfl

@[simp] theorem nullable_some {α : Type} (f : α → Json) (a : α) : nullable f (some a) = f a := rfl

theorem nullable_eq_null {α : Type} {f : α → Json} (hf : ∀ a, f a ≠ .null) {o : Option α} :
    nullable f o = .null ↔ o = none := by
  cases o with
  | none => simp
  | some a => simpa using hf a

/-- `value is None` -/
def isNull (v : Json) : Bool :=
  match v with
  | .null => true
  | _ => false

@[simp] theorem isNull_iff {v : Json} : v.isNull = true ↔ v = .null := by
  cases v <;> simp [isNull]

/-- `value == s` for a string `s`. -/
def isStr (v : Json) (s : Str) : Bool :=
  match v with
  | .str t => t = s
  | _ => false

@[simp] theorem isStr_iff {v : Json} {s : Str} : v.isStr s = true ↔ v = .str s := by
  cases v <;> simp [isStr]

/-- `k` is a key of a mapping inside the value, under any nesting of objects and arrays. -/
inductive HasKey : Json → Str → Prop
  | here {entries : Object} {k : Str} {v : Json} (h : (k, v) ∈ entries) : HasKey (.obj entries) k
  | entry {entries : Object} {k k' : Str} {v : Json} (h : (k', v) ∈ entries) (hv : HasKey v k) :
      HasKey (.obj entries) k
  | item {items : List Json} {k : Str} {v : Json} (h : v ∈ items) (hv : HasKey v k) :
      HasKey (.arr items) k

/-- The keys of every mapping inside the value are distinct. -/
inductive WellFormed : Json → Prop
  | null : WellFormed .null
  | bool (b : Bool) : WellFormed (.bool b)
  | int (n : Int) : WellFormed (.int n)
  | float (bits : UInt64) : WellFormed (.float bits)
  | str (s : Str) : WellFormed (.str s)
  | arr {items : List Json} (h : ∀ v ∈ items, WellFormed v) : WellFormed (.arr items)
  | obj {entries : Object} (hk : (Dict.keys entries).Nodup) (h : ∀ e ∈ entries, WellFormed e.2) :
      WellFormed (.obj entries)

theorem WellFormed.keys_nodup {entries : Object} (h : WellFormed (.obj entries)) :
    (Dict.keys entries).Nodup := by
  cases h; assumption

theorem WellFormed.entry {entries : Object} (h : WellFormed (.obj entries)) {e : Str × Json}
    (he : e ∈ entries) : WellFormed e.2 := by
  cases h with
  | obj _ h => exact h e he

theorem WellFormed.get? {entries : Object} (h : WellFormed (.obj entries)) {k : Str} {v : Json}
    (hk : Dict.get? entries k = some v) : WellFormed v :=
  h.entry (Dict.mem_of_get? hk)

theorem WellFormed.set {entries : Object} (h : WellFormed (.obj entries)) {k : Str} {v : Json}
    (hv : WellFormed v) : WellFormed (.obj (Dict.set entries k v)) := by
  refine .obj (Dict.nodup_set k v h.keys_nodup) fun e he => ?_
  rcases Dict.mem_set he with rfl | he
  · exact hv
  · exact h.entry he

theorem wellFormed_nullable {α : Type} {f : α → Json} (h : ∀ a, WellFormed (f a)) (o : Option α) :
    WellFormed (nullable f o) := by
  cases o with
  | none => exact .null
  | some a => exact h a

mutual

/-- `WellFormed`, computed. -/
def isWellFormed : Json → Bool
  | .arr items => itemsWellFormed items
  | .obj entries => decide (Dict.keys entries).Nodup && entriesWellFormed entries
  | _ => true

def itemsWellFormed : List Json → Bool
  | [] => true
  | v :: items => isWellFormed v && itemsWellFormed items

def entriesWellFormed : List (Str × Json) → Bool
  | [] => true
  | (_, v) :: entries => isWellFormed v && entriesWellFormed entries

end

mutual

theorem isWellFormed_iff : ∀ v : Json, isWellFormed v = true ↔ WellFormed v
  | .null => iff_of_true rfl .null
  | .bool b => iff_of_true rfl (.bool b)
  | .int n => iff_of_true rfl (.int n)
  | .float bits => iff_of_true rfl (.float bits)
  | .str s => iff_of_true rfl (.str s)
  | .arr items => by
    rw [isWellFormed, itemsWellFormed_iff items]
    constructor
    · exact .arr
    · intro h
      cases h with
      | arr h => exact h
  | .obj entries => by
    rw [isWellFormed, Bool.and_eq_true, decide_eq_true_iff, entriesWellFormed_iff entries]
    constructor
    · exact fun h => .obj h.1 h.2
    · intro h
      cases h with
      | obj hk h => exact ⟨hk, h⟩

theorem itemsWellFormed_iff : ∀ items : List Json, itemsWellFormed items = true ↔ ∀ v ∈ items, WellFormed v
  | [] => by simp [itemsWellFormed]
  | v :: items => by
    rw [itemsWellFormed, Bool.and_eq_true, isWellFormed_iff v, itemsWellFormed_iff items, List.forall_mem_cons]

theorem entriesWellFormed_iff :
    ∀ entries : List (Str × Json), entriesWellFormed entries = true ↔ ∀ e ∈ entries, WellFormed e.2
  | [] => by simp [entriesWellFormed]
  | (k, v) :: entries => by
    rw [entriesWellFormed, Bool.and_eq_true, isWellFormed_iff v, entriesWellFormed_iff entries, List.forall_mem_cons]

end

instance decidableWellFormed (v : Json) : Decidable v.WellFormed := decidable_of_iff _ (isWellFormed_iff v)

/-- No number inside the value is a float, and its strings and keys have a UTF-8 encoding. -/
inductive Textual : Json → Prop
  | null : Textual .null
  | bool (b : Bool) : Textual (.bool b)
  | int (n : Int) : Textual (.int n)
  | str {s : Str} (h : Encodable s) : Textual (.str s)
  | arr {items : List Json} (h : ∀ v ∈ items, Textual v) : Textual (.arr items)
  | obj {entries : Object} (hk : ∀ e ∈ entries, Encodable e.1) (h : ∀ e ∈ entries, Textual e.2) :
      Textual (.obj entries)

theorem HasKey.of_get? {entries : Object} {k k' : Str} {v : Json}
    (hk : Dict.get? entries k = some v) (h : HasKey v k') : HasKey (.obj entries) k' :=
  .entry (Dict.mem_of_get? hk) h

@[simp] theorem hasKey_null (k : Str) : ¬ HasKey .null k := by rintro ⟨⟩

@[simp] theorem hasKey_bool (b : Bool) (k : Str) : ¬ HasKey (.bool b) k := by rintro ⟨⟩

@[simp] theorem hasKey_int (n : Int) (k : Str) : ¬ HasKey (.int n) k := by rintro ⟨⟩

@[simp] theorem hasKey_float (bits : UInt64) (k : Str) : ¬ HasKey (.float bits) k := by rintro ⟨⟩

@[simp] theorem hasKey_str (s k : Str) : ¬ HasKey (.str s) k := by rintro ⟨⟩

@[simp] theorem hasKey_arr_nil (k : Str) : ¬ HasKey (.arr []) k := by
  rintro ⟨⟩
  simp_all

@[simp] theorem hasKey_obj_nil (k : Str) : ¬ HasKey (.obj []) k := by
  rintro (⟨h⟩ | ⟨h, -⟩) <;> simp at h

theorem hasKey_arr_cons {v : Json} {items : List Json} {k : Str} :
    HasKey (.arr (v :: items)) k ↔ HasKey v k ∨ HasKey (.arr items) k := by
  constructor
  · intro h
    cases h with
    | item h hv =>
      rcases List.mem_cons.mp h with rfl | h
      · exact Or.inl hv
      · exact Or.inr (.item h hv)
  · rintro (h | h)
    · exact .item List.mem_cons_self h
    · cases h with
      | item h hv => exact .item (List.mem_cons_of_mem _ h) hv

theorem hasKey_obj_cons {k' : Str} {v : Json} {entries : List (Str × Json)} {k : Str} :
    HasKey (.obj ((k', v) :: entries)) k ↔ k = k' ∨ HasKey v k ∨ HasKey (.obj entries) k := by
  constructor
  · rintro (⟨h⟩ | ⟨h, hv⟩)
    · rcases List.mem_cons.mp h with h | h
      · cases h; exact Or.inl rfl
      · exact Or.inr (Or.inr (.here h))
    · rcases List.mem_cons.mp h with h | h
      · cases h; exact Or.inr (Or.inl hv)
      · exact Or.inr (Or.inr (.entry h hv))
  · rintro (rfl | h | (⟨h⟩ | ⟨h, hv⟩))
    · exact .here List.mem_cons_self
    · exact .entry List.mem_cons_self h
    · exact .here (List.mem_cons_of_mem _ h)
    · exact .entry (List.mem_cons_of_mem _ h) hv

/-! ## Equality up to the order of entries -/

/-- Entries in the order of their keys. -/
def sortEntries (entries : Object) : Object := entries.insertionSort fun a b => a.1 ≤ b.1

mutual

def canon : Json → Json
  | .arr items => .arr (canonItems items)
  | .obj entries => .obj (sortEntries (canonEntries entries))
  | v => v

def canonItems : List Json → List Json
  | [] => []
  | v :: items => canon v :: canonItems items

def canonEntries : List (Str × Json) → List (Str × Json)
  | [] => []
  | (k, v) :: entries => (k, canon v) :: canonEntries entries

end

theorem sortEntries_perm (entries : Object) : (sortEntries entries).Perm entries :=
  List.perm_insertionSort _ entries

theorem keys_canonEntries (entries : Object) : Dict.keys (canonEntries entries) = Dict.keys entries := by
  induction entries with
  | nil => rfl
  | cons e entries ih =>
    obtain ⟨k, v⟩ := e
    simp [canonEntries, ih]

theorem get?_canonEntries (entries : Object) (k : Str) :
    Dict.get? (canonEntries entries) k = (Dict.get? entries k).map canon := by
  induction entries with
  | nil => rfl
  | cons e entries ih =>
    obtain ⟨k', v⟩ := e
    by_cases h : k' = k
    · simp [canonEntries, h]
    · simp [canonEntries, h, ih]

theorem get?_sort_canon {entries : Object} (h : (Dict.keys entries).Nodup) (k : Str) :
    Dict.get? (sortEntries (canonEntries entries)) k = (Dict.get? entries k).map canon := by
  have hc : (Dict.keys (canonEntries entries)).Nodup := by rwa [keys_canonEntries]
  have hs : (Dict.keys (sortEntries (canonEntries entries))).Nodup :=
    ((sortEntries_perm _).map Prod.fst).nodup_iff.mpr hc
  rw [← get?_canonEntries]
  exact (Dict.same_iff_perm hs hc).mpr (sortEntries_perm _) k

mutual

theorem Textual.canon {v : Json} (h : Textual v) : Textual v.canon := by
  match v with
  | .arr _ =>
    cases h with
    | arr h => exact .arr (textual_canonItems h)
  | .obj entries =>
    cases h with
    | obj hk h =>
      refine .obj (fun e he => ?_) fun e he => textual_canonEntries h e ((sortEntries_perm _).mem_iff.mp he)
      have hkey : e.1 ∈ Dict.keys (canonEntries entries) :=
        List.mem_map_of_mem ((sortEntries_perm _).mem_iff.mp he)
      rw [keys_canonEntries] at hkey
      obtain ⟨e', he', heq⟩ := List.mem_map.mp hkey
      exact heq ▸ hk e' he'
  | .null | .bool _ | .int _ | .float _ | .str _ => exact h

theorem textual_canonItems {items : List Json} (h : ∀ v ∈ items, Textual v) :
    ∀ v ∈ canonItems items, Textual v := by
  match items with
  | [] => exact h
  | v :: items =>
    obtain ⟨hv, h⟩ := List.forall_mem_cons.mp h
    exact List.forall_mem_cons.mpr ⟨hv.canon, textual_canonItems h⟩

theorem textual_canonEntries {entries : List (Str × Json)} (h : ∀ e ∈ entries, Textual e.2) :
    ∀ e ∈ canonEntries entries, Textual e.2 := by
  match entries with
  | [] => exact h
  | (k, v) :: entries =>
    obtain ⟨hv, h⟩ := List.forall_mem_cons.mp h
    exact List.forall_mem_cons.mpr ⟨hv.canon, textual_canonEntries h⟩

end

@[simp] theorem canonItems_map_str (l : List Str) : canonItems (l.map .str) = l.map .str := by
  induction l with
  | nil => rfl
  | cons s l ih => simp [canonItems, canon, ih]

/-- Objects that are equal up to order have equal members. -/
theorem get?_of_canon_eq {entries entries' : Object} (h : (Dict.keys entries).Nodup)
    (h' : (Dict.keys entries').Nodup) (he : canon (.obj entries) = canon (.obj entries')) (k : Str) :
    (Dict.get? entries k).map canon = (Dict.get? entries' k).map canon := by
  have hs : sortEntries (canonEntries entries) = sortEntries (canonEntries entries') := by
    simpa only [canon, Json.obj.injEq] using he
  rw [← get?_sort_canon h, ← get?_sort_canon h', hs]

end Json

end ObjectCommon
