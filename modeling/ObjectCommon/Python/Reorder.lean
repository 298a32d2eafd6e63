import ObjectCommon.Python.Json

/-!
# JSON values in another order

* `Json.Reordered v w` : `w` is `v` with the entries of objects, at any depth, in another order;
* `Json.SameValue v w` : `v` and `w` are well formed and have one canonical form;
* `Json.Reordered.sameValue`, `Json.SameValue.reordered` : for a well-formed value the two say the same;
* `Json.Rigid v` : only `v` has the canonical form of `v`;
* `Json.SameValue.object`, `Json.SameValue.rigid`, `Json.SameValue.same` : what two such objects share.
-/

namespace ObjectCommon

namespace Json

/-- `w` is `v` with the entries of objects in another order, one object after the other. -/
inductive Reordered : Json → Json → Prop
  | refl (v : Json) : Reordered v v
  | trans {u v w : Json} (h : Reordered u v) (h' : Reordered v w) : Reordered u w
  | perm {d d' : Object} (h : d.Perm d') : Reordered (.obj d) (.obj d')
  | entry {d d' : Object} {k : Str} {v w : Json} (h : Reordered v w) :
      Reordered (.obj (d ++ (k, v) :: d')) (.obj (d ++ (k, w) :: d'))
  | item {l l' : List Json} {v w : Json} (h : Reordered v w) :
      Reordered (.arr (l ++ v :: l')) (.arr (l ++ w :: l'))

/-- Two JSON values that are equal up to the order of entries. -/
structure SameValue (v w : Json) : Prop where
  left : WellFormed v
  right : WellFormed w
  canon : v.canon = w.canon

theorem SameValue.refl {v : Json} (h : WellFormed v) : SameValue v v := ⟨h, h, rfl⟩

theorem SameValue.symm {v w : Json} (h : SameValue v w) : SameValue w v := ⟨h.right, h.left, h.canon.symm⟩

theorem SameValue.trans {u v w : Json} (h : SameValue u v) (h' : SameValue v w) : SameValue u w :=
  ⟨h.left, h'.right, h.canon.trans h'.canon⟩

theorem Reordered.symm {v w : Json} (h : Reordered v w) : Reordered w v := by
  induction h with
  | refl v => exact .refl v
  | trans _ _ ih ih' => exact ih'.trans ih
  | perm h => exact .perm h.symm
  | entry _ ih => exact .entry ih
  | item _ ih => exact .item ih

/-- The keys inside a value stay. -/
theorem Reordered.hasKey {v w : Json} (h : Reordered v w) {k : Str} (hk : HasKey v k) : HasKey w k := by
  induction h with
  | refl v => exact hk
  | trans _ _ ih ih' => exact ih' (ih hk)
  | perm h =>
    cases hk with
    | here he => exact .here (h.mem_iff.mp he)
    | entry he hv => exact .entry (h.mem_iff.mp he) hv
  | @entry d d' k' v w _ ih =>
    have hmem : (k', w) ∈ d ++ (k', w) :: d' := List.mem_append_right d List.mem_cons_self
    have hother : ∀ {e}, e ∈ d ∨ e ∈ d' → e ∈ d ++ (k', w) :: d' := by
      intro e he
      rcases he with he | he
      · exact List.mem_append_left _ he
      · exact List.mem_append_right _ (List.mem_cons_of_mem _ he)
    cases hk with
    | here he =>
      rcases List.mem_append.mp he with he | he
      · exact .here (hother (Or.inl he))
      · rcases List.mem_cons.mp he with he | he
        · cases he
          exact .here hmem
        · exact .here (hother (Or.inr he))
    | entry he hv =>
      rcases List.mem_append.mp he with he | he
      · exact .entry (hother (Or.inl he)) hv
      · rcases List.mem_cons.mp he with he | he
        · cases he
          exact .entry hmem (ih hv)
        · exact .entry (hother (Or.inr he)) hv
  | @item l l' v w _ ih =>
    cases hk with
    | item he hv =>
      rcases List.mem_append.mp he with he | he
      · exact .item (List.mem_append_left _ he) hv
      · rcases List.mem_cons.mp he with rfl | he
        · exact .item (List.mem_append_right _ List.mem_cons_self) (ih hv)
        · exact .item (List.mem_append_right _ (List.mem_cons_of_mem _ he)) hv

/-! ## Canonical forms -/

theorem canonItems_eq_map (items : List Json) : canonItems items = items.map canon := by
  induction items with
  | nil => rfl
  | cons v items ih => rw [canonItems, ih, List.map_cons]

theorem canonEntries_eq_map (entries : Object) :
    canonEntries entries = entries.map fun e => (e.1, canon e.2) := by
  induction entries with
  | nil => rfl
  | cons e entries ih => rw [canonEntries, ih, List.map_cons]

instance : Std.Total fun a b : Str × Json => a.1 ≤ b.1 := ⟨fun a b => le_total a.1 b.1⟩

instance : IsTrans (Str × Json) fun a b => a.1 ≤ b.1 := ⟨fun _ _ _ h h' => le_trans h h'⟩

/-- With distinct keys, entries have one sorted order. -/
theorem sortEntries_eq_of_perm {d d' : Object} (hn : (Dict.keys d).Nodup) (h : d.Perm d') :
    sortEntries d = sortEntries d' := by
  have hperm : (sortEntries d).Perm (sortEntries d') :=
    (sortEntries_perm d).trans (h.trans (sortEntries_perm d').symm)
  refine List.Perm.eq_of_pairwise ?_ (List.pairwise_insertionSort _ d) (List.pairwise_insertionSort _ d') hperm
  intro a b ha hb hab hba
  have ha' : a ∈ d := (sortEntries_perm d).mem_iff.mp ha
  have hb' : b ∈ d := h.mem_iff.mpr ((sortEntries_perm d').mem_iff.mp hb)
  exact List.inj_on_of_nodup_map hn ha' hb' (le_antisymm hab hba)

mutual

/-- A value is put in its canonical form by reordering entries. -/
theorem reordered_canon (v : Json) : Reordered v v.canon := by
  match v with
  | .arr items => exact reordered_canonItems [] items
  | .obj entries => exact (reordered_canonEntries [] entries).trans (.perm (sortEntries_perm _).symm)
  | .null | .bool _ | .int _ | .float _ | .str _ => exact .refl _

theorem reordered_canonItems (l items : List Json) :
    Reordered (.arr (l ++ items)) (.arr (l ++ canonItems items)) := by
  match items with
  | [] => exact .refl _
  | v :: items =>
    have hrest := reordered_canonItems (l ++ [canon v]) items
    rw [List.append_assoc, List.append_assoc] at hrest
    exact (Reordered.item (reordered_canon v)).trans hrest

theorem reordered_canonEntries (d entries : List (Str × Json)) :
    Reordered (.obj (d ++ entries)) (.obj (d ++ canonEntries entries)) := by
  match entries with
  | [] => exact .refl _
  | (k, v) :: entries =>
    have hrest := reordered_canonEntries (d ++ [(k, canon v)]) entries
    rw [List.append_assoc, List.append_assoc] at hrest
    exact (Reordered.entry (reordered_canon v)).trans hrest

end

/-- Reordering keeps a value well formed and its canonical form. -/
theorem Reordered.sameValue {v w : Json} (h : Reordered v w) (hv : WellFormed v) : SameValue v w := by
  induction h with
  | refl v => exact .refl hv
  | trans _ _ ih ih' => exact (ih hv).trans (ih' (ih hv).right)
  | @perm d d' h =>
    have hkeys : (Dict.keys d').Nodup := (h.map Prod.fst).nodup_iff.mp hv.keys_nodup
    refine ⟨hv, .obj hkeys fun e he => hv.entry (h.mem_iff.mpr he), ?_⟩
    have hcanon : (canonEntries d).Perm (canonEntries d') := by
      rw [canonEntries_eq_map, canonEntries_eq_map]
      exact h.map _
    rw [Json.canon, Json.canon, sortEntries_eq_of_perm (by rw [keys_canonEntries]; exact hv.keys_nodup) hcanon]
  | @entry d d' k v w _ ih =>
    have hmem : (k, v) ∈ d ++ (k, v) :: d' := List.mem_append_right d List.mem_cons_self
    have hvw := ih (hv.entry hmem)
    have hkeys : Dict.keys (d ++ (k, w) :: d') = Dict.keys (d ++ (k, v) :: d') := by
      simp only [Dict.keys, List.map_append, List.map_cons]
    refine ⟨hv, .obj (hkeys ▸ hv.keys_nodup) fun e he => ?_, ?_⟩
    · rcases List.mem_append.mp he with he | he
      · exact hv.entry (List.mem_append_left _ he)
      · rcases List.mem_cons.mp he with rfl | he
        · exact hvw.right
        · exact hv.entry (List.mem_append_right _ (List.mem_cons_of_mem _ he))
    · simp only [Json.canon, canonEntries_eq_map, List.map_append, List.map_cons, hvw.canon]
  | @item l l' v w _ ih =>
    have hitems : ∀ u ∈ l ++ v :: l', WellFormed u := by
      cases hv with
      | arr h => exact h
    have hvw := ih (hitems v (List.mem_append_right l List.mem_cons_self))
    refine ⟨hv, .arr fun u hu => ?_, ?_⟩
    · rcases List.mem_append.mp hu with hu | hu
      · exact hitems u (List.mem_append_left _ hu)
      · rcases List.mem_cons.mp hu with rfl | hu
        · exact hvw.right
        · exact hitems u (List.mem_append_right _ (List.mem_cons_of_mem _ hu))
    · simp only [Json.canon, canonItems_eq_map, List.map_append, List.map_cons, hvw.canon]

theorem SameValue.reordered {v w : Json} (h : SameValue v w) : Reordered v w := by
  have hw : Reordered v.canon w := by
    rw [h.canon]
    exact (reordered_canon w).symm
  exact (reordered_canon v).trans hw

/-! ## Values without entries -/

/-- Only `v` has the canonical form of `v`. -/
def Rigid (v : Json) : Prop := ∀ w : Json, w.canon = v.canon → w = v

theorem rigid_null : Rigid .null := by
  intro w h
  cases w <;> simp_all [canon]

theorem rigid_bool (b : Bool) : Rigid (.bool b) := by
  intro w h
  cases w <;> simp_all [canon]

theorem rigid_int (n : Int) : Rigid (.int n) := by
  intro w h
  cases w <;> simp_all [canon]

theorem rigid_str (s : Str) : Rigid (.str s) := by
  intro w h
  cases w <;> simp_all [canon]

theorem rigid_nullable {α : Type} {f : α → Json} (h : ∀ a, Rigid (f a)) (o : Option α) :
    Rigid (nullable f o) := by
  cases o with
  | none => exact rigid_null
  | some a => exact h a

theorem rigid_strings (l : List Str) : Rigid (.arr (l.map .str)) := by
  intro w h
  cases w with
  | arr items =>
    simp only [canon, canonItems_map_str, Json.arr.injEq] at h ⊢
    induction items generalizing l with
    | nil => simpa [canonItems] using h
    | cons v items ih =>
      cases l with
      | nil => simp [canonItems] at h
      | cons s l =>
        simp only [canonItems, List.map_cons, List.cons.injEq] at h
        rw [List.map_cons, ih l h.2, rigid_str s v h.1]
  | _ => simp [canon] at h

/-! ## Members -/

theorem eq_obj_of_canon {w : Json} {d : Object} (h : w.canon = canon (.obj d)) : ∃ d', w = .obj d' := by
  cases w with
  | obj d' => exact ⟨d', rfl⟩
  | _ => simp [canon] at h

namespace SameValue

variable {a b : Object} {k : Str} {v : Json}

theorem get? (h : SameValue (.obj a) (.obj b)) (k : Str) :
    (Dict.get? a k).map Json.canon = (Dict.get? b k).map Json.canon :=
  get?_of_canon_eq h.left.keys_nodup h.right.keys_nodup h.canon k

/-- A member of one is a member of the other. -/
theorem member (h : SameValue (.obj a) (.obj b)) (hk : Dict.get? a k = some v) :
    ∃ w, Dict.get? b k = some w ∧ SameValue v w := by
  have hcanon := h.get? k
  rw [hk, Option.map_some] at hcanon
  obtain ⟨w, hw, hvw⟩ := Option.map_eq_some_iff.mp hcanon.symm
  exact ⟨w, hw, h.left.get? hk, h.right.get? hw, hvw.symm⟩

theorem object {d : Object} (h : SameValue (.obj a) (.obj b)) (hk : Dict.get? a k = some (.obj d)) :
    ∃ d', Dict.get? b k = some (.obj d') ∧ SameValue (.obj d) (.obj d') := by
  obtain ⟨w, hw, hdw⟩ := h.member hk
  obtain ⟨d', rfl⟩ := eq_obj_of_canon hdw.canon.symm
  exact ⟨d', hw, hdw⟩

theorem rigid (h : SameValue (.obj a) (.obj b)) (hv : Rigid v) (hk : Dict.get? a k = some v) :
    Dict.get? b k = some v := by
  obtain ⟨w, hw, hvw⟩ := h.member hk
  rwa [hv w hvw.canon.symm] at hw

theorem get?_eq_none (h : SameValue (.obj a) (.obj b)) (hk : Dict.get? a k = none) : Dict.get? b k = none := by
  have hcanon := h.get? k
  rw [hk, Option.map_none] at hcanon
  exact Option.map_eq_none_iff.mp hcanon.symm

theorem mem_keys (h : SameValue (.obj a) (.obj b)) (k : Str) : k ∈ Dict.keys a ↔ k ∈ Dict.keys b := by
  rw [← not_iff_not, ← Dict.get?_eq_none_iff, ← Dict.get?_eq_none_iff]
  exact ⟨h.get?_eq_none, h.symm.get?_eq_none⟩

/-- A member that may be left out. -/
theorem getD (h : SameValue (.obj a) (.obj b)) (k : Str) :
    SameValue ((Dict.get? a k).getD .null) ((Dict.get? b k).getD .null) := by
  cases hk : Dict.get? a k with
  | none =>
    rw [h.get?_eq_none hk]
    exact .refl .null
  | some v =>
    obtain ⟨w, hw, hvw⟩ := h.member hk
    rw [hw]
    exact hvw

/-- What has the members of a document of rigid values keeps them. -/
theorem same {d : Object} (h : SameValue (.obj a) (.obj b)) (hd : ∀ e ∈ d, Rigid e.2) (hs : Dict.Same a d) :
    Dict.Same b d := by
  intro k
  cases hk : Dict.get? d k with
  | none => exact h.get?_eq_none ((hs k).trans hk)
  | some v => exact h.rigid (hd _ (Dict.mem_of_get? hk)) ((hs k).trans hk)

end SameValue

/-- Objects with the same members are the same value. -/
theorem sameValue_of_get? {a b : Object} (ha : WellFormed (.obj a)) (hb : WellFormed (.obj b))
    (h : ∀ k, (Dict.get? a k).map canon = (Dict.get? b k).map canon) : SameValue (.obj a) (.obj b) := by
  have hna : (Dict.keys (canonEntries a)).Nodup := by rw [keys_canonEntries]; exact ha.keys_nodup
  have hnb : (Dict.keys (canonEntries b)).Nodup := by rw [keys_canonEntries]; exact hb.keys_nodup
  have hsame : Dict.Same (canonEntries a) (canonEntries b) := by
    intro k
    rw [get?_canonEntries, get?_canonEntries, h]
  refine ⟨ha, hb, ?_⟩
  rw [canon, canon, sortEntries_eq_of_perm hna ((Dict.same_iff_perm hna hnb).mp hsame)]

end Json

end ObjectCommon
