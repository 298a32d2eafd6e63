import ObjectCommon.Python.Json
import Std.Data.String.ToInt

/-!
# Canonical JSON text

The bytes of a JSON value with sorted keys and no blanks.

* `Json.text v` : the text of `v`, `none` when `v` has a float; `text_append_inj`: no text of a value
  is the beginning of another's;
* `encodeText s` : `s.encode("utf-8")`;
* `Json.canonicalBytes v` : the encoded text of `v` in the order of its keys. A textual value has one
  (`canonicalBytes_of_textual`), and equal bytes are those of equal values (`canonicalBytes_inj`).
-/

namespace ObjectCommon

/-! ## Strings -/

def hexDigit (n : Nat) : CodePoint :=
  if n % 16 < 10 then ⟨48 + n % 16, by omega⟩ else ⟨87 + n % 16, by omega⟩

theorem hexDigit_inj {m n : Nat} (hm : m < 16) (hn : n < 16) (h : hexDigit m = hexDigit n) : m = n := by
  unfold hexDigit at h
  split at h <;> split at h <;> simp only [Fin.mk.injEq] at h <;> omega

theorem hexDigit_lt (n : Nat) : (hexDigit n).val < 0x80 := by
  unfold hexDigit
  split <;> dsimp only <;> omega

/-- The characters a JSON string escapes. -/
def isEscaped (c : CodePoint) : Bool := c.val < 32 || c = codePoint '"' || c = codePoint '\\'

theorem lt_of_isEscaped {c : CodePoint} (h : isEscaped c = true) : c.val < 256 := by
  simp only [isEscaped, Bool.or_eq_true, decide_eq_true_eq] at h
  rcases h with (h | rfl) | rfl
  · omega
  · decide
  · decide

def escape (c : CodePoint) : Str :=
  if isEscaped c then codePoint '\\' :: (str "u00" ++ [hexDigit (c.val / 16), hexDigit (c.val % 16)]) else [c]

/-- The characters of a JSON string, and the quote that ends it. -/
def quoteRest : Str → Str
  | [] => [codePoint '"']
  | c :: s => escape c ++ quoteRest s

def quote (s : Str) : Str := codePoint '"' :: quoteRest s

theorem isEscaped_quote : isEscaped (codePoint '"') = true := by decide

theorem isEscaped_backslash : isEscaped (codePoint '\\') = true := by decide

theorem escape_append_inj {c d : CodePoint} {r r' : Str} (h : escape c ++ r = escape d ++ r') :
    c = d ∧ r = r' := by
  unfold escape at h
  split at h <;> split at h <;> simp only [List.cons_append, List.append_assoc, List.nil_append,
    List.cons.injEq] at h
  · next hc hd =>
    obtain ⟨h1, h2, hr⟩ := List.cons.inj (List.append_cancel_left h.2) |>.imp_right List.cons.inj
    have hc := lt_of_isEscaped hc
    have hd := lt_of_isEscaped hd
    have h1 := hexDigit_inj (by omega) (by omega) h1
    have h2 := hexDigit_inj (by omega) (by omega) h2
    exact ⟨Fin.ext (by omega), hr⟩
  · next hd => exact absurd (h.1 ▸ isEscaped_backslash) hd
  · next hc _ => exact absurd (h.1.symm ▸ isEscaped_backslash) hc
  · exact h

theorem encodable_escape {c : CodePoint} (h : ¬ (0xD800 ≤ c.val ∧ c.val ≤ 0xDFFF)) : Encodable (escape c) := by
  unfold escape
  split
  · have hdigits : ∀ d ∈ [hexDigit (c.val / 16), hexDigit (c.val % 16)], d.val < 0x80 := by
      simp [hexDigit_lt]
    exact encodable_cons.mpr ⟨by decide, (encodable_literal (by decide)).append (encodable_ascii hdigits)⟩
  · exact encodable_cons.mpr ⟨h, by simp [Encodable]⟩

theorem head?_escape_ne (c : CodePoint) (r : Str) : (escape c ++ r).head? ≠ some (codePoint '"') := by
  unfold escape
  split
  · intro h
    exact absurd (Option.some.inj h) (by decide)
  · next hc =>
    intro h
    have h : c = codePoint '"' := Option.some.inj h
    exact hc (h ▸ isEscaped_quote)

theorem quoteRest_append_inj {s t r r' : Str} (h : quoteRest s ++ r = quoteRest t ++ r') : s = t ∧ r = r' := by
  induction s generalizing t with
  | nil =>
    cases t with
    | nil => simpa [quoteRest] using h
    | cons d t =>
      rw [quoteRest, quoteRest, List.append_assoc] at h
      exact absurd (congrArg List.head? h).symm (head?_escape_ne d _)
  | cons c s ih =>
    cases t with
    | nil =>
      rw [quoteRest, quoteRest, List.append_assoc] at h
      exact absurd (congrArg List.head? h) (head?_escape_ne c _)
    | cons d t =>
      simp only [quoteRest, List.append_assoc] at h
      obtain ⟨rfl, hrest⟩ := escape_append_inj h
      obtain ⟨rfl, hr⟩ := ih hrest
      exact ⟨rfl, hr⟩

theorem encodable_quoteRest {s : Str} (h : Encodable s) : Encodable (quoteRest s) := by
  induction s with
  | nil => exact encodable_literal (by decide)
  | cons c s ih =>
    obtain ⟨hc, hs⟩ := encodable_cons.mp h
    exact (encodable_escape hc).append (ih hs)

theorem encodable_quote {s : Str} (h : Encodable s) : Encodable (quote s) :=
  encodable_cons.mpr ⟨by decide, encodable_quoteRest h⟩

/-! ## Numbers -/

/-- The characters of the text of an integer. -/
def isNumeric (c : CodePoint) : Bool := isDigit c || c = codePoint '-'

/-- `str(n)` -/
def intText (n : Int) : Str := str n.repr

theorem isNumeric_of_mem_natRepr {n : Nat} {c : CodePoint} (h : c ∈ str n.repr) : isNumeric c = true := by
  obtain ⟨d, hd, rfl⟩ := List.mem_map.mp h
  rw [Nat.toList_repr] at hd
  have hdigit := Nat.isDigit_of_mem_toDigits (by decide) (le_refl 10) hd
  simp only [Char.isDigit, Bool.and_eq_true, decide_eq_true_eq] at hdigit
  have hcode : isDigit (codePoint d) = true := inRange_eq_true.mpr hdigit
  rw [isNumeric, hcode, Bool.true_or]

theorem intText_negSucc (n : Nat) : intText (Int.negSucc n) = codePoint '-' :: str (n + 1).repr := by
  simp [intText, Int.repr, str]

theorem isNumeric_of_mem_intText {n : Int} {c : CodePoint} (h : c ∈ intText n) : isNumeric c = true := by
  cases n with
  | ofNat n => exact isNumeric_of_mem_natRepr h
  | negSucc n =>
    rw [intText_negSucc] at h
    rcases List.mem_cons.mp h with rfl | h
    · decide
    · exact isNumeric_of_mem_natRepr h

theorem intText_ne_nil (n : Int) : intText n ≠ [] := by
  cases n with
  | ofNat n =>
    intro h
    exact Nat.repr_ne_empty (String.toList_inj.mp (List.map_eq_nil_iff.mp h))
  | negSucc n =>
    rw [intText_negSucc]
    exact List.cons_ne_nil _ _

theorem intText_inj {m n : Int} (h : intText m = intText n) : m = n :=
  Int.repr_injective (str_inj.mp h)

theorem encodable_intText (n : Int) : Encodable (intText n) := by
  refine encodable_ascii fun c hc => ?_
  have h := isNumeric_of_mem_intText hc
  simp only [isNumeric, Bool.or_eq_true, isDigit, inRange_eq_true, decide_eq_true_eq] at h
  rcases h with ⟨-, h⟩ | rfl
  · exact lt_of_le_of_lt h (by decide)
  · decide

/-- Text that no number continues into. -/
def Delimited (r : Str) : Prop := ∀ c, r.head? = some c → isNumeric c = false

theorem numeric_append_inj {s t r r' : Str} (hs : ∀ c ∈ s, isNumeric c = true)
    (ht : ∀ c ∈ t, isNumeric c = true) (hr : Delimited r) (hr' : Delimited r') (h : s ++ r = t ++ r') :
    s = t ∧ r = r' := by
  induction s generalizing t with
  | nil =>
    cases t with
    | nil => exact ⟨rfl, h⟩
    | cons d t =>
      have hd := hr d (by rw [List.nil_append] at h; rw [h]; rfl)
      rw [ht d List.mem_cons_self] at hd
      cases hd
  | cons c s ih =>
    cases t with
    | nil =>
      have hc := hr' c (by rw [List.nil_append] at h; rw [← h]; rfl)
      rw [hs c List.mem_cons_self] at hc
      cases hc
    | cons d t =>
      simp only [List.cons_append, List.cons.injEq] at h
      obtain ⟨rfl, hrest⟩ := h
      obtain ⟨rfl, hr⟩ := ih (fun c hc => hs c (List.mem_cons_of_mem _ hc))
        (fun c hc => ht c (List.mem_cons_of_mem _ hc)) hrest
      exact ⟨rfl, hr⟩

/-! ## Values -/

namespace Json

mutual

def text : Json → Option Str
  | .null => some "null"
  | .bool b => some (if b then "true" else "false")
  | .int n => some (intText n)
  | .float _ => none
  | .str s => some (quote s)
  | .arr items => (itemsText [] items).map fun t => codePoint '[' :: (t ++ [codePoint ']'])
  | .obj entries => (entriesText [] entries).map fun t => codePoint '{' :: (t ++ [codePoint '}'])

/-- The items of an array, the first of them after a given separator. -/
def itemsText : Str → List Json → Option Str
  | _, [] => some []
  | separator, v :: items => do
    let head ← text v
    let rest ← itemsText [codePoint ','] items
    return separator ++ (head ++ rest)

/-- The entries of a mapping, the first of them after a given separator. -/
def entriesText : Str → List (Str × Json) → Option Str
  | _, [] => some []
  | separator, (k, v) :: entries => do
    let head ← text v
    let rest ← entriesText [codePoint ','] entries
    return separator ++ (quote k ++ (codePoint ':' :: (head ++ rest)))

end

/-- The kinds of values, told apart by the first character of their texts. -/
def kind : Json → Nat
  | .null => 0
  | .bool true => 1
  | .bool false => 2
  | .int _ => 3
  | .float _ => 4
  | .str _ => 5
  | .arr _ => 6
  | .obj _ => 7

def kindOf (c : CodePoint) : Nat :=
  if c = codePoint 'n' then 0
  else if c = codePoint 't' then 1
  else if c = codePoint 'f' then 2
  else if isNumeric c then 3
  else if c = codePoint '"' then 5
  else if c = codePoint '[' then 6
  else if c = codePoint '{' then 7
  else 8

theorem kindOf_numeric {c : CodePoint} (h : isNumeric c = true) : kindOf c = 3 := by
  unfold kindOf
  rw [if_neg, if_neg, if_neg, if_pos h]
  all_goals rintro rfl; exact absurd h (by decide)

/-- The text of a value starts with a character of its kind. -/
theorem kindOf_head {v : Json} {t : Str} (h : text v = some t) :
    ∃ c t', t = c :: t' ∧ kindOf c = v.kind := by
  cases v with
  | null => cases h; exact ⟨_, _, rfl, by decide⟩
  | bool b => cases b <;> cases h <;> exact ⟨_, _, rfl, by decide⟩
  | int n =>
    cases h
    cases hr : intText n with
    | nil => exact absurd hr (intText_ne_nil n)
    | cons c t' => exact ⟨c, t', rfl, kindOf_numeric (isNumeric_of_mem_intText (hr ▸ List.mem_cons_self))⟩
  | float => cases h
  | str s => cases h; exact ⟨_, _, rfl, (by decide : kindOf (codePoint '"') = 5)⟩
  | arr items =>
    obtain ⟨t', -, rfl⟩ := Option.map_eq_some_iff.mp h
    exact ⟨_, _, rfl, (by decide : kindOf (codePoint '[') = 6)⟩
  | obj entries =>
    obtain ⟨t', -, rfl⟩ := Option.map_eq_some_iff.mp h
    exact ⟨_, _, rfl, (by decide : kindOf (codePoint '{') = 7)⟩

theorem kind_le (v : Json) : v.kind ≤ 7 := by
  cases v with
  | bool b => cases b <;> decide
  | _ => simp [kind]

/-- Equal texts, whatever follows them, are those of values of one kind. -/
theorem kind_eq_of_append {v w : Json} {t t' r r' : Str} (hv : text v = some t) (hw : text w = some t')
    (h : t ++ r = t' ++ r') : v.kind = w.kind := by
  obtain ⟨c, s, rfl, hc⟩ := kindOf_head hv
  obtain ⟨d, s', rfl, hd⟩ := kindOf_head hw
  obtain ⟨rfl, -⟩ := List.cons.inj h
  rw [← hc, hd]

/-- A separator, or nothing before the first item. -/
def IsSeparator (separator : Str) : Prop := separator = [] ∨ separator = [codePoint ',']

theorem IsSeparator.encodable {separator : Str} (h : IsSeparator separator) : Encodable separator := by
  rcases h with rfl | rfl
  · exact encodable_literal rfl
  · exact encodable_literal (by decide)

theorem itemsText_cons {separator : Str} {v : Json} {items : List Json} {t : Str} :
    itemsText separator (v :: items) = some t ↔
      ∃ head rest, text v = some head ∧ itemsText [codePoint ','] items = some rest ∧
        t = separator ++ (head ++ rest) := by
  simp only [itemsText, Option.bind_eq_bind, Option.bind_eq_some_iff, Option.pure_def, Option.some.injEq]
  grind

theorem entriesText_cons {separator k : Str} {v : Json} {entries : List (Str × Json)} {t : Str} :
    entriesText separator ((k, v) :: entries) = some t ↔
      ∃ head rest, text v = some head ∧ entriesText [codePoint ','] entries = some rest ∧
        t = separator ++ (quote k ++ (codePoint ':' :: (head ++ rest))) := by
  simp only [entriesText, Option.bind_eq_bind, Option.bind_eq_some_iff, Option.pure_def, Option.some.injEq]
  grind

theorem delimited_cons {c : CodePoint} (h : isNumeric c = false) (r : Str) : Delimited (c :: r) := by
  intro d hd
  cases hd
  exact h

/-- What follows an item is a comma or the bracket that closes the array. -/
theorem delimited_items {items : List Json} {t r : Str} (h : itemsText [codePoint ','] items = some t) :
    Delimited (t ++ codePoint ']' :: r) := by
  cases items with
  | nil => cases h; exact delimited_cons (by decide) _
  | cons v items =>
    obtain ⟨_, _, -, -, rfl⟩ := itemsText_cons.mp h
    exact delimited_cons (by decide) _

theorem delimited_entries {entries : List (Str × Json)} {t r : Str}
    (h : entriesText [codePoint ','] entries = some t) : Delimited (t ++ codePoint '}' :: r) := by
  cases entries with
  | nil => cases h; exact delimited_cons (by decide) _
  | cons e entries =>
    obtain ⟨k, v⟩ := e
    obtain ⟨_, _, -, -, rfl⟩ := entriesText_cons.mp h
    exact delimited_cons (by decide) _

/-- The first item of an array is not its closing bracket. -/
theorem close_ne_item {separator head s r : Str} {v : Json} (hsep : IsSeparator separator)
    (hv : text v = some head) : codePoint ']' :: r ≠ separator ++ (head ++ s) := by
  intro h
  rcases hsep with rfl | rfl
  · obtain ⟨c, t, rfl, hc⟩ := kindOf_head hv
    obtain ⟨rfl, -⟩ := List.cons.inj h
    have hkind : kindOf (codePoint ']') = 8 := by decide
    have hle := kind_le v
    omega
  · exact absurd (List.cons.inj h).1 (by decide)

/-- The first entry of a mapping is not its closing brace. -/
theorem close_ne_entry {separator k s r : Str} (hsep : IsSeparator separator) :
    codePoint '}' :: r ≠ separator ++ (quote k ++ s) := by
  intro h
  rcases hsep with rfl | rfl <;> exact absurd (List.cons.inj h).1 (by decide)

mutual

/-- **No text of a value is the beginning of another's**, where no number continues into what follows. -/
theorem text_append_inj {v w : Json} {t t' r r' : Str} (hv : text v = some t) (hw : text w = some t')
    (hr : Delimited r) (hr' : Delimited r') (h : t ++ r = t' ++ r') : v = w ∧ r = r' := by
  have hkind := kind_eq_of_append hv hw h
  match v, w with
  | .null, .null => cases hv; cases hw; exact ⟨rfl, List.append_cancel_left h⟩
  | .bool true, .bool true => cases hv; cases hw; exact ⟨rfl, List.append_cancel_left h⟩
  | .bool false, .bool false => cases hv; cases hw; exact ⟨rfl, List.append_cancel_left h⟩
  | .int m, .int n =>
    cases hv
    cases hw
    obtain ⟨hn, hrest⟩ := numeric_append_inj (fun _ => isNumeric_of_mem_intText)
      (fun _ => isNumeric_of_mem_intText) hr hr' h
    exact ⟨congrArg _ (intText_inj hn), hrest⟩
  | .str a, .str b =>
    cases hv
    cases hw
    obtain ⟨rfl, hrest⟩ := quoteRest_append_inj (List.cons.inj h).2
    exact ⟨rfl, hrest⟩
  | .arr vs, .arr ws =>
    obtain ⟨s, hs, rfl⟩ := Option.map_eq_some_iff.mp hv
    obtain ⟨s', hs', rfl⟩ := Option.map_eq_some_iff.mp hw
    obtain ⟨rfl, hrest⟩ := itemsText_append_inj (Or.inl rfl) hs hs' (by simpa using h)
    exact ⟨rfl, hrest⟩
  | .obj es, .obj fs =>
    obtain ⟨s, hs, rfl⟩ := Option.map_eq_some_iff.mp hv
    obtain ⟨s', hs', rfl⟩ := Option.map_eq_some_iff.mp hw
    obtain ⟨rfl, hrest⟩ := entriesText_append_inj (Or.inl rfl) hs hs' (by simpa using h)
    exact ⟨rfl, hrest⟩

theorem itemsText_append_inj {separator : Str} {vs ws : List Json} {t t' r r' : Str}
    (hsep : IsSeparator separator) (hv : itemsText separator vs = some t)
    (hw : itemsText separator ws = some t') (h : t ++ codePoint ']' :: r = t' ++ codePoint ']' :: r') :
    vs = ws ∧ r = r' := by
  match vs, ws with
  | [], [] =>
    cases hv
    cases hw
    exact ⟨rfl, (List.cons.inj h).2⟩
  | [], w :: ws =>
    obtain ⟨_, _, hhead, -, rfl⟩ := itemsText_cons.mp hw
    cases hv
    exact absurd (by simpa using h) (close_ne_item hsep hhead)
  | v :: vs, [] =>
    obtain ⟨_, _, hhead, -, rfl⟩ := itemsText_cons.mp hv
    cases hw
    exact absurd (by simpa using h.symm) (close_ne_item hsep hhead)
  | v :: vs, w :: ws =>
    obtain ⟨_, _, hhead, hvs, rfl⟩ := itemsText_cons.mp hv
    obtain ⟨_, _, hhead', hws, rfl⟩ := itemsText_cons.mp hw
    simp only [List.append_assoc, List.append_cancel_left_eq] at h
    obtain ⟨rfl, hrest⟩ := text_append_inj hhead hhead' (delimited_items hvs) (delimited_items hws) h
    obtain ⟨rfl, hr⟩ := itemsText_append_inj (Or.inr rfl) hvs hws hrest
    exact ⟨rfl, hr⟩

theorem entriesText_append_inj {separator : Str} {es fs : List (Str × Json)} {t t' r r' : Str}
    (hsep : IsSeparator separator) (hv : entriesText separator es = some t)
    (hw : entriesText separator fs = some t') (h : t ++ codePoint '}' :: r = t' ++ codePoint '}' :: r') :
    es = fs ∧ r = r' := by
  match es, fs with
  | [], [] =>
    cases hv
    cases hw
    exact ⟨rfl, (List.cons.inj h).2⟩
  | [], (k, w) :: fs =>
    obtain ⟨_, _, -, -, rfl⟩ := entriesText_cons.mp hw
    cases hv
    exact absurd (by simpa using h) (close_ne_entry hsep)
  | (k, v) :: es, [] =>
    obtain ⟨_, _, -, -, rfl⟩ := entriesText_cons.mp hv
    cases hw
    exact absurd (by simpa using h.symm) (close_ne_entry hsep)
  | (k, v) :: es, (k', w) :: fs =>
    obtain ⟨_, _, hhead, hvs, rfl⟩ := entriesText_cons.mp hv
    obtain ⟨_, _, hhead', hws, rfl⟩ := entriesText_cons.mp hw
    simp only [List.append_assoc, List.append_cancel_left_eq] at h
    obtain ⟨rfl, hentry⟩ := quoteRest_append_inj (List.cons.inj h).2
    simp only [List.cons_append, List.append_assoc, List.cons.injEq, true_and] at hentry
    obtain ⟨rfl, hrest⟩ := text_append_inj hhead hhead' (delimited_entries hvs) (delimited_entries hws) hentry
    obtain ⟨rfl, hr⟩ := entriesText_append_inj (Or.inr rfl) hvs hws hrest
    exact ⟨rfl, hr⟩

end

mutual

/-- The text of a textual value has a UTF-8 encoding. -/
theorem text_of_textual {v : Json} (h : Textual v) : ∃ t, text v = some t ∧ Encodable t := by
  match v, h with
  | .null, _ => exact ⟨_, rfl, encodable_literal (by decide)⟩
  | .bool true, _ => exact ⟨_, rfl, encodable_literal (by decide)⟩
  | .bool false, _ => exact ⟨_, rfl, encodable_literal (by decide)⟩
  | .int n, _ => exact ⟨_, rfl, encodable_intText n⟩
  | .str s, .str h => exact ⟨_, rfl, encodable_quote h⟩
  | .arr items, .arr h =>
    obtain ⟨t, ht, he⟩ := itemsText_of_textual (Or.inl rfl) h
    refine ⟨_, by rw [text, ht]; rfl, encodable_cons.mpr ⟨by decide, he.append (encodable_literal (by decide))⟩⟩
  | .obj entries, .obj hk h =>
    obtain ⟨t, ht, he⟩ := entriesText_of_textual (Or.inl rfl) hk h
    refine ⟨_, by rw [text, ht]; rfl, encodable_cons.mpr ⟨by decide, he.append (encodable_literal (by decide))⟩⟩

theorem itemsText_of_textual {separator : Str} {items : List Json} (hsep : IsSeparator separator)
    (h : ∀ v ∈ items, Textual v) : ∃ t, itemsText separator items = some t ∧ Encodable t := by
  match items with
  | [] => exact ⟨_, rfl, encodable_literal rfl⟩
  | v :: items =>
    obtain ⟨hv, h⟩ := List.forall_mem_cons.mp h
    obtain ⟨head, hhead, he⟩ := text_of_textual hv
    obtain ⟨rest, hrest, hr⟩ := itemsText_of_textual (Or.inr rfl) h
    exact ⟨_, itemsText_cons.mpr ⟨head, rest, hhead, hrest, rfl⟩, hsep.encodable.append (he.append hr)⟩

theorem entriesText_of_textual {separator : Str} {entries : List (Str × Json)} (hsep : IsSeparator separator)
    (hk : ∀ e ∈ entries, Encodable e.1) (h : ∀ e ∈ entries, Textual e.2) :
    ∃ t, entriesText separator entries = some t ∧ Encodable t := by
  match entries with
  | [] => exact ⟨_, rfl, encodable_literal rfl⟩
  | (k, v) :: entries =>
    obtain ⟨hk, hks⟩ := List.forall_mem_cons.mp hk
    obtain ⟨hv, h⟩ := List.forall_mem_cons.mp h
    obtain ⟨head, hhead, he⟩ := text_of_textual hv
    obtain ⟨rest, hrest, hr⟩ := entriesText_of_textual (Or.inr rfl) hks h
    exact ⟨_, entriesText_cons.mpr ⟨head, rest, hhead, hrest, rfl⟩, hsep.encodable.append
      ((encodable_quote hk).append (encodable_cons.mpr ⟨by decide, he.append hr⟩))⟩

end

end Json

/-! ## Bytes -/

/-- The character of a code point that is no surrogate. -/
def character (c : CodePoint) (h : Nat.isValidChar c.val) : Char := Char.ofNatAux c.val h

/-- The characters of encodable text. -/
def chars? : Str → Option (List Char)
  | [] => some []
  | c :: s =>
    if h : Nat.isValidChar c.val then (chars? s).map (character c h :: ·) else none

/-- `s.encode("utf-8")` -/
def encodeText (s : Str) : Option Bytes := (chars? s).map (·.flatMap String.utf8EncodeChar)

theorem chars?_eq_some {s : Str} {l : List Char} (h : chars? s = some l) : s = l.map codePoint := by
  induction s generalizing l with
  | nil => cases h; rfl
  | cons c s ih =>
    unfold chars? at h
    split at h
    · obtain ⟨l', hl', rfl⟩ := Option.map_eq_some_iff.mp h
      rw [List.map_cons, ← ih hl']
      rfl
    · cases h

theorem chars?_of_encodable {s : Str} (h : Encodable s) : ∃ l, chars? s = some l := by
  induction s with
  | nil => exact ⟨[], rfl⟩
  | cons c s ih =>
    obtain ⟨hc, hs⟩ := encodable_cons.mp h
    obtain ⟨l, hl⟩ := ih hs
    have hvalid : Nat.isValidChar c.val := by
      have := c.isLt
      simp only [Nat.isValidChar]
      omega
    exact ⟨_, by rw [chars?, dif_pos hvalid, hl]; rfl⟩

/-- Texts of equal bytes are equal. -/
theorem encodeText_inj {s t : Str} {b : Bytes} (hs : encodeText s = some b) (ht : encodeText t = some b) :
    s = t := by
  obtain ⟨l, hl, rfl⟩ := Option.map_eq_some_iff.mp hs
  obtain ⟨m, hm, he⟩ := Option.map_eq_some_iff.mp ht
  have hutf8 : l.utf8Encode = m.utf8Encode := congrArg List.toByteArray he.symm
  have hof : String.ofList l = String.ofList m := by
    rw [← String.toByteArray_inj, String.toByteArray_ofList, String.toByteArray_ofList, hutf8]
  rw [chars?_eq_some hl, chars?_eq_some hm, String.ofList_injective hof]

namespace Json

/-- The encoded text of a value in the order of its keys. -/
def canonicalBytes (v : Json) : Option Bytes := (text (canon v)).bind encodeText

theorem canonicalBytes_of_textual {v : Json} (h : Textual v) : ∃ b, canonicalBytes v = some b := by
  obtain ⟨t, ht, he⟩ := text_of_textual h.canon
  obtain ⟨l, hl⟩ := chars?_of_encodable he
  exact ⟨_, by rw [canonicalBytes, ht, Option.bind_some, encodeText, hl]; rfl⟩

/-- **Equal bytes are those of equal values.** -/
theorem canonicalBytes_inj {v w : Json} {b : Bytes} (hv : canonicalBytes v = some b)
    (hw : canonicalBytes w = some b) : canon v = canon w := by
  obtain ⟨t, ht, hb⟩ := Option.bind_eq_some_iff.mp hv
  obtain ⟨t', ht', hb'⟩ := Option.bind_eq_some_iff.mp hw
  have hnil : Delimited [] := by rintro c ⟨⟩
  exact (text_append_inj ht ht' hnil hnil (congrArg (· ++ []) (encodeText_inj hb hb'))).1

end Json

end ObjectCommon
