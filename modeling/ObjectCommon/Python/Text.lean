import Mathlib.Data.Fin.Basic
import Mathlib.Data.List.Sort
import Mathlib.Order.Lex
import Mathlib.Data.List.Lex
import Mathlib.Tactic.Common

/-!
# Python strings

A `str` is a sequence of code points, lone surrogates included.

* `str s` : the string of a literal (`str_inj`);
* `utf8Length s` : `len(s.encode("utf-8"))`, `none` where encoding fails; `Encodable s`: it does not;
* `isControl`, `isSpace`, `inRange` : the character classes the validators use;
* `foldedAlnum c` : what case folding and the removal of everything outside `a-z0-9` leave of a
  character;
* `sorted` : Python's order on strings, code point by code point.
-/

namespace ObjectCommon

/-- A code point of a Python string. -/
abbrev CodePoint := Fin 0x110000

abbrev Str := List CodePoint

abbrev Bytes := List UInt8

theorem toNat_lt_codePoints (c : Char) : c.toNat < 0x110000 := by
  rcases c.valid with h | h
  · exact lt_trans h (by decide)
  · exact h.2

def codePoint (c : Char) : CodePoint := ⟨c.toNat, toNat_lt_codePoints c⟩

/-- The Python string of a literal. -/
def str (s : String) : Str := s.toList.map codePoint

instance : Coe String Str := ⟨str⟩

instance decidableMemStr (c : CodePoint) (s : Str) : Decidable (c ∈ s) := inferInstance

instance decidableMemStrs (s : Str) (l : List Str) : Decidable (s ∈ l) := inferInstance

theorem codePoint_injective : Function.Injective codePoint := by
  intro a b h
  unfold codePoint at h
  exact Char.toNat_inj.mp (Fin.mk.inj h)

@[simp] theorem str_inj {a b : String} : str a = str b ↔ a = b := by
  constructor
  · intro h
    exact String.toList_inj.mp (List.map_injective_iff.mpr codePoint_injective h)
  · rintro rfl; rfl

/-! ## Character classes -/

/-- `c` lies between two characters, both included. -/
def inRange (lo hi : Char) (c : CodePoint) : Bool := lo.toNat ≤ c.val && c.val ≤ hi.toNat

theorem inRange_eq_true {lo hi : Char} {c : CodePoint} :
    inRange lo hi c = true ↔ lo.toNat ≤ c.val ∧ c.val ≤ hi.toNat := by
  simp [inRange]

def isDigit (c : CodePoint) : Bool := inRange '0' '9' c

def isLower (c : CodePoint) : Bool := inRange 'a' 'z' c

def isUpper (c : CodePoint) : Bool := inRange 'A' 'Z' c

/-- `ord(character) < 32 or ord(character) == 127` -/
def isControl (c : CodePoint) : Bool := c.val < 32 || c.val == 127

/-- The characters of the class `\s` of a Unicode pattern. -/
def isSpace (c : CodePoint) : Bool :=
  c.val ∈ [0x9, 0xa, 0xb, 0xc, 0xd, 0x1c, 0x1d, 0x1e, 0x1f, 0x20, 0x85, 0xa0, 0x1680, 0x2000, 0x2001,
    0x2002, 0x2003, 0x2004, 0x2005, 0x2006, 0x2007, 0x2008, 0x2009, 0x200a, 0x2028, 0x2029, 0x202f,
    0x205f, 0x3000]

/-! ## UTF-8 -/

/-- The number of bytes of an encoded code point; a lone surrogate has no encoding. -/
def utf8Width (c : CodePoint) : Option Nat :=
  if c.val < 0x80 then some 1
  else if c.val < 0x800 then some 2
  else if 0xD800 ≤ c.val ∧ c.val ≤ 0xDFFF then none
  else if c.val < 0x10000 then some 3
  else some 4

/-- `len(s.encode("utf-8"))` -/
def utf8Length : Str → Option Nat
  | [] => some 0
  | c :: s => (utf8Width c).bind fun w => (utf8Length s).map (w + ·)

/-- No code point is a lone surrogate. -/
def Encodable (s : Str) : Prop := ∀ c ∈ s, ¬ (0xD800 ≤ c.val ∧ c.val ≤ 0xDFFF)

theorem encodable_cons {c : CodePoint} {s : Str} :
    Encodable (c :: s) ↔ ¬ (0xD800 ≤ c.val ∧ c.val ≤ 0xDFFF) ∧ Encodable s := by
  simp only [Encodable, List.forall_mem_cons]

theorem Encodable.append {s t : Str} (hs : Encodable s) (ht : Encodable t) : Encodable (s ++ t) := by
  intro c hc
  rcases List.mem_append.mp hc with hc | hc
  · exact hs c hc
  · exact ht c hc

theorem encodable_ascii {s : Str} (h : ∀ c ∈ s, c.val < 0x80) : Encodable s := by
  intro c hc
  have := h c hc
  omega

theorem encodable_literal {s : Str} (h : (s.all fun c => c.val < 0x80) = true) : Encodable s :=
  encodable_ascii fun c hc => of_decide_eq_true (List.all_eq_true.mp h c hc)

/-- Text with a byte length has a UTF-8 encoding. -/
theorem encodable_of_utf8Length {s : Str} {n : Nat} (h : utf8Length s = some n) : Encodable s := by
  induction s generalizing n with
  | nil => simp [Encodable]
  | cons c s ih =>
    obtain ⟨w, hw, h⟩ := Option.bind_eq_some_iff.mp h
    obtain ⟨m, hm, -⟩ := Option.map_eq_some_iff.mp h
    refine encodable_cons.mpr ⟨fun hc => ?_, ih hm⟩
    rw [utf8Width, if_neg (by omega), if_neg (by omega), if_pos hc] at hw
    cases hw

/-- ASCII text has one byte for each character. -/
theorem utf8Length_ascii {s : Str} (h : ∀ c ∈ s, c.val < 0x80) : utf8Length s = some s.length := by
  induction s with
  | nil => rfl
  | cons c s ih =>
    have hc : utf8Width c = some 1 := if_pos (h c List.mem_cons_self)
    rw [utf8Length, hc, ih fun d hd => h d (List.mem_cons_of_mem _ hd)]
    simp [Nat.add_comm]

theorem utf8Width_pos {c : CodePoint} {w : Nat} (h : utf8Width c = some w) : 1 ≤ w := by
  unfold utf8Width at h
  split at h
  · cases h; decide
  · split at h
    · cases h; decide
    · split at h
      · cases h
      · split at h <;> cases h <;> decide

/-- A text has no more code points than bytes. -/
theorem length_le_utf8Length {s : Str} {n : Nat} (h : utf8Length s = some n) : s.length ≤ n := by
  induction s generalizing n with
  | nil => exact Nat.zero_le _
  | cons c s ih =>
    obtain ⟨w, hw, h⟩ := Option.bind_eq_some_iff.mp h
    obtain ⟨m, hm, rfl⟩ := Option.map_eq_some_iff.mp h
    have h1 := utf8Width_pos hw
    have h2 := ih hm
    rw [List.length_cons]
    omega

/-- The first part of an encodable text is encodable, in no more bytes. -/
theorem utf8Length_append {s t : Str} {n : Nat} (h : utf8Length (s ++ t) = some n) :
    ∃ m, utf8Length s = some m ∧ m ≤ n := by
  induction s generalizing n with
  | nil => exact ⟨0, rfl, Nat.zero_le _⟩
  | cons c s ih =>
    obtain ⟨w, hw, h⟩ := Option.bind_eq_some_iff.mp h
    obtain ⟨m, hm, rfl⟩ := Option.map_eq_some_iff.mp h
    obtain ⟨k, hk, hle⟩ := ih hm
    refine ⟨w + k, ?_, Nat.add_le_add_left hle w⟩
    rw [utf8Length, hw, hk]
    rfl

/-! ## Case folding -/

theorem lower_lt {c : CodePoint} (h : isUpper c = true) : c.val + 32 < 0x110000 := by
  rw [isUpper, inRange_eq_true] at h
  have hz : 'Z'.toNat = 90 := rfl
  omega

/-- The `a-z0-9` characters of `c.casefold()`. Case folding maps a string character by character;
apart from `a-z0-9` themselves, these are all the characters whose folding has one of them. -/
def foldedAlnum (c : CodePoint) : Str :=
  if isLower c || isDigit c then [c]
  else if h : isUpper c then [⟨c.val + 32, lower_lt h⟩]
  else match c.val with
    | 0x00DF => "ss"
    | 0x0130 => "i"
    | 0x0149 => "n"
    | 0x017F => "s"
    | 0x01F0 => "j"
    | 0x1E96 => "h"
    | 0x1E97 => "t"
    | 0x1E98 => "w"
    | 0x1E99 => "y"
    | 0x1E9A => "a"
    | 0x1E9E => "ss"
    | 0x212A => "k"
    | 0xFB00 => "ff"
    | 0xFB01 => "fi"
    | 0xFB02 => "fl"
    | 0xFB03 => "ffi"
    | 0xFB04 => "ffl"
    | 0xFB05 => "st"
    | 0xFB06 => "st"
    | _ => []

/-- `re.sub(r"[^a-z0-9]", "", s.casefold())` -/
def foldedForm (s : Str) : Str := s.flatMap foldedAlnum

/-! ## Order -/

/-- `sorted` on strings: by code points, the shorter of two strings first where they agree. -/
def sorted (l : List Str) : List Str := l.insertionSort (· ≤ ·)

theorem sorted_perm (l : List Str) : (sorted l).Perm l := List.perm_insertionSort _ l

theorem sorted_pairwise (l : List Str) : (sorted l).Pairwise (· ≤ ·) :=
  List.pairwise_insertionSort (· ≤ ·) l

/-- Sorting forgets the order of its argument. -/
theorem sorted_eq_of_perm {l l' : List Str} (h : l.Perm l') : sorted l = sorted l' :=
  List.Perm.eq_of_pairwise' (sorted_pairwise l) (sorted_pairwise l')
    ((sorted_perm l).trans (h.trans (sorted_perm l').symm))

theorem sorted_eq_self {l : List Str} (h : l.Pairwise (· ≤ ·)) : sorted l = l :=
  h.insertionSort_eq

@[simp] theorem sorted_sorted (l : List Str) : sorted (sorted l) = sorted l :=
  sorted_eq_self (sorted_pairwise l)

end ObjectCommon
