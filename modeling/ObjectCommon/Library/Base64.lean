import Mathlib.Algebra.Group.Nat.Defs
import Mathlib.Tactic.Common

/-!
# Base 64

Bytes written in groups of three as four six-bit numbers, the last group cut short when one or two
bytes are left over.

* `sextets bs` : the six-bit numbers of a byte string, unused bits zero; `length_sextets`;
* `bytes? xs` : the bytes of six-bit numbers; the unused bits of the last one are ignored, a single
  left-over number is no byte string;
* `unusedBits n`, `sextets_of_bytes?` : the bits of the last of `n` numbers that no byte takes; writing what was read
  clears them;
* `Alphabet` : the symbols of the 64 numbers; `encode`, `decode?` through it (`decode?_encode`).
-/

namespace Base64

/-- The six-bit numbers of a byte string. -/
def sextets : List UInt8 → List (Fin 64)
  | [] => []
  | [a] =>
    [⟨a.toNat / 4, by have := a.toNat_lt; omega⟩, ⟨a.toNat % 4 * 16, by omega⟩]
  | [a, b] =>
    [⟨a.toNat / 4, by have := a.toNat_lt; omega⟩,
      ⟨a.toNat % 4 * 16 + b.toNat / 16, by have := b.toNat_lt; omega⟩, ⟨b.toNat % 16 * 4, by omega⟩]
  | a :: b :: c :: bs =>
    ⟨a.toNat / 4, by have := a.toNat_lt; omega⟩ ::
      ⟨a.toNat % 4 * 16 + b.toNat / 16, by have := b.toNat_lt; omega⟩ ::
      ⟨b.toNat % 16 * 4 + c.toNat / 64, by have := c.toNat_lt; omega⟩ ::
      ⟨c.toNat % 64, by omega⟩ :: sextets bs

/-- The bytes of six-bit numbers. -/
def bytes? : List (Fin 64) → Option (List UInt8)
  | [] => some []
  | [_] => none
  | [x, y] => some [UInt8.ofNat (x.val * 4 + y.val / 16)]
  | [x, y, z] =>
    some [UInt8.ofNat (x.val * 4 + y.val / 16), UInt8.ofNat (y.val % 16 * 16 + z.val / 4)]
  | x :: y :: z :: w :: xs =>
    (bytes? xs).map fun bs => UInt8.ofNat (x.val * 4 + y.val / 16) ::
      UInt8.ofNat (y.val % 16 * 16 + z.val / 4) :: UInt8.ofNat (z.val % 4 * 64 + w.val) :: bs

theorem ofNat_eq_of_toNat {a : UInt8} {n : Nat} (h : n = a.toNat) : UInt8.ofNat n = a := by
  rw [h, UInt8.ofNat_toNat]

theorem bytes?_sextets (bs : List UInt8) : bytes? (sextets bs) = some bs := by
  induction bs using sextets.induct with
  | case1 => rfl
  | case2 a =>
    simp only [sextets, bytes?, Option.some.injEq, List.cons.injEq, and_true]
    exact ofNat_eq_of_toNat (by omega)
  | case3 a b =>
    simp only [sextets, bytes?, Option.some.injEq, List.cons.injEq, and_true]
    have hb := b.toNat_lt
    exact ⟨ofNat_eq_of_toNat (by omega), ofNat_eq_of_toNat (by omega)⟩
  | case4 a b c bs ih =>
    simp only [sextets, bytes?, ih, Option.map_some, Option.some.injEq, List.cons.injEq, and_true]
    have hb := b.toNat_lt
    have hc := c.toNat_lt
    exact ⟨ofNat_eq_of_toNat (by omega), ofNat_eq_of_toNat (by omega), ofNat_eq_of_toNat (by omega)⟩

/-- Three bytes take four numbers; one left over takes two, two left over take three. -/
theorem length_sextets (bs : List UInt8) : (sextets bs).length = (bs.length * 4 + 2) / 3 := by
  induction bs using sextets.induct with
  | case1 => rfl
  | case2 a => simp [sextets]
  | case3 a b => simp [sextets]
  | case4 a b c bs ih =>
    simp only [sextets, List.length_cons, ih]
    omega

/-- What six-bit numbers decode to has one byte for every eight bits. -/
theorem length_bytes? {xs : List (Fin 64)} {bs : List UInt8} (h : bytes? xs = some bs) :
    bs.length = xs.length * 3 / 4 ∧ xs.length % 4 ≠ 1 := by
  induction xs using bytes?.induct generalizing bs with
  | case1 => cases h; simp
  | case2 x => cases h
  | case3 x y => cases h; simp
  | case4 x y z => cases h; simp
  | case5 x y z w xs ih =>
    obtain ⟨bs', h', rfl⟩ := Option.map_eq_some_iff.mp h
    obtain ⟨h1, h2⟩ := ih h'
    simp only [List.length_cons]
    omega

/-- Six-bit numbers decode unless a single one is left over. -/
theorem exists_bytes? {xs : List (Fin 64)} (h : xs.length % 4 ≠ 1) : ∃ bs, bytes? xs = some bs := by
  induction xs using bytes?.induct with
  | case1 => exact ⟨_, rfl⟩
  | case2 x => exact absurd rfl h
  | case3 x y => exact ⟨_, rfl⟩
  | case4 x y z => exact ⟨_, rfl⟩
  | case5 x y z w xs ih =>
    obtain ⟨bs, hbs⟩ := ih (by simp only [List.length_cons] at h; omega)
    exact ⟨_, by rw [bytes?, hbs]; rfl⟩

/-! ## Unused bits -/

/-- The low bits of the last of `n` numbers that no byte takes. -/
def unusedBits (n : Nat) : Nat := 6 * n % 8

/-- The number with its `k` low bits cleared. -/
def clearBits (k : Nat) (i : Fin 64) : Fin 64 :=
  ⟨i.val / 2 ^ k * 2 ^ k, Nat.lt_of_le_of_lt (Nat.div_mul_le_self _ _) i.isLt⟩

/-- Six-bit numbers with the unused bits of the last one cleared. -/
def cleared (xs : List (Fin 64)) : List (Fin 64) :=
  xs.dropLast ++ (xs.getLast?.map (clearBits (unusedBits xs.length))).toList

theorem clearBits_zero (i : Fin 64) : clearBits 0 i = i := by
  apply Fin.ext
  simp [clearBits]

theorem clearBits_eq_iff {k : Nat} {i j : Fin 64} : clearBits k i = clearBits k j ↔ i.val / 2 ^ k = j.val / 2 ^ k := by
  rw [clearBits, clearBits, Fin.mk.injEq]
  exact Nat.mul_left_inj (Nat.ne_of_gt (Nat.two_pow_pos k))

theorem clearBits_eq_self_iff {k : Nat} {i : Fin 64} : clearBits k i = i ↔ i.val % 2 ^ k = 0 := by
  have h := Nat.div_add_mod' i.val (2 ^ k)
  rw [Fin.ext_iff]
  show i.val / 2 ^ k * 2 ^ k = i.val ↔ i.val % 2 ^ k = 0
  omega

/-- A group of four has no unused bits. -/
theorem cleared_cons_cons_cons_cons (x y z w : Fin 64) (xs : List (Fin 64)) :
    cleared (x :: y :: z :: w :: xs) = x :: y :: z :: w :: cleared xs := by
  have hbits : unusedBits (xs.length + 1 + 1 + 1 + 1) = unusedBits xs.length := by
    unfold unusedBits
    omega
  cases xs with
  | nil =>
    unfold cleared
    simp [unusedBits, clearBits_zero]
  | cons v vs =>
    unfold cleared
    rw [List.length_cons, List.length_cons, List.length_cons, List.length_cons, hbits]
    simp only [List.dropLast_cons_cons, List.getLast?_cons_cons, List.cons_append]

theorem toNat_ofNat {n : Nat} (h : n < 256) : (UInt8.ofNat n).toNat = n := by
  rw [UInt8.toNat_ofNat', Nat.mod_eq_of_lt h]

/-- What was read is written again with the unused bits cleared. -/
theorem sextets_of_bytes? {xs : List (Fin 64)} {bs : List UInt8} (h : bytes? xs = some bs) :
    sextets bs = cleared xs := by
  induction xs using bytes?.induct generalizing bs with
  | case1 =>
    cases h
    rfl
  | case2 x => cases h
  | case3 x y =>
    cases h
    have hx := toNat_ofNat (show x.val * 4 + y.val / 16 < 256 by omega)
    simp only [sextets, cleared, clearBits, unusedBits, hx, List.dropLast, List.getLast?_cons_cons,
      List.getLast?_singleton, Option.map_some, Option.toList, List.cons_append, List.nil_append, List.length_cons,
      List.length_nil, List.cons.injEq, Fin.ext_iff, and_true]
    constructor
    · omega
    · show (x.val * 4 + y.val / 16) % 4 * 16 = y.val / 16 * 16
      omega
  | case4 x y z =>
    cases h
    have hx := toNat_ofNat (show x.val * 4 + y.val / 16 < 256 by omega)
    have hy := toNat_ofNat (show y.val % 16 * 16 + z.val / 4 < 256 by omega)
    simp only [sextets, cleared, clearBits, unusedBits, hx, hy, List.dropLast, List.getLast?_cons_cons,
      List.getLast?_singleton, Option.map_some, Option.toList, List.cons_append, List.nil_append, List.length_cons,
      List.length_nil, List.cons.injEq, Fin.ext_iff, and_true]
    refine ⟨?_, ?_, ?_⟩
    · omega
    · omega
    · show (y.val % 16 * 16 + z.val / 4) % 16 * 4 = z.val / 4 * 4
      omega
  | case5 x y z w xs ih =>
    obtain ⟨bs', h', rfl⟩ := Option.map_eq_some_iff.mp h
    have hx := toNat_ofNat (show x.val * 4 + y.val / 16 < 256 by omega)
    have hy := toNat_ofNat (show y.val % 16 * 16 + z.val / 4 < 256 by omega)
    have hz := toNat_ofNat (show z.val % 4 * 64 + w.val < 256 by omega)
    rw [cleared_cons_cons_cons_cons]
    simp only [sextets, hx, hy, hz, ih h', List.cons.injEq, Fin.ext_iff, and_true]
    refine ⟨?_, ?_, ?_, ?_⟩ <;> omega

/-- What was read is written again as it was exactly when its unused bits are zero. -/
theorem sextets_eq_iff {xs : List (Fin 64)} {bs : List UInt8} (h : bytes? xs = some bs) :
    sextets bs = xs ↔ ∀ i ∈ xs.getLast?, i.val % 2 ^ unusedBits xs.length = 0 := by
  rw [sextets_of_bytes? h, cleared]
  rcases List.eq_nil_or_concat xs with rfl | ⟨ys, i, rfl⟩
  · simp
  · simp [clearBits_eq_self_iff]

/-- What is written has its unused bits zero. -/
theorem unusedBits_sextets (bs : List UInt8) :
    ∀ i ∈ (sextets bs).getLast?, i.val % 2 ^ unusedBits (sextets bs).length = 0 :=
  (sextets_eq_iff (bytes?_sextets bs)).mp rfl

/-- The last number of bytes that do not fill a group has two low bits zero. -/
theorem getLast?_sextets_mod {bs : List UInt8} (h : bs.length % 3 ≠ 0) :
    ∀ i ∈ (sextets bs).getLast?, i.val % 4 = 0 := by
  intro i hi
  have hzero := unusedBits_sextets bs i hi
  have hlen := length_sextets bs
  have hbits : unusedBits (sextets bs).length = 2 ∨ unusedBits (sextets bs).length = 4 := by
    unfold unusedBits
    omega
  rcases hbits with hbits | hbits
  · rw [hbits] at hzero
    omega
  · rw [hbits] at hzero
    omega

/-- The used bits of six-bit numbers agree. -/
structure SameUsedBits (xs ys : List (Fin 64)) : Prop where
  length : xs.length = ys.length
  dropLast : xs.dropLast = ys.dropLast
  last : ∀ i ∈ xs.getLast?, ∀ j ∈ ys.getLast?, i.val / 2 ^ unusedBits xs.length = j.val / 2 ^ unusedBits xs.length

theorem length_cleared (xs : List (Fin 64)) : (cleared xs).length = xs.length := by
  rcases List.eq_nil_or_concat xs with rfl | ⟨ys, i, rfl⟩
  · rfl
  · simp [cleared]

theorem cleared_eq_iff {xs ys : List (Fin 64)} : cleared xs = cleared ys ↔ SameUsedBits xs ys := by
  rcases List.eq_nil_or_concat xs with rfl | ⟨xs, i, rfl⟩
  · rcases List.eq_nil_or_concat ys with rfl | ⟨ys, j, rfl⟩
    · exact iff_of_true rfl ⟨rfl, rfl, by simp⟩
    · refine iff_of_false (fun h => ?_) fun h => by simpa using h.length
      simpa [cleared] using congrArg List.length h
  · rcases List.eq_nil_or_concat ys with rfl | ⟨ys, j, rfl⟩
    · refine iff_of_false (fun h => ?_) fun h => by simpa using h.length
      simpa [cleared] using congrArg List.length h
    · constructor
      · intro h
        have hlen : xs.length = ys.length := by simpa [length_cleared] using congrArg List.length h
        simp only [cleared, List.concat_eq_append, List.dropLast_concat, List.getLast?_concat, Option.map_some,
          Option.toList, List.length_append] at h
        obtain ⟨rfl, hlast⟩ := List.append_inj h hlen
        refine ⟨by simp, by simp, ?_⟩
        simpa [clearBits_eq_iff] using hlast
      · rintro ⟨hlen, hdrop, hlast⟩
        simp only [List.concat_eq_append, List.dropLast_concat] at hdrop
        subst hdrop
        have hbits : clearBits (unusedBits (xs.length + 1)) i = clearBits (unusedBits (xs.length + 1)) j :=
          clearBits_eq_iff.mpr (by simpa using hlast)
        simp [cleared, hbits]

/-- Six-bit numbers are read alike exactly when their used bits agree. -/
theorem bytes?_eq_iff {xs ys : List (Fin 64)} {bs bs' : List UInt8} (h : bytes? xs = some bs)
    (h' : bytes? ys = some bs') : bs = bs' ↔ SameUsedBits xs ys := by
  rw [← cleared_eq_iff, ← sextets_of_bytes? h, ← sextets_of_bytes? h']
  constructor
  · exact congrArg sextets
  · intro hs
    have hread := congrArg bytes? hs
    rw [bytes?_sextets, bytes?_sextets] at hread
    exact Option.some.inj hread

/-! ## Text -/

/-- The symbols of the 64 six-bit numbers. -/
structure Alphabet (α : Type) where
  symbol : Fin 64 → α
  index : α → Option (Fin 64)
  index_symbol : ∀ i, index (symbol i) = some i

namespace Alphabet

variable {α : Type} (A : Alphabet α)

def encode (bs : List UInt8) : List α := (sextets bs).map A.symbol

/-- The numbers of a text, if all its symbols are in the alphabet. -/
def indices? : List α → Option (List (Fin 64))
  | [] => some []
  | c :: s => (A.index c).bind fun i => (indices? s).map (i :: ·)

def decode? (s : List α) : Option (List UInt8) := (A.indices? s).bind bytes?

theorem indices?_map_symbol (xs : List (Fin 64)) : A.indices? (xs.map A.symbol) = some xs := by
  induction xs with
  | nil => rfl
  | cons x xs ih => simp [indices?, A.index_symbol, ih]

theorem length_indices? {s : List α} {xs : List (Fin 64)} (h : A.indices? s = some xs) :
    xs.length = s.length := by
  induction s generalizing xs with
  | nil => cases h; rfl
  | cons c s ih =>
    obtain ⟨i, -, h⟩ := Option.bind_eq_some_iff.mp h
    obtain ⟨ys, hys, rfl⟩ := Option.map_eq_some_iff.mp h
    simp [ih hys]

/-- Where a number has one symbol, a text is that of its numbers. -/
theorem map_symbol_indices? (hA : ∀ c i, A.index c = some i → A.symbol i = c) {s : List α} {xs : List (Fin 64)}
    (h : A.indices? s = some xs) : xs.map A.symbol = s := by
  induction s generalizing xs with
  | nil =>
    cases h
    rfl
  | cons c s ih =>
    obtain ⟨i, hi, h⟩ := Option.bind_eq_some_iff.mp h
    obtain ⟨ys, hys, rfl⟩ := Option.map_eq_some_iff.mp h
    rw [List.map_cons, hA c i hi, ih hys]

theorem symbol_injective : Function.Injective A.symbol := by
  intro i j h
  have hi := A.index_symbol i
  rw [h, A.index_symbol j] at hi
  exact (Option.some.inj hi).symm

theorem decode?_encode (bs : List UInt8) : A.decode? (A.encode bs) = some bs := by
  unfold decode? encode
  rw [indices?_map_symbol, Option.bind_some, bytes?_sextets]

theorem encode_injective : Function.Injective A.encode := by
  intro bs bs' h
  have hread := A.decode?_encode bs
  rw [h, A.decode?_encode] at hread
  exact (Option.some.inj hread).symm

theorem length_encode (bs : List UInt8) : (A.encode bs).length = (bs.length * 4 + 2) / 3 := by
  rw [encode, List.length_map, length_sextets]

/-- A decoded text has one byte for every eight of its bits. -/
theorem length_decode? {s : List α} {bs : List UInt8} (h : A.decode? s = some bs) :
    bs.length = s.length * 3 / 4 ∧ s.length % 4 ≠ 1 := by
  obtain ⟨xs, hxs, h⟩ := Option.bind_eq_some_iff.mp h
  rw [← A.length_indices? hxs]
  exact length_bytes? h

theorem exists_indices?_iff {s : List α} :
    (∃ xs, A.indices? s = some xs) ↔ ∀ c ∈ s, (A.index c).isSome = true := by
  induction s with
  | nil => simp [indices?]
  | cons c s ih =>
    rw [List.forall_mem_cons, ← ih]
    cases hc : A.index c with
    | none => simp [indices?, hc]
    | some i => simp [indices?, hc]

/-- A text decodes when all its symbols are in the alphabet and no single one is left over. -/
theorem exists_decode?_iff {s : List α} :
    (∃ bs, A.decode? s = some bs) ↔ (∀ c ∈ s, (A.index c).isSome = true) ∧ s.length % 4 ≠ 1 := by
  rw [← A.exists_indices?_iff]
  constructor
  · rintro ⟨bs, h⟩
    obtain ⟨xs, hxs, -⟩ := Option.bind_eq_some_iff.mp h
    exact ⟨⟨xs, hxs⟩, (A.length_decode? h).2⟩
  · rintro ⟨⟨xs, hxs⟩, h⟩
    obtain ⟨bs, hbs⟩ := exists_bytes? (A.length_indices? hxs ▸ h)
    exact ⟨bs, by rw [decode?, hxs, Option.bind_some, hbs]⟩

end Alphabet

end Base64
