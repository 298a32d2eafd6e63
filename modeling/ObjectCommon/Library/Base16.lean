import Mathlib.Data.List.Basic
import Mathlib.Tactic.Common

/-!
# Base 16

Bytes written as pairs of four-bit numbers, the high one first.

* `nibbles bs` : the four-bit numbers of a byte string; `length_nibbles`;
* `nibbles_injective` : they determine it.
-/

namespace Base16

def high (b : UInt8) : Fin 16 := ⟨b.toNat / 16, by have := b.toNat_lt; omega⟩

def low (b : UInt8) : Fin 16 := ⟨b.toNat % 16, by omega⟩

/-- A byte is its two halves. -/
theorem eq_of_halves {a b : UInt8} (hhigh : high a = high b) (hlow : low a = low b) : a = b := by
  have h1 : a.toNat / 16 = b.toNat / 16 := congrArg Fin.val hhigh
  have h2 : a.toNat % 16 = b.toNat % 16 := congrArg Fin.val hlow
  apply UInt8.toNat_inj.mp
  omega

/-- The four-bit numbers of a byte string. -/
def nibbles : List UInt8 → List (Fin 16)
  | [] => []
  | b :: bs => high b :: low b :: nibbles bs

theorem length_nibbles (bs : List UInt8) : (nibbles bs).length = 2 * bs.length := by
  induction bs with
  | nil => rfl
  | cons b bs ih =>
    rw [nibbles, List.length_cons, List.length_cons, List.length_cons, ih]
    omega

theorem nibbles_injective : Function.Injective nibbles := by
  intro bs
  induction bs with
  | nil =>
    intro bs' h
    cases bs' with
    | nil => rfl
    | cons b' bs' => cases h
  | cons b bs ih =>
    intro bs' h
    cases bs' with
    | nil => cases h
    | cons b' bs' =>
      obtain ⟨hhigh, hlow, hrest⟩ : high b = high b' ∧ low b = low b' ∧ nibbles bs = nibbles bs' := by
        simpa only [nibbles, List.cons.injEq] using h
      rw [eq_of_halves hhigh hlow, ih hrest]

end Base16
