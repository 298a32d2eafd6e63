import Mathlib.Algebra.Group.Int.Defs
import Mathlib.Algebra.Group.Nat.Defs
import ObjectCommon.Python.Json

/-!
# Python's equality of JSON values

`==` compares numbers by their value, whatever their type, and mappings whatever the order of their keys.

* `Number` : the value of a number, an integer or a binary float;
* `Json.pyEq` : `v == w`;
* `Json.pyEq_self` : a value without floats equals itself.
-/

namespace ObjectCommon

/-- A number: `True` and `False` are integers. -/
inductive Number where
  | int (n : Int)
  | float (bits : UInt64)

namespace Number

/-- The sign, the biased exponent and the fraction of a binary float. -/
def fields (bits : UInt64) : Bool × Nat × Nat :=
  (bits.toNat / 2 ^ 63 = 1, bits.toNat / 2 ^ 52 % 2 ^ 11, bits.toNat % 2 ^ 52)

/-- The float is the integer. An exponent of 2047 is that of an infinity or of no number; a float without
an exponent has no hidden bit. -/
def floatEqInt (bits : UInt64) (n : Int) : Bool :=
  let (negative, exponent, fraction) := fields bits
  let mantissa : Nat := if exponent = 0 then fraction else fraction + 2 ^ 52
  let signed : Int := if negative then -mantissa else mantissa
  exponent ≠ 2047 &&
    (if 1075 ≤ exponent then signed * 2 ^ (exponent - 1075) = n else signed = n * 2 ^ (1075 - max exponent 1))

/-- Two floats are equal when they are one number, the two zeros being one. -/
def floatEq (a b : UInt64) : Bool :=
  let (_, exponent, fraction) := fields a
  (a = b && !(exponent = 2047 && fraction ≠ 0)) || (a.toNat % 2 ^ 63 = 0 && b.toNat % 2 ^ 63 = 0)

/-- `a == b` -/
def pyEq : Number → Number → Bool
  | .int m, .int n => m = n
  | .int n, .float bits => floatEqInt bits n
  | .float bits, .int n => floatEqInt bits n
  | .float a, .float b => floatEq a b

end Number

namespace Json

/-- The number that a value is. -/
def number? : Json → Option Number
  | .bool b => some (.int (if b then 1 else 0))
  | .int n => some (.int n)
  | .float bits => some (.float bits)
  | _ => none

mutual

/-- `v == w` -/
def pyEq : Json → Json → Bool
  | .null, w => w.isNull
  | .str s, w => w.isStr s
  | .arr items, .arr items' => pyEqItems items items'
  | .arr _, _ => false
  | .obj entries, .obj entries' => entries.length = entries'.length && pyEqEntries entries entries'
  | .obj _, _ => false
  | v, w =>
    match v.number?, w.number? with
    | some a, some b => a.pyEq b
    | _, _ => false

def pyEqItems : List Json → List Json → Bool
  | [], [] => true
  | v :: items, w :: items' => pyEq v w && pyEqItems items items'
  | _, _ => false

/-- Each key is one of the other mapping, with an equal value. -/
def pyEqEntries : List (Str × Json) → Object → Bool
  | [], _ => true
  | (k, v) :: entries, other =>
    (match Dict.get? other k with
      | some w => pyEq v w
      | none => false) && pyEqEntries entries other

end

-- `{"deleted": 1.0} == {"deleted": True}`
example : pyEq (.obj [("deleted", .float 0x3ff0000000000000)]) (.obj [("deleted", .bool true)]) = true := by decide

mutual

/-- A value without floats equals itself. -/
theorem pyEq_self {v : Json} (hw : WellFormed v) (ht : Textual v) : pyEq v v = true := by
  cases v with
  | null => rfl
  | bool b => simp [pyEq, number?, Number.pyEq]
  | int n => simp [pyEq, number?, Number.pyEq]
  | float bits => cases ht
  | str s => simp [pyEq]
  | arr items =>
    cases hw with
    | arr hw =>
      cases ht with
      | arr ht => exact pyEqItems_self hw ht
  | obj entries =>
    have hget : ∀ e ∈ entries, Dict.get? entries e.1 = some e.2 := fun e he => (Dict.mem_iff_get? hw.keys_nodup).mp he
    cases hw with
    | obj hk hw =>
      cases ht with
      | obj hk' ht =>
        unfold pyEq
        rw [pyEqEntries_self hget hw ht]
        simp

theorem pyEqItems_self {items : List Json} (hw : ∀ v ∈ items, WellFormed v) (ht : ∀ v ∈ items, Textual v) :
    pyEqItems items items = true := by
  cases items with
  | nil => rfl
  | cons v items =>
    unfold pyEqItems
    rw [pyEq_self (hw v List.mem_cons_self) (ht v List.mem_cons_self),
      pyEqItems_self (fun w h => hw w (List.mem_cons_of_mem _ h)) fun w h => ht w (List.mem_cons_of_mem _ h)]
    rfl

theorem pyEqEntries_self {entries : List (Str × Json)} {other : Object}
    (hget : ∀ e ∈ entries, Dict.get? other e.1 = some e.2) (hw : ∀ e ∈ entries, WellFormed e.2)
    (ht : ∀ e ∈ entries, Textual e.2) : pyEqEntries entries other = true := by
  cases entries with
  | nil => rfl
  | cons e entries =>
    obtain ⟨k, v⟩ := e
    unfold pyEqEntries
    rw [hget (k, v) List.mem_cons_self, pyEqEntries_self (fun e h => hget e (List.mem_cons_of_mem _ h))
      (fun e h => hw e (List.mem_cons_of_mem _ h)) fun e h => ht e (List.mem_cons_of_mem _ h)]
    dsimp only
    rw [pyEq_self (hw (k, v) List.mem_cons_self) (ht (k, v) List.mem_cons_self)]
    rfl

end

end Json

end ObjectCommon
