import Mathlib.Tactic.Common

/-!
# Computations that return or raise

`Except ε α` read as the result of a call: a value or an exception.

* `bind_eq_ok`, `map_eq_ok`, `raiseIf_eq_ok`, `mapError_eq_ok` : when a call returns, step by step;
  rewriting with them turns a block of calls into the facts its returning gives, and back;
* `RaisesOnly E x` : every exception `x` raises satisfies `E`, with one rule for each way of
  building a call (`RaisesOnly.bind`, `RaisesOnly.mapError`, ...).
-/

namespace Outcome

variable {ε ε' α β : Type}

/-! ## Returning -/

theorem bind_eq_ok {x : Except ε α} {f : α → Except ε β} {b : β} :
    (x >>= f) = .ok b ↔ ∃ a, x = .ok a ∧ f a = .ok b := by
  cases x <;> simp [Bind.bind, Except.bind]

theorem ok_bind (a : α) (f : α → Except ε β) : (Except.ok a >>= f) = f a := rfl

/-- What a call without a value returns. -/
theorem exists_unit {p : Unit → Prop} : (∃ u, p u) ↔ p () :=
  ⟨fun ⟨_, h⟩ => h, fun h => ⟨(), h⟩⟩

theorem map_eq_ok {f : α → β} {x : Except ε α} {b : β} :
    f <$> x = .ok b ↔ ∃ a, x = .ok a ∧ f a = b := by
  cases x <;> simp [Functor.map, Except.map]

theorem pure_eq_ok {a b : α} : (pure a : Except ε α) = .ok b ↔ a = b := by
  simp [pure, Except.pure]

theorem mapError_eq_ok {f : ε → ε'} {x : Except ε α} {a : α} :
    x.mapError f = .ok a ↔ x = .ok a := by
  cases x <;> simp [Except.mapError]

theorem mapError_eq_error {f : ε → ε'} {x : Except ε α} {e' : ε'} :
    x.mapError f = .error e' ↔ ∃ e, x = .error e ∧ f e = e' := by
  cases x <;> simp [Except.mapError]

/-- The result of a call, with the fact that the call returned it. -/
def attach (x : Except ε α) : Except ε {a // x = .ok a} :=
  match x with
  | .ok a => .ok ⟨a, rfl⟩
  | .error e => .error e

theorem attach_eq_ok {x : Except ε α} {a : {a // x = .ok a}} : attach x = .ok a ↔ x = .ok a.val := by
  obtain ⟨a, rfl⟩ := a
  simp [attach]

theorem attach_eq_error {x : Except ε α} {e : ε} : attach x = .error e ↔ x = .error e := by
  cases x <;> simp [attach]

/-- Raise `e` when `c` holds, else go on. -/
def raiseIf (c : Prop) [Decidable c] (e : ε) : Except ε Unit :=
  if c then .error e else .ok ()

theorem raiseIf_eq_ok {c : Prop} [Decidable c] {e : ε} {u : Unit} :
    raiseIf c e = .ok u ↔ ¬ c := by
  unfold raiseIf
  split <;> simp_all

theorem raiseIf_eq_error {c : Prop} [Decidable c] {e e' : ε} :
    raiseIf c e = .error e' ↔ c ∧ e = e' := by
  unfold raiseIf
  split <;> simp_all

/-- A call returns or raises. -/
theorem exists_ok_of_isOk {x : Except ε α} (h : x.isOk = true) : ∃ a, x = .ok a := by
  cases x with
  | ok a => exact ⟨a, rfl⟩
  | error e => cases h

theorem ok_or_error (x : Except ε α) : (∃ a, x = .ok a) ∨ ∃ e, x = .error e := by
  cases x with
  | ok a => exact Or.inl ⟨a, rfl⟩
  | error e => exact Or.inr ⟨e, rfl⟩

/-! ## Raising -/

/-- Every exception that `x` raises satisfies `E`. -/
def RaisesOnly (E : ε → Prop) (x : Except ε α) : Prop := ∀ e, x = .error e → E e

namespace RaisesOnly

variable {E E' : ε → Prop}

theorem ok (a : α) : RaisesOnly E (.ok a) := fun _ h => by cases h

theorem pure (a : α) : RaisesOnly E (Pure.pure a : Except ε α) := ok a

theorem error {e : ε} (h : E e) : RaisesOnly E (.error e : Except ε α) :=
  fun _ he => by cases he; exact h

theorem mono {x : Except ε α} (h : RaisesOnly E x) (hE : ∀ e, E e → E' e) : RaisesOnly E' x :=
  fun e he => hE e (h e he)

/-- A sequence of calls raises only what its parts raise; the second part may use what the first
returned. -/
theorem bind {x : Except ε α} {f : α → Except ε β} (hx : RaisesOnly E x)
    (hf : ∀ a, x = .ok a → RaisesOnly E (f a)) : RaisesOnly E (x >>= f) := by
  intro e he
  cases hxa : x with
  | error e' =>
    rw [hxa] at he
    cases he
    exact hx e hxa
  | ok a =>
    rw [hxa] at he
    exact hf a hxa e he

theorem map {x : Except ε α} {f : α → β} (hx : RaisesOnly E x) : RaisesOnly E (f <$> x) := by
  intro e he
  cases hxa : x with
  | error e' =>
    rw [hxa] at he
    cases he
    exact hx e hxa
  | ok a =>
    rw [hxa] at he
    cases he

theorem attach {x : Except ε α} (hx : RaisesOnly E x) : RaisesOnly E (attach x) :=
  fun e he => hx e (attach_eq_error.mp he)

theorem raiseIf {c : Prop} [Decidable c] {e : ε} (h : c → E e) :
    RaisesOnly E (Outcome.raiseIf c e) := by
  intro e' he
  obtain ⟨hc, rfl⟩ := raiseIf_eq_error.mp he
  exact h hc

theorem ite {c : Prop} [Decidable c] {x y : Except ε α} (hx : c → RaisesOnly E x)
    (hy : ¬ c → RaisesOnly E y) : RaisesOnly E (if c then x else y) := by
  split
  · exact hx ‹c›
  · exact hy ‹¬ c›

/-- Renaming exceptions turns `E'` into `E` when it does so on each of them. -/
theorem mapError {E' : ε' → Prop} {f : ε → ε'} {x : Except ε α} (hx : RaisesOnly E x)
    (hf : ∀ e, E e → E' (f e)) : RaisesOnly E' (x.mapError f) := by
  intro e' he
  obtain ⟨e, hxe, rfl⟩ := mapError_eq_error.mp he
  exact hf e (hx e hxe)

end RaisesOnly

end Outcome
