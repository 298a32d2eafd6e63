import ObjectCommon.Library.Outcome

/-!
# Computations with state that return, raise or do not end

`Routine σ ε α` read as a block of statements: from a state of type `σ` it returns a value or raises an
exception, in a new state, or runs for ever.

* `Routine.Returns`, `Routine.Raises` : how a run ends, with one rule for each way of building a routine;
* `Routine.outcome` : a block whose exceptions are caught;
* `Routine.Keeps` : no run changes a part of the state (`Keeps.bind`, ...);
* `Routine.Ends`, `Routine.Succeeds` : every run ends, or returns (`Ends.bind`, `Succeeds.outcome`, ...);
* `Routine.Ends.result` : the end of a run, as a function of its start.
-/

/-- A block of statements on a state. -/
def Routine (σ ε α : Type) : Type := σ → Option (Except ε α × σ)

namespace Routine

variable {σ ε α β : Type}

/-- The statements of `x`, then those of `f` unless `x` raises. -/
def andThen (x : Routine σ ε α) (f : α → Routine σ ε β) : Routine σ ε β := fun s =>
  match x s with
  | none => none
  | some (.error e, s') => some (.error e, s')
  | some (.ok a, s') => f a s'

instance : Monad (Routine σ ε) where
  pure a := fun s => some (.ok a, s)
  bind := andThen

/-- A call that does not touch the state. -/
def lift (x : Except ε α) : Routine σ ε α := fun s => some (x, s)

/-- A call that ends. -/
def step (f : σ → Except ε α × σ) : Routine σ ε α := fun s => some (f s)

/-- What a block returns or raises, as a value. -/
def outcome (x : Routine σ ε α) : Routine σ ε (Except ε α) := fun s =>
  (x s).map fun (result, s') => (.ok result, s')

/-- Started in `s` the block returns `a` in `s'`. -/
def Returns (x : Routine σ ε α) (s : σ) (a : α) (s' : σ) : Prop := x s = some (.ok a, s')

/-- Started in `s` the block raises `e` in `s'`. -/
def Raises (x : Routine σ ε α) (s : σ) (e : ε) (s' : σ) : Prop := x s = some (.error e, s')

/-- No run of the block changes this part of the state. -/
def Keeps (x : Routine σ ε α) (view : σ → β) : Prop := ∀ s answer s', x s = some (answer, s') → view s' = view s

/-- Every run of the block ends. -/
def Ends (x : Routine σ ε α) : Prop := ∀ s, ∃ result s', x s = some (result, s')

/-- Every run of the block returns. -/
def Succeeds (x : Routine σ ε α) : Prop := ∀ s, ∃ a s', x.Returns s a s'

/-! ## Returning and raising -/

theorem returns_pure {s s' : σ} {a b : α} : (pure a : Routine σ ε α).Returns s b s' ↔ a = b ∧ s = s' := by
  simp [Returns, Pure.pure]

theorem not_raises_pure {s s' : σ} {a : α} {e : ε} : ¬ (pure a : Routine σ ε α).Raises s e s' := by
  simp [Raises, Pure.pure]

theorem returns_lift {x : Except ε α} {s s' : σ} {a : α} :
    (lift x : Routine σ ε α).Returns s a s' ↔ x = .ok a ∧ s = s' := by
  simp [Returns, lift]

theorem raises_lift {x : Except ε α} {s s' : σ} {e : ε} :
    (lift x : Routine σ ε α).Raises s e s' ↔ x = .error e ∧ s = s' := by
  simp [Raises, lift]

theorem returns_step {f : σ → Except ε α × σ} {s s' : σ} {a : α} :
    (step f).Returns s a s' ↔ f s = (.ok a, s') := by
  simp [Returns, step]

theorem raises_step {f : σ → Except ε α × σ} {s s' : σ} {e : ε} :
    (step f).Raises s e s' ↔ f s = (.error e, s') := by
  simp [Raises, step]

/-- A sequence returns when its first part returns and then its second. -/
theorem returns_bind {x : Routine σ ε α} {f : α → Routine σ ε β} {s s'' : σ} {b : β} :
    (x >>= f).Returns s b s'' ↔ ∃ a s', x.Returns s a s' ∧ (f a).Returns s' b s'' := by
  show x.andThen f s = _ ↔ _
  unfold andThen Returns
  rcases x s with _ | ⟨_ | a, s'⟩ <;> simp

/-- A sequence raises when one of its parts does. -/
theorem raises_bind {x : Routine σ ε α} {f : α → Routine σ ε β} {s s'' : σ} {e : ε} :
    (x >>= f).Raises s e s'' ↔
      x.Raises s e s'' ∨ ∃ a s', x.Returns s a s' ∧ (f a).Raises s' e s'' := by
  show x.andThen f s = _ ↔ _
  unfold andThen Raises Returns
  rcases x s with _ | ⟨_ | a, s'⟩ <;> simp

/-- A block returns if an evaluation of it shows that it does. -/
theorem exists_returns_of_isOk {x : Routine σ ε α} {s : σ} (h : ((x s).map fun r => r.1.isOk) = some true) :
    ∃ a s', x.Returns s a s' := by
  obtain ⟨⟨answer, s'⟩, hx, hanswer⟩ := Option.map_eq_some_iff.mp h
  obtain ⟨a, rfl⟩ := Outcome.exists_ok_of_isOk hanswer
  exact ⟨a, s', hx⟩

/-- After its first part has returned, a sequence is its second part. -/
theorem Returns.bind_eq {x : Routine σ ε α} {s s' : σ} {a : α} (h : x.Returns s a s') (f : α → Routine σ ε β) :
    (x >>= f) s = f a s' := by
  show x.andThen f s = _
  unfold andThen
  rw [h]

/-- A sequence whose first part raises is ended. -/
theorem Raises.bind_eq {x : Routine σ ε α} {s s' : σ} {e : ε} (h : x.Raises s e s') (f : α → Routine σ ε β) :
    (x >>= f) s = some (.error e, s') := by
  show x.andThen f s = _
  unfold andThen
  rw [h]

/-- A sequence whose first part runs for ever does. -/
theorem bind_eq_none {x : Routine σ ε α} {s : σ} (h : x s = none) (f : α → Routine σ ε β) : (x >>= f) s = none := by
  show x.andThen f s = _
  unfold andThen
  rw [h]

theorem lift_ok_bind (a : α) (f : α → Routine σ ε β) : (lift (.ok a) >>= f) = f a := rfl

/-- A block that is caught returns what it returned, and what it raised. -/
theorem returns_outcome {x : Routine σ ε α} {s s' : σ} {result : Except ε α} :
    x.outcome.Returns s result s' ↔ x s = some (result, s') := by
  unfold Returns outcome
  rcases x s with _ | ⟨r, s''⟩ <;> simp

/-! ## Frames -/

namespace Keeps

variable {γ : Type} {view : σ → γ}

theorem pure (a : α) : Keeps (Pure.pure a : Routine σ ε α) view := by
  intro s answer s' h
  cases h
  rfl

theorem lift (x : Except ε α) : Keeps (Routine.lift x : Routine σ ε α) view := by
  intro s answer s' h
  cases h
  rfl

theorem step {f : σ → Except ε α × σ} (hf : ∀ s, view (f s).2 = view s) : Keeps (Routine.step f) view := by
  intro s answer s' h
  have hs : f s = (answer, s') := Option.some.inj h
  rw [← hf s, hs]

theorem bind {x : Routine σ ε α} {f : α → Routine σ ε β} (hx : x.Keeps view) (hf : ∀ a, (f a).Keeps view) :
    Keeps (x >>= f) view := by
  intro s answer s' h
  cases answer with
  | error e =>
    obtain hraises | ⟨a, t, hreturns, hraises⟩ := raises_bind.mp h
    · exact hx s _ s' hraises
    · exact (hf a t _ s' hraises).trans (hx s _ t hreturns)
  | ok b =>
    obtain ⟨a, t, hreturns, hreturns'⟩ := returns_bind.mp h
    exact (hf a t _ s' hreturns').trans (hx s _ t hreturns)

end Keeps

/-! ## Ending -/

namespace Ends

/-- What a block that ends returns or raises, and the state it leaves. -/
def result {x : Routine σ ε α} (h : x.Ends) (s : σ) : Except ε α × σ :=
  (x s).get (by
    obtain ⟨answer, s', hanswer⟩ := h s
    rw [hanswer]
    rfl)

theorem eq_some_result {x : Routine σ ε α} (h : x.Ends) (s : σ) : x s = some (h.result s) := (Option.some_get _).symm

theorem result_eq {x : Routine σ ε α} (h : x.Ends) {s : σ} {r : Except ε α × σ} (hr : x s = some r) : h.result s = r :=
  Option.some.inj ((h.eq_some_result s).symm.trans hr)

theorem of_exists {x : Routine σ ε α} (h : ∀ s, ∃ r, x s = some r) : x.Ends := by
  intro s
  obtain ⟨⟨result, s'⟩, hresult⟩ := h s
  exact ⟨result, s', hresult⟩

theorem pure (a : α) : Ends (Pure.pure a : Routine σ ε α) := fun s => ⟨.ok a, s, rfl⟩

theorem lift (x : Except ε α) : Ends (Routine.lift x : Routine σ ε α) := fun s => ⟨x, s, rfl⟩

theorem step (f : σ → Except ε α × σ) : Ends (Routine.step f) := fun s => ⟨(f s).1, (f s).2, rfl⟩

theorem bind {x : Routine σ ε α} {f : α → Routine σ ε β} (hx : x.Ends) (hf : ∀ a, (f a).Ends) :
    Ends (x >>= f) := by
  intro s
  obtain ⟨result, s', hresult⟩ := hx s
  cases result with
  | error e =>
    have hraises : x.Raises s e s' := hresult
    exact ⟨.error e, s', raises_bind.mpr (Or.inl hraises)⟩
  | ok a =>
    have hreturns : x.Returns s a s' := hresult
    obtain ⟨result, s'', hsecond⟩ := hf a s'
    cases result with
    | error e => exact ⟨.error e, s'', raises_bind.mpr (Or.inr ⟨a, s', hreturns, hsecond⟩)⟩
    | ok b => exact ⟨.ok b, s'', returns_bind.mpr ⟨a, s', hreturns, hsecond⟩⟩

end Ends

namespace Succeeds

theorem pure (a : α) : Succeeds (Pure.pure a : Routine σ ε α) := fun s => ⟨a, s, rfl⟩

theorem step {f : σ → Except ε α × σ} (hf : ∀ s, ∃ a s', f s = (.ok a, s')) : Succeeds (Routine.step f) := by
  intro s
  obtain ⟨a, s', ha⟩ := hf s
  exact ⟨a, s', returns_step.mpr ha⟩

theorem bind {x : Routine σ ε α} {f : α → Routine σ ε β} (hx : x.Succeeds) (hf : ∀ a, (f a).Succeeds) :
    Succeeds (x >>= f) := by
  intro s
  obtain ⟨a, s', ha⟩ := hx s
  obtain ⟨b, s'', hb⟩ := hf a s'
  exact ⟨b, s'', returns_bind.mpr ⟨a, s', ha, hb⟩⟩

/-- A block that ends returns once it is caught. -/
theorem outcome {x : Routine σ ε α} (hx : x.Ends) : x.outcome.Succeeds := by
  intro s
  obtain ⟨result, s', hresult⟩ := hx s
  exact ⟨result, s', returns_outcome.mpr hresult⟩

end Succeeds

end Routine
