import ObjectCommon.Payloads.Steps

/-!
# What a transfer leaves alone

* `Environment.Keeps` : the streams, the sources and the callback leave a part of the world as it is;
* `Keeps.nextChunk`, `Keeps.enterPayload`, `Keeps.exitPayload` : so does each step that calls them;
* `transferPayload_keeps` : so does a whole transfer, when the sink does.
-/

namespace ObjectCommon

variable {W β : Type} {heap : SourceId → PayloadSource} {env : Environment W} {H : Hasher} {view : W → β}
  {parsed : PayloadReference} {source : SourceId} {stream : StreamId} {size fuel : Nat} {chunk : Bytes}
  {s s' : Progress H} {p p' : Process W}

/-- Every call but a write leaves this part of the world as it is. -/
structure Environment.Keeps (env : Environment W) (view : W → β) : Prop where
  read : ∀ stream size w, view (env.read stream size w).2 = view w
  cancelled : ∀ cancelled ∈ env.cancelled, ∀ w, view (cancelled w).2 = view w
  factory : ∀ factory w, view (env.factory factory w).2 = view w
  close : ∀ stream w, view (env.close stream w).2 = view w
  enter : ∀ object w, view (env.enter object w).2 = view w
  exit : ∀ object raised w, view (env.exit object raised w).2 = view w

theorem view_call {α : Type} {f : W → α × W} {action : α → Action} {a : α} (h : p.call f action = (a, p'))
    (hf : ∀ w, view (f w).2 = view w) : view p'.world = view p.world := by
  cases h
  exact hf p.world

namespace Environment.Keeps

theorem nextChunk (hk : env.Keeps view) {result : Py (Option Bytes)}
    (h : nextChunk env stream size p = (result, p')) : view p'.world = view p.world := by
  obtain ⟨answer, hcall, -⟩ := nextChunk_cases h
  exact view_call hcall (hk.read stream size)

theorem checkCancelled (hk : env.Keeps view) {result : Py Unit} (h : checkCancelled env p = (result, p')) :
    view p'.world = view p.world := by
  obtain ⟨-, -, rfl⟩ | ⟨cancelled, answer, hc, hcall, -⟩ := checkCancelled_cases h
  · rfl
  · exact view_call hcall (hk.cancelled cancelled hc)

theorem enterSource (hk : env.Keeps view) {result : Py (SourceId × StreamId)}
    (h : enterSource heap env source p = (result, p')) : view p'.world = view p.world := by
  unfold ObjectCommon.enterSource at h
  split at h
  · cases h
    rfl
  · next factory _ _ =>
    rcases hcall : p.call (env.factory factory) (.factory factory) with ⟨e | _ | stream, q⟩
    all_goals
      rw [hcall] at h
      cases h
      exact view_call hcall (hk.factory factory)
  · next object _ _ =>
    rcases hcall : p.call (env.enter object) (.enter object) with ⟨e | stream, q⟩
    all_goals
      rw [hcall] at h
      cases h
      exact view_call hcall (hk.enter object)

theorem enterPayload (hk : env.Keeps view) {result : Py (SourceId × StreamId)}
    (h : enterPayload heap env parsed p = (result, p')) : view p'.world = view p.world := by
  obtain ⟨e, store, -, -, rfl⟩ | ⟨source, store, -, henter⟩ := enterPayload_cases h
  · rfl
  · exact hk.enterSource (p := { p with store := store }) henter

theorem exitPayload (hk : env.Keeps view) {raised : Option PyError} {closed : Py Bool}
    (h : exitPayload heap env source stream raised p = (closed, p')) : view p'.world = view p.world := by
  unfold ObjectCommon.exitPayload at h
  split at h
  · cases h
    rfl
  · rcases hcall : p.call (env.close stream) (.close stream) with ⟨e | u, q⟩
    all_goals
      rw [hcall] at h
      cases h
      exact view_call hcall (hk.close stream)
  · exact view_call h (hk.exit _ raised)

end Environment.Keeps

/-! ## A sink that leaves it alone too -/

theorem transferChunk_keeps (hk : env.Keeps view) (hw : ∀ chunk w, view (env.write chunk w).2 = view w)
    {result : Py Unit} (h : transferChunk env H parsed chunk s p = (result, s', p')) : view p'.world = view p.world := by
  obtain ⟨e, hcheck, -, -⟩ | ⟨q, answer, hcheck, hcall, -⟩ := transferChunk_cases h
  · exact hk.checkCancelled hcheck
  · rw [view_call hcall (hw chunk), hk.checkCancelled hcheck]

theorem transferChunks_keeps (hk : env.Keeps view) (hw : ∀ chunk w, view (env.write chunk w).2 = view w)
    {result : Py Unit} (h : transferChunks env H parsed stream size fuel s p = some (result, s', p')) :
    view p'.world = view p.world := by
  refine transferChunks_induction (motive := fun _ _ p _ _ p' => view p'.world = view p.world) ?_ ?_ ?_ ?_ h
  · intro fuel s p e p' hnext
    exact hk.nextChunk hnext
  · intro fuel s p p' hnext
    exact hk.nextChunk hnext
  · intro fuel s p chunk q e s' p' hnext hround
    rw [transferChunk_keeps hk hw hround, hk.nextChunk hnext]
  · intro fuel s p chunk q t r result s' p' hnext hround ih
    rw [ih, transferChunk_keeps hk hw hround, hk.nextChunk hnext]

/-- **A transfer leaves alone what its sink and the callers' objects do.** -/
theorem transferPayload_keeps (hk : env.Keeps view) (hw : ∀ chunk w, view (env.write chunk w).2 = view w)
    {reference : PayloadReferenceValue} {chunkSize : Json} {result : Py ContentIdentity}
    (h : transferPayload heap env H fuel reference chunkSize p = some (result, p')) : view p'.world = view p.world := by
  unfold transferPayload at h
  split at h
  · cases h
    rfl
  next parsed hparsed =>
  obtain ⟨⟨answer, s, q⟩, hwith, hresult⟩ := Option.map_eq_some_iff.mp h
  obtain rfl : q = p' := by cases answer <;> exact (Prod.mk.inj hresult).2
  obtain ⟨e, henter, -, -⟩ | ⟨source, stream, p₁, answer, p₂, closed, henter, hbody, hexit, -⟩ := withPayload_cases hwith
  · exact hk.enterPayload henter
  rw [hk.exitPayload hexit, ← hk.enterPayload henter]
  unfold transferStream at hbody
  split at hbody
  · cases hbody
    rfl
  · exact transferChunks_keeps hk hw hbody

end ObjectCommon
