import ObjectCommon.Payloads.Content
import ObjectCommon.Payloads.Linearity

/-!
# A chunk size that is not valid

`iter_payload_chunks` is a generator: it checks the chunk size when its first chunk is asked for, and by
then the registry has given the handle away and the source is open.

* `Alike` : processes that no call tells apart;
* `transferPayload_lockstep` : a transfer does the same from processes that are alike;
* `transferPayload_invalid` : what a transfer with an invalid chunk size does;
* `CostsNothing`, `transferPayload_costsNothing_iff` : when it leaves the registry and the source as they
  were.
-/

namespace ObjectCommon

open Outcome PyError

variable {W : Type} {heap : SourceId → PayloadSource} {env : Environment W} {H : Hasher}

/-! ## Processes that no call tells apart -/

/-- The same handles, the same flags and the same world; the calls made so far may differ. -/
structure Alike (p q : Process W) : Prop where
  sources : q.store.sources = p.store.sources
  opened : ∀ source, source ∈ q.store.opened ↔ source ∈ p.store.opened
  world : q.world = p.world

variable {p q : Process W}

theorem Alike.refl (p : Process W) : Alike p p := ⟨rfl, fun _ => Iff.rfl, rfl⟩

theorem Alike.symm (h : Alike p q) : Alike q p :=
  ⟨h.sources.symm, fun source => (h.opened source).symm, h.world.symm⟩

/-- The registry's section of `open` does the same. -/
theorem Alike.openSection (h : Alike p q) (heap : SourceId → PayloadSource) (parsed : PayloadReference) :
    (openSection heap q.store parsed).1 = (openSection heap p.store parsed).1 ∧
      Alike { p with store := (openSection heap p.store parsed).2 }
        { q with store := (openSection heap q.store parsed).2 } := by
  unfold ObjectCommon.openSection
  rw [h.sources]
  split
  · exact ⟨rfl, h⟩
  · split
    · exact ⟨rfl, h⟩
    · split
      · exact ⟨rfl, rfl, h.opened, h.world⟩
      · exact ⟨rfl, h⟩

/-- The section of a source's `open` does the same. -/
theorem Alike.sourceSection (h : Alike p q) (heap : SourceId → PayloadSource) (source : SourceId) :
    (sourceSection heap q.store source).1 = (sourceSection heap p.store source).1 ∧
      Alike { p with store := (sourceSection heap p.store source).2 }
        { q with store := (sourceSection heap q.store source).2 } := by
  have hset : ∀ x, x ∈ source :: q.store.opened ↔ x ∈ source :: p.store.opened := by
    intro x
    rw [List.mem_cons, List.mem_cons, h.opened]
  unfold ObjectCommon.sourceSection
  simp only [h.opened]
  split
  · split
    · exact ⟨rfl, h⟩
    · exact ⟨rfl, h.sources, hset, h.world⟩
  · split
    · exact ⟨rfl, h⟩
    · exact ⟨rfl, h.sources, hset, h.world⟩
  · exact ⟨rfl, h⟩

/-- From `p` to `p'` and from `q` to `q'`, the same calls lead to processes that are alike. -/
structure Lockstep (p q p' q' : Process W) : Prop where
  alike : Alike p' q'
  calls : ∃ calls, p'.trace = p.trace ++ calls ∧ q'.trace = q.trace ++ calls

namespace Lockstep

variable {p' q' p'' q'' : Process W}

theorem refl (h : Alike p q) : Lockstep p q p q := ⟨h, [], by simp, by simp⟩

theorem trans (h : Lockstep p q p' q') (h' : Lockstep p' q' p'' q'') : Lockstep p q p'' q'' := by
  obtain ⟨-, calls, hp, hq⟩ := h
  obtain ⟨halike, calls', hp', hq'⟩ := h'
  refine ⟨halike, calls ++ calls', ?_, ?_⟩
  · rw [hp', hp, List.append_assoc]
  · rw [hq', hq, List.append_assoc]

/-- A call of one of the caller's objects depends on the world alone. -/
theorem call {α : Type} {f : W → α × W} {action : α → Action} {a : α} (h : Alike p q)
    (hp : p.call f action = (a, p')) : ∃ q', q.call f action = (a, q') ∧ Lockstep p q p' q' := by
  cases hp
  refine ⟨{ q with world := (f p.world).2, trace := q.trace ++ [action (f p.world).1] }, ?_, ?_⟩
  · unfold Process.call
    rw [h.world]
  · exact ⟨⟨h.sources, h.opened, rfl⟩, _, rfl, rfl⟩

end Lockstep

/-! ## Transfers in lockstep -/

variable {p' : Process W}

theorem nextChunk_lockstep {stream : StreamId} {size : Nat} {result : Py (Option Bytes)} (h : Alike p q)
    (hp : nextChunk env stream size p = (result, p')) :
    ∃ q', nextChunk env stream size q = (result, q') ∧ Lockstep p q p' q' := by
  obtain ⟨answer, hcall, rfl⟩ := nextChunk_cases hp
  obtain ⟨q', hq, hlock⟩ := Lockstep.call h hcall
  exact ⟨q', nextChunk_eq hq, hlock⟩

theorem checkCancelled_lockstep {result : Py Unit} (h : Alike p q)
    (hp : checkCancelled env p = (result, p')) :
    ∃ q', checkCancelled env q = (result, q') ∧ Lockstep p q p' q' := by
  rcases checkCancelled_cases hp with ⟨hc, rfl, rfl⟩ | ⟨cancelled, answer, hc, hcall, rfl⟩
  · exact ⟨q, checkCancelled_none hc q, Lockstep.refl h⟩
  · obtain ⟨q', hq, hlock⟩ := Lockstep.call h hcall
    exact ⟨q', checkCancelled_some hc hq, hlock⟩

theorem transferChunk_lockstep {parsed : PayloadReference} {chunk : Bytes} {s s' : Progress H} {result : Py Unit}
    (h : Alike p q) (hp : transferChunk env H parsed chunk s p = (result, s', p')) :
    ∃ q', transferChunk env H parsed chunk s q = (result, s', q') ∧ Lockstep p q p' q' := by
  rcases transferChunk_cases hp with ⟨e, hcheck, rfl, rfl⟩ | ⟨r, answer, hcheck, hcall, hprogress⟩
  · obtain ⟨q', hq, hlock⟩ := checkCancelled_lockstep h hcheck
    exact ⟨q', transferChunk_stopped hq, hlock⟩
  · obtain ⟨q₁, hq₁, hlock₁⟩ := checkCancelled_lockstep h hcheck
    obtain ⟨q₂, hq₂, hlock₂⟩ := Lockstep.call hlock₁.alike hcall
    refine ⟨q₂, ?_, hlock₁.trans hlock₂⟩
    rw [transferChunk_eq hq₁ hq₂, hprogress]

theorem transferChunks_lockstep {parsed : PayloadReference} {stream : StreamId} {size fuel : Nat}
    {s s' : Progress H} {result : Py Unit} (h : Alike p q)
    (hp : transferChunks env H parsed stream size fuel s p = some (result, s', p')) :
    ∃ q', transferChunks env H parsed stream size fuel s q = some (result, s', q') ∧ Lockstep p q p' q' := by
  refine transferChunks_induction (motive := fun fuel s p result s' p' => ∀ q, Alike p q →
    ∃ q', transferChunks env H parsed stream size fuel s q = some (result, s', q') ∧ Lockstep p q p' q')
    ?_ ?_ ?_ ?_ hp q h
  · intro fuel s p e p' hnext q h
    obtain ⟨q', hq, hlock⟩ := nextChunk_lockstep h hnext
    exact ⟨q', transferChunks_stopped hq fuel, hlock⟩
  · intro fuel s p p' hnext q h
    obtain ⟨q', hq, hlock⟩ := nextChunk_lockstep h hnext
    exact ⟨q', transferChunks_ended hq fuel, hlock⟩
  · intro fuel s p chunk r e s' p' hnext hround q h
    obtain ⟨q₁, hq₁, hlock₁⟩ := nextChunk_lockstep h hnext
    obtain ⟨q₂, hq₂, hlock₂⟩ := transferChunk_lockstep hlock₁.alike hround
    exact ⟨q₂, transferChunks_failed hq₁ hq₂ fuel, hlock₁.trans hlock₂⟩
  · intro fuel s p chunk r t r' result s' p' hnext hround ih q h
    obtain ⟨q₁, hq₁, hlock₁⟩ := nextChunk_lockstep h hnext
    obtain ⟨q₂, hq₂, hlock₂⟩ := transferChunk_lockstep hlock₁.alike hround
    obtain ⟨q', hq', hrest⟩ := ih q₂ hlock₂.alike
    exact ⟨q', (transferChunks_round hq₁ hq₂ fuel).trans hq', (hlock₁.trans hlock₂).trans hrest⟩

/-- The two locked sections do the same. -/
theorem Alike.openSections (h : Alike p q) (heap : SourceId → PayloadSource) (parsed : PayloadReference) :
    (openSections heap q.store parsed).1 = (openSections heap p.store parsed).1 ∧
      Alike { p with store := (openSections heap p.store parsed).2 }
        { q with store := (openSections heap q.store parsed).2 } := by
  unfold ObjectCommon.openSections
  obtain ⟨hopen, halike⟩ := h.openSection heap parsed
  generalize ObjectCommon.openSection heap p.store parsed = atP at hopen halike ⊢
  generalize ObjectCommon.openSection heap q.store parsed = atQ at hopen halike ⊢
  obtain ⟨opened, store⟩ := atP
  obtain ⟨opened', store'⟩ := atQ
  obtain rfl : opened' = opened := hopen
  cases opened' with
  | error e => exact ⟨rfl, halike⟩
  | ok source =>
    dsimp only at halike ⊢
    obtain ⟨hsection, halike'⟩ := halike.sourceSection heap source
    dsimp only at hsection halike'
    generalize ObjectCommon.sourceSection heap store source = atP at hsection halike' ⊢
    generalize ObjectCommon.sourceSection heap store' source = atQ at hsection halike' ⊢
    obtain ⟨answer, store⟩ := atP
    obtain ⟨answer', store'⟩ := atQ
    obtain rfl : answer' = answer := hsection
    cases answer' with
    | error e => exact ⟨rfl, halike'⟩
    | ok u => exact ⟨rfl, halike'⟩

theorem enterSource_lockstep {source : SourceId} {result : Py (SourceId × StreamId)} (h : Alike p q)
    (hp : enterSource heap env source p = (result, p')) :
    ∃ q', enterSource heap env source q = (result, q') ∧ Lockstep p q p' q' := by
  unfold enterSource at hp ⊢
  split at hp
  · cases hp
    exact ⟨q, rfl, Lockstep.refl h⟩
  · next factory _ _ =>
    cases hcall : p.call (env.factory factory) (.factory factory) with
    | mk made r =>
      obtain ⟨q', hq, hlock⟩ := Lockstep.call h hcall
      rw [hcall] at hp
      rw [hq]
      rcases made with e | (_ | stream) <;> cases hp <;> exact ⟨q', rfl, hlock⟩
  · next object _ _ =>
    cases hcall : p.call (env.enter object) (.enter object) with
    | mk made r =>
      obtain ⟨q', hq, hlock⟩ := Lockstep.call h hcall
      rw [hcall] at hp
      rw [hq]
      cases made <;> cases hp <;> exact ⟨q', rfl, hlock⟩

theorem enterPayload_lockstep {parsed : PayloadReference} {result : Py (SourceId × StreamId)} (h : Alike p q)
    (hp : enterPayload heap env parsed p = (result, p')) :
    ∃ q', enterPayload heap env parsed q = (result, q') ∧ Lockstep p q p' q' := by
  obtain ⟨hsections, halike⟩ := h.openSections heap parsed
  rw [enterPayload_eq] at hp ⊢
  generalize openSections heap p.store parsed = atP at hp hsections halike
  generalize openSections heap q.store parsed = atQ at hsections halike ⊢
  obtain ⟨opened, store⟩ := atP
  obtain ⟨opened', store'⟩ := atQ
  obtain rfl : opened' = opened := hsections
  have hlock : Lockstep p q { p with store := store } { q with store := store' } := ⟨halike, [], by simp, by simp⟩
  cases opened' with
  | error e =>
    cases hp
    exact ⟨_, rfl, hlock⟩
  | ok source =>
    obtain ⟨q', hq, hlock'⟩ := enterSource_lockstep halike hp
    exact ⟨q', hq, hlock.trans hlock'⟩

theorem exitPayload_lockstep {source : SourceId} {stream : StreamId} {raised : Option PyError} {result : Py Bool}
    (h : Alike p q) (hp : exitPayload heap env source stream raised p = (result, p')) :
    ∃ q', exitPayload heap env source stream raised q = (result, q') ∧ Lockstep p q p' q' := by
  unfold exitPayload at hp ⊢
  split at hp
  · cases hp
    exact ⟨q, rfl, Lockstep.refl h⟩
  · cases hcall : p.call (env.close stream) (.close stream) with
    | mk answer r =>
      obtain ⟨q', hq, hlock⟩ := Lockstep.call h hcall
      rw [hcall] at hp
      rw [hq]
      cases answer <;> cases hp <;> exact ⟨q', rfl, hlock⟩
  · exact Lockstep.call h hp

/-- A block whose body runs in lockstep runs in lockstep. -/
theorem withPayload_lockstep {parsed : PayloadReference}
    {body : StreamId → Progress H → Process W → Option (Py Unit × Progress H × Process W)} {s s' : Progress H}
    {result : Py Unit}
    (hbody : ∀ stream p q s result s' p', Alike p q → body stream s p = some (result, s', p') →
      ∃ q', body stream s q = some (result, s', q') ∧ Lockstep p q p' q')
    (h : Alike p q) (hp : withPayload heap env parsed body s p = some (result, s', p')) :
    ∃ q', withPayload heap env parsed body s q = some (result, s', q') ∧ Lockstep p q p' q' := by
  rcases withPayload_cases hp with ⟨e, henter, rfl, rfl⟩ | ⟨source, stream, r, answer, r', closed, henter, hrun, hexit, rfl⟩
  · obtain ⟨q', hq, hlock⟩ := enterPayload_lockstep h henter
    exact ⟨q', withPayload_refused hq, hlock⟩
  · obtain ⟨q₁, hq₁, hlock₁⟩ := enterPayload_lockstep h henter
    obtain ⟨q₂, hq₂, hlock₂⟩ := hbody stream r q₁ s answer s' r' hlock₁.alike hrun
    obtain ⟨q₃, hq₃, hlock₃⟩ := exitPayload_lockstep hlock₂.alike hexit
    exact ⟨q₃, withPayload_eq hq₁ hq₂ hq₃, (hlock₁.trans hlock₂).trans hlock₃⟩

/-- **A transfer does the same from processes that are alike.** -/
theorem transferPayload_lockstep {reference : PayloadReferenceValue} {fuel : Nat} {chunkSize : Json}
    {result : Py ContentIdentity} (h : Alike p q)
    (hp : transferPayload heap env H fuel reference chunkSize p = some (result, p')) :
    ∃ q', transferPayload heap env H fuel reference chunkSize q = some (result, q') ∧ Lockstep p q p' q' := by
  unfold transferPayload at hp ⊢
  cases hparsed : parsePayloadReference reference with
  | error e =>
    rw [hparsed] at hp
    cases hp
    exact ⟨q, rfl, Lockstep.refl h⟩
  | ok parsed =>
    rw [hparsed] at hp
    obtain ⟨⟨answer, s, r⟩, hwith, hresult⟩ := Option.map_eq_some_iff.mp hp
    have hbody : ∀ stream p q s result s' p', Alike p q →
        transferStream env H fuel parsed chunkSize stream s p = some (result, s', p') →
        ∃ q', transferStream env H fuel parsed chunkSize stream s q = some (result, s', q') ∧
          Lockstep p q p' q' := by
      intro stream p q s result s' p' h hp
      unfold transferStream at hp ⊢
      split at hp
      · cases hp
        exact ⟨q, rfl, Lockstep.refl h⟩
      · exact transferChunks_lockstep h hp
    obtain ⟨q', hq, hlock⟩ := withPayload_lockstep hbody h hwith
    dsimp only
    rw [hq]
    cases answer <;> cases hresult <;> exact ⟨q', rfl, hlock⟩

/-! ## What an invalid chunk size costs -/

variable {parsed : PayloadReference} {e : PyError}

/-- What a transfer that read nothing makes of the exit of the payload's context. -/
def vainResult (H : Hasher) (parsed : PayloadReference) (e : PyError) : Py Bool → Py ContentIdentity
  | .error e' => .error e'
  | .ok true => verifyTransfer H parsed ⟨H.new, 0⟩
  | .ok false => .error e

/-- A payload that is opened, and closed again with the exception `e` before anything is read. -/
def openInVain (heap : SourceId → PayloadSource) (env : Environment W) (H : Hasher) (parsed : PayloadReference)
    (e : PyError) (p : Process W) : Py ContentIdentity × Process W :=
  match enterPayload heap env parsed p with
  | (.error e', p) => (.error e', p)
  | (.ok (source, stream), p) =>
    let (closed, p) := exitPayload heap env source stream (some e) p
    (vainResult H parsed e closed, p)

/-- **The chunk size is checked inside the context of the payload.** -/
theorem transferPayload_invalid {reference : PayloadReferenceValue} {fuel : Nat} {chunkSize : Json}
    (hparsed : parsePayloadReference reference = .ok parsed) (hinvalid : chunkSizeOf chunkSize = .error e)
    (p : Process W) :
    transferPayload heap env H fuel reference chunkSize p = some (openInVain heap env H parsed e p) := by
  unfold transferPayload openInVain withPayload transferStream
  rw [hparsed, hinvalid]
  dsimp only
  cases enterPayload heap env parsed p with
  | mk opened q =>
    rcases opened with e' | ⟨source, stream⟩
    · rfl
    · dsimp only [Option.map_some]
      cases exitPayload heap env source stream (some e) q with
      | mk closed r => rcases closed with e' | (_ | _) <;> rfl

theorem chunkSizeOf_error {chunkSize : Json} (h : ∀ n : Nat, 0 < n → n ≤ maxChunkSize → chunkSize ≠ .int n) :
    ∃ e, chunkSizeOf chunkSize = .error e := by
  rcases ok_or_error (chunkSizeOf chunkSize) with ⟨n, hn⟩ | he
  · obtain ⟨heq, hpos, hle⟩ := chunkSizeOf_eq_ok.mp hn
    exact absurd heq (h n hpos hle)
  · exact he

/-- The call raised and left the registry and the source as they were: no factory stream was opened, and
a transfer with a valid chunk size does what it would have done before. -/
structure CostsNothing (heap : SourceId → PayloadSource) (env : Environment W) (H : Hasher)
    (reference : PayloadReferenceValue) (p : Process W) (result : Py ContentIdentity) (p' : Process W) : Prop where
  raises : ∃ e, result = .error e
  alike : Alike p p'
  unopened : ∃ calls, p'.trace = p.trace ++ calls ∧
    ∀ factory stream, Action.factory factory (.ok (some stream)) ∉ calls
  next : ∀ fuel size, 0 < size → size ≤ maxChunkSize →
    (∀ result q, transferPayload heap env H fuel reference (.int (size : Nat)) p = some (result, q) →
      ∃ q', transferPayload heap env H fuel reference (.int (size : Nat)) p' = some (result, q') ∧
        Lockstep p p' q q') ∧
    (transferPayload heap env H fuel reference (.int (size : Nat)) p = none →
      transferPayload heap env H fuel reference (.int (size : Nat)) p' = none)

/-- A call that leaves a process that no call tells apart has no effect on the next transfer. -/
theorem CostsNothing.of_alike {reference : PayloadReferenceValue} {calls : List Action} (h : Alike p p')
    (ht : p'.trace = p.trace ++ calls) (hc : ∀ factory stream, Action.factory factory (.ok (some stream)) ∉ calls) :
    CostsNothing heap env H reference p (.error e) p' := by
  refine ⟨⟨e, rfl⟩, h, ⟨calls, ht, hc⟩, fun fuel size _ _ => ⟨fun result q hq => transferPayload_lockstep h hq, ?_⟩⟩
  intro hnone
  rw [Option.eq_none_iff_forall_ne_some]
  rintro ⟨result, q⟩ hsome
  obtain ⟨q', hq', -⟩ := transferPayload_lockstep h.symm hsome
  rw [hnone] at hq'
  cases hq'

/-- Opening the source before the chunk size is checked goes unnoticed: a factory that was called before
raises or makes no stream, and the world is as it was; or the context of another source, entered and
exited with the exception, leaves the world as it was and does not turn the call into a success. -/
def OpensUnnoticed (heap : SourceId → PayloadSource) (env : Environment W) (H : Hasher) (parsed : PayloadReference)
    (e : PyError) (p : Process W) (source : SourceId) : Prop :=
  match heap source with
  | .factory factory true =>
    source ∈ p.store.opened ∧ (∀ stream, (env.factory factory p.world).1 ≠ .ok (some stream)) ∧
      (env.factory factory p.world).2 = p.world
  | .other object true =>
    match env.enter object p.world with
    | (.error _, w) => w = p.world
    | (.ok _, w) =>
      (env.exit object (some e) w).2 = p.world ∧
        ((env.exit object (some e) w).1 = .ok true →
          (∃ n ∈ parsed.expectedLength, n ≠ 0) ∨
            ∃ d ∈ parsed.expectedDigest, d.val ≠ str "sha256:" ++ H.hexdigest H.new)
  | _ => False

/-! ## Source by source -/

theorem store_exitPayload {source : SourceId} {stream : StreamId} {raised : Option PyError} {result : Py Bool}
    (h : exitPayload heap env source stream raised p = (result, p')) : p'.store = p.store := by
  unfold exitPayload at h
  split at h
  · cases h
    rfl
  · cases hcall : p.call (env.close stream) (.close stream) with
    | mk answer q =>
      have hstore := store_call hcall
      rw [hcall] at h
      cases answer <;> cases h <;> exact hstore
  · exact store_call h

theorem store_enterSource {source : SourceId} {result : Py (SourceId × StreamId)}
    (h : enterSource heap env source p = (result, p')) : p'.store = p.store := by
  unfold enterSource at h
  split at h
  · cases h
    rfl
  · split at h <;> next hcall =>
      cases h
      exact store_call hcall
  · split at h <;> next hcall =>
      cases h
      exact store_call hcall

/-- Only the registry's section changes the registry. -/
theorem sources_openSections (heap : SourceId → PayloadSource) (store : PayloadStore) (parsed : PayloadReference) :
    (openSections heap store parsed).2.sources = (openSection heap store parsed).2.sources := by
  unfold openSections
  rcases openSection heap store parsed with ⟨e | source, taken⟩
  · rfl
  · dsimp only
    have hsources := sources_sourceSection heap taken source
    generalize sourceSection heap taken source = entered at hsources ⊢
    rcases entered with ⟨e | u, store'⟩
    · exact hsources
    · exact hsources

theorem sources_enterPayload {result : Py (SourceId × StreamId)} (h : enterPayload heap env parsed p = (result, p')) :
    p'.store.sources = (openSection heap p.store parsed).2.sources := by
  rw [← sources_openSections]
  rcases enterPayload_cases h with ⟨e, store, hsections, -, rfl⟩ | ⟨source, store, hsections, hsource⟩
  · rw [hsections]
  · rw [hsections, store_enterSource hsource]

theorem sources_openInVain :
    (openInVain heap env H parsed e p).2.store.sources = (openSection heap p.store parsed).2.sources := by
  unfold openInVain
  cases henter : enterPayload heap env parsed p with
  | mk opened q =>
    have hsources := sources_enterPayload henter
    cases opened with
    | error e' => exact hsources
    | ok opened =>
      obtain ⟨source, stream⟩ := opened
      dsimp only
      cases hexit : exitPayload heap env source stream (some e) q with
      | mk closed r =>
        exact (congrArg _ (store_exitPayload hexit)).trans hsources

variable {source : SourceId}

/-- A reference that the registry refuses opens nothing. -/
theorem openInVain_mismatch (hget : Dict.get? p.store.sources parsed.token.val = some source)
    (hne : (heap source).replayable ≠ parsed.replayable) :
    openInVain heap env H parsed e p = (.error replayabilityMismatch, p) := by
  have hopen : openSection heap p.store parsed = (.error replayabilityMismatch, p.store) := by
    unfold openSection
    rw [hget]
    exact if_pos hne
  unfold openInVain enterPayload
  rw [hopen]

/-- A handle that is not replayable is gone. -/
theorem not_alike_of_oneShot (hget : Dict.get? p.store.sources parsed.token.val = some source)
    (heq : (heap source).replayable = parsed.replayable) (hone : (heap source).replayable = false) :
    ¬ Alike p (openInVain heap env H parsed e p).2 := by
  intro halike
  have hsources := halike.sources
  have hopen : (openSection heap p.store parsed).2.sources = Dict.pop p.store.sources parsed.token.val := by
    unfold openSection
    rw [hget]
    simp only [heq, ne_eq, not_true_eq_false, if_false]
    rw [if_pos (heq ▸ hone)]
  rw [sources_openInVain, hopen] at hsources
  rw [← hsources, Dict.get?_pop_self] at hget
  cases hget

/-- Opening a source that is not replayable is noticed. -/
theorem not_opensUnnoticed_of_oneShot (h : (heap source).replayable = false) :
    ¬ OpensUnnoticed heap env H parsed e p source := by
  unfold OpensUnnoticed
  cases hsource : heap source with
  | stream stream => exact id
  | factory factory replayable =>
    rw [hsource] at h
    obtain rfl : replayable = false := h
    exact id
  | other object replayable =>
    rw [hsource] at h
    obtain rfl : replayable = false := h
    exact id

/-- A handle that can be replayed stays registered. -/
theorem openSection_replayable {store : PayloadStore}
    (hget : Dict.get? store.sources parsed.token.val = some source)
    (hsource : (heap source).replayable = true) (hreplayable : parsed.replayable = true) :
    openSection heap store parsed = (.ok source, store) := by
  unfold openSection
  rw [hget]
  simp [hsource, hreplayable]

/-- A factory that may be opened again is called. -/
theorem enterPayload_factory (env : Environment W) {factory : FactoryId}
    (hget : Dict.get? p.store.sources parsed.token.val = some source)
    (hsource : heap source = .factory factory true) (hreplayable : parsed.replayable = true) :
    ∃ q : Process W, q.store.sources = p.store.sources ∧ q.store.opened = source :: p.store.opened ∧
      q.world = (env.factory factory p.world).2 ∧
      q.trace = p.trace ++ [.factory factory (env.factory factory p.world).1] ∧
      enterPayload heap env parsed p = (match (env.factory factory p.world).1 with
        | .error e => .error e
        | .ok none => .error (typeError "payload factory must return a binary stream")
        | .ok (some stream) => .ok (source, stream), q) := by
  have hopen : openSection heap p.store parsed = (.ok source, p.store) :=
    openSection_replayable hget (by rw [hsource]; rfl) hreplayable
  have hsection : openSections heap p.store parsed =
      (.ok source, { p.store with opened := source :: p.store.opened }) := by
    unfold openSections sourceSection
    rw [hopen]
    simp [hsource]
  refine ⟨⟨{ p.store with opened := source :: p.store.opened }, (env.factory factory p.world).2,
    p.trace ++ [.factory factory (env.factory factory p.world).1]⟩, rfl, rfl, rfl, rfl, ?_⟩
  rw [enterPayload_ok hsection]
  unfold enterSource
  rw [hsource]
  unfold Process.call
  dsimp only
  rcases (env.factory factory p.world).1 with e | (_ | stream) <;> rfl

/-- The context of a replayable source of another class is entered. -/
theorem enterPayload_other (env : Environment W) {object : Nat}
    (hget : Dict.get? p.store.sources parsed.token.val = some source)
    (hsource : heap source = .other object true) (hreplayable : parsed.replayable = true) :
    enterPayload heap env parsed p = ((env.enter object p.world).1.map (source, ·),
      ⟨p.store, (env.enter object p.world).2, p.trace ++ [.enter object (env.enter object p.world).1]⟩) := by
  have hopen : openSection heap p.store parsed = (.ok source, p.store) :=
    openSection_replayable hget (by rw [hsource]; rfl) hreplayable
  have hsection : openSections heap p.store parsed = (.ok source, p.store) := by
    unfold openSections sourceSection
    rw [hopen]
    simp [hsource]
  rw [enterPayload_ok hsection]
  unfold enterSource
  rw [hsource]
  unfold Process.call
  dsimp only
  cases (env.enter object p.world).1 <;> rfl

/-- A source that raises when it is opened. -/
theorem openInVain_enter_error {e' : PyError} {q : Process W}
    (h : enterPayload heap env parsed p = (.error e', q)) : openInVain heap env H parsed e p = (.error e', q) := by
  unfold openInVain
  rw [h]

/-- A replayable factory is left as it was if it was called before, makes no stream now and changes
nothing. -/
theorem costsNothing_factory {factory : FactoryId} {reference : PayloadReferenceValue}
    (hget : Dict.get? p.store.sources parsed.token.val = some source)
    (hsource : heap source = .factory factory true) (hreplayable : parsed.replayable = true) :
    CostsNothing heap env H reference p (openInVain heap env H parsed e p).1 (openInVain heap env H parsed e p).2 ↔
      OpensUnnoticed heap env H parsed e p source := by
  obtain ⟨q, hsources, hopened, hworld, htrace, henter⟩ := enterPayload_factory env hget hsource hreplayable
  unfold OpensUnnoticed
  rw [hsource]
  dsimp only
  by_cases hstream : ∃ stream, (env.factory factory p.world).1 = .ok (some stream)
  · obtain ⟨stream, hstream⟩ := hstream
    rw [hstream] at henter htrace
    constructor
    · rintro ⟨-, -, ⟨calls, hcalls, hnone⟩, -⟩
      refine absurd ?_ (hnone factory stream)
      unfold openInVain at hcalls
      rw [henter] at hcalls
      dsimp only at hcalls
      cases hexit : exitPayload heap env source stream (some e) q with
      | mk closed r =>
        obtain ⟨calls', ⟨ht, -⟩, -⟩ := exitPayload_calls hexit
        rw [hexit, ht, htrace, List.append_assoc] at hcalls
        rw [← List.append_cancel_left hcalls]
        exact List.mem_append_left _ (List.mem_singleton_self _)
    · rintro ⟨-, hno, -⟩
      exact absurd hstream (hno stream)
  · have herror : ∃ e', enterPayload heap env parsed p = (.error e', q) := by
      rw [henter]
      rcases h : (env.factory factory p.world).1 with e' | (_ | stream)
      · exact ⟨e', rfl⟩
      · exact ⟨_, rfl⟩
      · exact absurd ⟨stream, h⟩ hstream
    obtain ⟨e', herror⟩ := herror
    rw [openInVain_enter_error herror]
    constructor
    · rintro ⟨-, halike, -, -⟩
      refine ⟨(halike.opened source).mp ?_, fun stream h => hstream ⟨stream, h⟩, hworld.symm.trans halike.world⟩
      rw [hopened]
      exact List.mem_cons_self
    · rintro ⟨hmem, -, hw⟩
      refine CostsNothing.of_alike ⟨hsources, fun x => ?_, hworld.trans hw⟩ htrace fun factory' stream h => ?_
      · rw [hopened, List.mem_cons]
        refine ⟨fun hx => ?_, Or.inr⟩
        rcases hx with rfl | hx
        · exact hmem
        · exact hx
      · injection List.mem_singleton.mp h with _ hresult
        exact hstream ⟨stream, hresult.symm⟩

/-- When the checks after the loop refuse a transfer that read nothing. -/
theorem verifyTransfer_empty (hH : H.Sha256) (parsed : PayloadReference) :
    (∃ e, verifyTransfer H parsed ⟨H.new, 0⟩ = .error e) ↔
      (∃ n ∈ parsed.expectedLength, n ≠ 0) ∨
        ∃ d ∈ parsed.expectedDigest, d.val ≠ str "sha256:" ++ H.hexdigest H.new := by
  constructor
  · rintro ⟨e, he⟩
    by_contra hnot
    have hok : verifyTransfer H parsed ⟨H.new, 0⟩ = .ok ⟨⟨_, hH.hexdigest H.new⟩, 0⟩ := by
      refine verifyTransfer_eq_ok.mpr ⟨fun n hn => ?_, fun d hd => ?_, rfl, rfl⟩
      · by_contra hne
        exact hnot (Or.inl ⟨n, hn, Ne.symm hne⟩)
      · by_contra hne
        exact hnot (Or.inr ⟨d, hd, fun he => hne (Subtype.ext he.symm)⟩)
    rw [hok] at he
    cases he
  · intro hdeclared
    rcases ok_or_error (verifyTransfer H parsed ⟨H.new, 0⟩) with ⟨i, hi⟩ | he
    · obtain ⟨hlength, hdigest, hobserved, hl⟩ := verifyTransfer_eq_ok.mp hi
      rcases hdeclared with ⟨n, hn, hne⟩ | ⟨d, hd, hne⟩
      · exact absurd ((hlength n hn).symm.trans hl) hne
      · exact absurd ((congrArg Subtype.val (hdigest d hd)).symm.trans hobserved) hne
    · exact he

/-- The context of another replayable source that is entered is exited with the exception. -/
theorem openInVain_other {object : Nat} {w w' : W} {stream : StreamId} {exited : Py Bool}
    (hget : Dict.get? p.store.sources parsed.token.val = some source)
    (hsource : heap source = .other object true) (hreplayable : parsed.replayable = true)
    (hentered : env.enter object p.world = (.ok stream, w)) (hexited : env.exit object (some e) w = (exited, w')) :
    openInVain heap env H parsed e p = (vainResult H parsed e exited,
      ⟨p.store, w', p.trace ++ [.enter object (.ok stream), .exit object (some e) exited]⟩) := by
  have henter := enterPayload_other env hget hsource hreplayable
  rw [hentered] at henter
  have hexit : exitPayload heap env source stream (some e) ⟨p.store, w, p.trace ++ [.enter object (.ok stream)]⟩ =
      (exited, ⟨p.store, w', p.trace ++ [.enter object (.ok stream), .exit object (some e) exited]⟩) := by
    unfold exitPayload
    rw [hsource]
    simp only [Process.call, hexited, List.append_assoc, List.singleton_append]
  unfold openInVain
  rw [henter]
  dsimp only [Except.map]
  rw [hexit]

/-- The context of another replayable source, which may swallow the exception. -/
theorem costsNothing_other (hH : H.Sha256) {object : Nat} {reference : PayloadReferenceValue}
    (hget : Dict.get? p.store.sources parsed.token.val = some source)
    (hsource : heap source = .other object true) (hreplayable : parsed.replayable = true) :
    CostsNothing heap env H reference p (openInVain heap env H parsed e p).1 (openInVain heap env H parsed e p).2 ↔
      OpensUnnoticed heap env H parsed e p source := by
  unfold OpensUnnoticed
  rw [hsource]
  dsimp only
  rcases hentered : env.enter object p.world with ⟨e' | stream, w⟩
  · have henter := enterPayload_other env hget hsource hreplayable
    rw [hentered] at henter
    rw [openInVain_enter_error henter]
    dsimp only
    constructor
    · rintro ⟨-, halike, -, -⟩
      exact halike.world
    · intro hw
      exact CostsNothing.of_alike ⟨rfl, fun _ => Iff.rfl, hw⟩ rfl fun factory stream h => by simp at h
  · dsimp only
    rcases hexited : env.exit object (some e) w with ⟨exited, w'⟩
    rw [openInVain_other hget hsource hreplayable hentered hexited]
    have hcalls : ∀ factory stream', Action.factory factory (.ok (some stream')) ∉
        [.enter object (.ok stream), .exit object (some e) exited] := by simp
    generalize htrace : p.trace ++ [.enter object (.ok stream), .exit object (some e) exited] = trace
    have halike : Alike p ⟨p.store, w', trace⟩ ↔ w' = p.world :=
      ⟨fun h => h.world, fun h => ⟨rfl, fun _ => Iff.rfl, h⟩⟩
    rcases exited with e' | (_ | _)
    · exact ⟨fun h => ⟨halike.mp h.alike, nofun⟩,
        fun h => CostsNothing.of_alike (halike.mpr h.1) htrace.symm hcalls⟩
    · exact ⟨fun h => ⟨halike.mp h.alike, nofun⟩,
        fun h => CostsNothing.of_alike (halike.mpr h.1) htrace.symm hcalls⟩
    · constructor
      · intro h
        exact ⟨halike.mp h.alike, fun _ => (verifyTransfer_empty hH parsed).mp h.raises⟩
      · rintro ⟨hw, hdeclared⟩
        obtain ⟨e', he'⟩ := (verifyTransfer_empty hH parsed).mpr (hdeclared rfl)
        dsimp only [vainResult]
        rw [he']
        exact CostsNothing.of_alike (halike.mpr hw) htrace.symm hcalls

/-! ## When an invalid chunk size costs nothing -/

/-- **An invalid chunk size leaves the registry and the source as they were exactly when the registry
refuses the reference, or opening the source goes unnoticed.** -/
theorem transferPayload_costsNothing_iff (hH : H.Sha256) {reference : PayloadReferenceValue} {fuel : Nat}
    {chunkSize : Json} (hparsed : parsePayloadReference reference = .ok parsed)
    (hregistered : Dict.get? p.store.sources parsed.token.val = some source)
    (hinvalid : ∀ n : Nat, 0 < n → n ≤ maxChunkSize → chunkSize ≠ .int n) :
    (∃ result p', transferPayload heap env H fuel reference chunkSize p = some (result, p') ∧
      CostsNothing heap env H reference p result p') ↔
      (heap source).replayable ≠ parsed.replayable ∨
        ∃ e, chunkSizeOf chunkSize = .error e ∧ OpensUnnoticed heap env H parsed e p source := by
  obtain ⟨e, he⟩ := chunkSizeOf_error hinvalid
  have hrun : (∃ result p', transferPayload heap env H fuel reference chunkSize p = some (result, p') ∧
      CostsNothing heap env H reference p result p') ↔
      CostsNothing heap env H reference p (openInVain heap env H parsed e p).1 (openInVain heap env H parsed e p).2 := by
    rw [transferPayload_invalid hparsed he]
    constructor
    · rintro ⟨result, p', h, hcost⟩
      rwa [Option.some.inj h]
    · exact fun hcost => ⟨_, _, rfl, hcost⟩
  have hopens : (∃ e', chunkSizeOf chunkSize = .error e' ∧ OpensUnnoticed heap env H parsed e' p source) ↔
      OpensUnnoticed heap env H parsed e p source := by
    constructor
    · rintro ⟨e', he', h⟩
      rwa [Except.error.inj (he.symm.trans he')]
    · exact fun h => ⟨e, he, h⟩
  rw [hrun, hopens]
  by_cases hne : (heap source).replayable ≠ parsed.replayable
  · rw [openInVain_mismatch hregistered hne]
    refine ⟨fun _ => Or.inl hne, fun _ => ?_⟩
    exact CostsNothing.of_alike (Alike.refl p) (List.append_nil _).symm (by simp)
  · have heq : (heap source).replayable = parsed.replayable := not_not.mp hne
    rw [or_iff_right hne]
    by_cases hone : (heap source).replayable = false
    · refine iff_of_false (fun h => ?_) (not_opensUnnoticed_of_oneShot hone)
      exact not_alike_of_oneShot hregistered heq hone h.alike
    · rw [Bool.not_eq_false] at hone
      have hreplayable : parsed.replayable = true := heq ▸ hone
      cases hsource : heap source with
      | stream stream =>
        rw [hsource] at hone
        cases hone
      | factory factory replayable =>
        rw [hsource] at hone
        obtain rfl : replayable = true := hone
        exact costsNothing_factory hregistered hsource hreplayable
      | other object replayable =>
        rw [hsource] at hone
        obtain rfl : replayable = true := hone
        exact costsNothing_other hH hregistered hsource hreplayable

/-- A registered stream, with `abc` still to come. -/
def registeredStream : Process (List Bytes) := ⟨{ sources := [(str "p_a", 0)] }, [[97, 98, 99]], []⟩

/-- A handle that says of a stream that it can be replayed. -/
def replayableHandle : PayloadReference := ⟨exampleToken, none, none, true, ⟨_, rfl⟩⟩

theorem zero_invalid (n : Nat) (hpos : 0 < n) : Json.int 0 ≠ .int n := by
  intro h
  injection h with h
  omega

theorem transferPayload_costsNothing_iff_mismatch :
    ∃ result p', transferPayload (fun _ => .stream 0) fragmentEnvironment exampleHasher 1
        (.reference replayableHandle) (.int 0) registeredStream = some (result, p') ∧
      CostsNothing (fun _ => .stream 0) fragmentEnvironment exampleHasher (.reference replayableHandle)
        registeredStream result p' :=
  (transferPayload_costsNothing_iff exampleHasher_sha256 rfl rfl fun n hpos _ => zero_invalid n hpos).mpr
    (Or.inl (by decide))

/-- The handle of a stream is spent on a chunk size of `0`. -/
theorem not_costsNothing_stream :
    ¬ ∃ result p', transferPayload (fun _ => .stream 0) fragmentEnvironment exampleHasher 1
        (.reference firstHandle) (.int 0) registeredStream = some (result, p') ∧
      CostsNothing (fun _ => .stream 0) fragmentEnvironment exampleHasher (.reference firstHandle)
        registeredStream result p' := by
  rintro ⟨result, p', h, hcost⟩
  cases h
  have hsources : ([] : Dict Str SourceId) = [(str "p_a", 0)] := hcost.alike.sources
  cases hsources

end ObjectCommon
