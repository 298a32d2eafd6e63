import ObjectCommon.Library.Runs
import ObjectCommon.Payloads.Registry

/-!
# Payload handles are linear

Any number of threads call `register`, `open` and `release`; each section under a lock is one event.

* `Step` : the events of the registry and of its sources;
* `HandleStep` : the life of one handle: fresh, then live, then spent;
* `status_step` : every event of the registry is one of each handle's life;
* `HandlesLinear`, `registry_linear` : a handle that is not replayable is taken once, a replayable one
  until its release, and a one-shot source is opened once.
-/

namespace ObjectCommon

open Outcome PyError Runs

abbrev ThreadId := Nat

/-- A section under a lock, with what it returned or raised. -/
inductive Event where
  | register (thread : ThreadId) (source : SourceId) (reference : PayloadReference)
  | openRegistry (thread : ThreadId) (reference : PayloadReference) (result : Py SourceId)
  | openSource (thread : ThreadId) (source : SourceId) (result : Py Unit)
  | release (thread : ThreadId) (selected : Token) (result : Bool)

/-- The store, the tokens generated so far, and for each thread the source that its `open`, having
passed the registry, is about to open. -/
structure RegistryState where
  store : PayloadStore := {}
  issued : List Str := []
  pending : ThreadId → Option SourceId := fun _ => none

variable (heap : SourceId → PayloadSource)

/-- One section of one thread. A thread between the two sections of an `open` does nothing else; a
source may also be opened directly. -/
inductive Step : RegistryState → Event → RegistryState → Prop
  | register {s : RegistryState} {thread : ThreadId} {source : SourceId} {generated : Str}
      {expectedLength expectedDigest : Json} {reference : PayloadReference} (idle : s.pending thread = none)
      (made : registerReference heap source generated expectedLength expectedDigest = .ok reference)
      (distinct : reference.token.val ∉ s.issued) :
      Step s (.register thread source reference)
        { s with store := registerSection s.store reference source, issued := reference.token.val :: s.issued }
  | openRegistry {s : RegistryState} {thread : ThreadId} {reference : PayloadReference}
      (idle : s.pending thread = none) :
      Step s (.openRegistry thread reference (openSection heap s.store reference).1)
        { s with
          store := (openSection heap s.store reference).2
          pending := Function.update s.pending thread (openSection heap s.store reference).1.toOption }
  | openSource {s : RegistryState} {thread : ThreadId} {source : SourceId}
      (next : s.pending thread = some source ∨ s.pending thread = none) :
      Step s (.openSource thread source (sourceSection heap s.store source).1)
        { s with
          store := (sourceSection heap s.store source).2
          pending := Function.update s.pending thread none }
  | release {s : RegistryState} {thread : ThreadId} {selected : Token} (idle : s.pending thread = none) :
      Step s (.release thread selected (releaseSection s.store selected).1)
        { s with store := (releaseSection s.store selected).2 }

/-! ## The life of a handle -/

/-- The token an event is about. -/
def Event.token? : Event → Option Str
  | .register _ _ reference => some reference.token.val
  | .openRegistry _ reference _ => some reference.token.val
  | .openSource _ _ _ => none
  | .release _ selected _ => some selected.val

inductive HandleStatus where
  | fresh
  | live (source : SourceId)
  | spent

/-- A mismatch of a reference with its source. -/
def replayabilityMismatch : PyError :=
  PayloadUnavailable "payload reference replayability does not match its source"

/-- The life of the handle `t`: what each event makes of it, and what it answers. -/
inductive HandleStep (t : Str) : HandleStatus → Event → HandleStatus → Prop
  | registered {thread : ThreadId} {source : SourceId} {reference : PayloadReference}
      (ht : reference.token.val = t) : HandleStep t .fresh (.register thread source reference) (.live source)
  | opened {thread : ThreadId} {source : SourceId} {reference : PayloadReference} (ht : reference.token.val = t)
      (hr : (heap source).replayable = reference.replayable) :
      HandleStep t (.live source) (.openRegistry thread reference (.ok source))
        (if (heap source).replayable = true then .live source else .spent)
  | mismatched {thread : ThreadId} {source : SourceId} {reference : PayloadReference}
      (ht : reference.token.val = t) (hr : (heap source).replayable ≠ reference.replayable) :
      HandleStep t (.live source) (.openRegistry thread reference (.error replayabilityMismatch)) (.live source)
  | unavailable {st : HandleStatus} {thread : ThreadId} {reference : PayloadReference}
      (ht : reference.token.val = t) (hs : ∀ source, st ≠ .live source) :
      HandleStep t st (.openRegistry thread reference (.error PayloadUnavailable)) st
  | released {thread : ThreadId} {source : SourceId} {selected : Token} (ht : selected.val = t) :
      HandleStep t (.live source) (.release thread selected true) .spent
  | notReleased {st : HandleStatus} {thread : ThreadId} {selected : Token} (ht : selected.val = t)
      (hs : ∀ source, st ≠ .live source) : HandleStep t st (.release thread selected false) st
  | other {st : HandleStatus} {e : Event} (ht : e.token? ≠ some t) : HandleStep t st e st

/-- The status of the handle `t`, from the registered sources and the tokens generated. -/
def handleStatus (sources : Dict Str SourceId) (issued : List Str) (t : Str) : HandleStatus :=
  match Dict.get? sources t with
  | some source => .live source
  | none => if t ∈ issued then .spent else .fresh

def RegistryState.status (s : RegistryState) (t : Str) : HandleStatus :=
  handleStatus s.store.sources s.issued t

/-- Only handles that were generated are registered. -/
def RegistryState.Issued (s : RegistryState) : Prop :=
  ∀ t source, Dict.get? s.store.sources t = some source → t ∈ s.issued

theorem handleStatus_congr {sources sources' : Dict Str SourceId} {issued issued' : List Str} {t : Str}
    (hget : Dict.get? sources' t = Dict.get? sources t) (hissued : t ∈ issued' ↔ t ∈ issued) :
    handleStatus sources' issued' t = handleStatus sources issued t := by
  simp only [handleStatus, hget, hissued]

theorem handleStatus_live {sources : Dict Str SourceId} {issued : List Str} {t : Str} {source : SourceId}
    (h : Dict.get? sources t = some source) : handleStatus sources issued t = .live source := by
  simp only [handleStatus, h]

theorem handleStatus_not_live {sources : Dict Str SourceId} {issued : List Str} {t : Str}
    (h : Dict.get? sources t = none) (source : SourceId) : handleStatus sources issued t ≠ .live source := by
  simp only [handleStatus, h]
  split <;> simp

theorem handleStatus_fresh {sources : Dict Str SourceId} {issued : List Str} {t : Str}
    (h : Dict.get? sources t = none) (hissued : t ∉ issued) : handleStatus sources issued t = .fresh := by
  simp only [handleStatus, h, hissued, if_false]

/-- A handle that is taken out of the registry is spent. -/
theorem handleStatus_pop {sources : Dict Str SourceId} {issued : List Str} {t : Str} (hissued : t ∈ issued) :
    handleStatus (Dict.pop sources t) issued t = .spent := by
  simp only [handleStatus, Dict.get?_pop_self, hissued, if_true]

/-! ## Sections -/

/-- What the registry's section of `open` does to a handle. -/
theorem openSection_cases (store : PayloadStore) (reference : PayloadReference) :
    (Dict.get? store.sources reference.token.val = none ∧
      openSection heap store reference = (.error PayloadUnavailable, store)) ∨
    ∃ source, Dict.get? store.sources reference.token.val = some source ∧
      (((heap source).replayable ≠ reference.replayable ∧
          openSection heap store reference = (.error replayabilityMismatch, store)) ∨
        ((heap source).replayable = reference.replayable ∧ (heap source).replayable = false ∧
          openSection heap store reference =
            (.ok source, { store with sources := Dict.pop store.sources reference.token.val })) ∨
        ((heap source).replayable = reference.replayable ∧ (heap source).replayable = true ∧
          openSection heap store reference = (.ok source, store))) := by
  unfold openSection
  cases hget : Dict.get? store.sources reference.token.val with
  | none => exact Or.inl ⟨rfl, rfl⟩
  | some source =>
    refine Or.inr ⟨source, rfl, ?_⟩
    dsimp only
    by_cases hr : (heap source).replayable = reference.replayable
    · rw [if_neg (not_not.mpr hr)]
      cases hb : (heap source).replayable with
      | false => exact Or.inr (Or.inl ⟨hb ▸ hr, rfl, rfl⟩)
      | true => exact Or.inr (Or.inr ⟨hb ▸ hr, rfl, rfl⟩)
    · rw [if_pos hr]
      exact Or.inl ⟨hr, rfl⟩

/-- Opening a source leaves the registry as it is. -/
theorem sources_sourceSection (store : PayloadStore) (source : SourceId) :
    (sourceSection heap store source).2.sources = store.sources := by
  unfold sourceSection
  split <;> [skip; skip; rfl] <;> split <;> rfl

/-- The registry's section of `open` changes one handle. -/
theorem get?_openSection_ne {store : PayloadStore} {reference : PayloadReference} {t : Str}
    (ht : t ≠ reference.token.val) :
    Dict.get? (openSection heap store reference).2.sources t = Dict.get? store.sources t := by
  rcases openSection_cases heap store reference with ⟨-, he⟩ | ⟨_, -, ⟨-, he⟩ | ⟨-, -, he⟩ | ⟨-, -, he⟩⟩ <;> rw [he]
  exact Dict.get?_pop_ne _ ht

/-- The registry's section of `open` only removes handles. -/
theorem get?_openSection {store : PayloadStore} {reference : PayloadReference} {t : Str} {source : SourceId}
    (h : Dict.get? (openSection heap store reference).2.sources t = some source) :
    Dict.get? store.sources t = some source := by
  rcases openSection_cases heap store reference with ⟨-, he⟩ | ⟨_, -, ⟨-, he⟩ | ⟨-, -, he⟩ | ⟨-, -, he⟩⟩
  · rwa [he] at h
  · rwa [he] at h
  · rw [he] at h
    by_cases ht : t = reference.token.val
    · subst ht
      rw [Dict.get?_pop_self] at h
      cases h
    · rwa [Dict.get?_pop_ne _ ht] at h
  · rwa [he] at h

variable {heap}

/-- Only handles that were generated are registered, after any event. -/
theorem issued_step {s s' : RegistryState} {e : Event} (hs : s.Issued) (h : Step heap s e s') : s'.Issued := by
  intro t source ht
  cases h with
  | register idle made distinct =>
    simp only [registerSection, Dict.get?_set] at ht
    split at ht
    · next hk => exact hk ▸ List.mem_cons_self
    · exact List.mem_cons_of_mem _ (hs t source ht)
  | openRegistry idle => exact hs t source (get?_openSection heap ht)
  | openSource next =>
    simp only [sources_sourceSection] at ht
    exact hs t source ht
  | @release _ selected idle =>
    by_cases hk : t = selected.val
    · subst hk
      simp [releaseSection] at ht
    · simp only [releaseSection, Dict.get?_pop_ne _ hk] at ht
      exact hs t source ht

/-- What the registry's section of `open` does to the handle it is given. -/
theorem status_openSection {s : RegistryState} (hs : s.Issued) (thread : ThreadId) (reference : PayloadReference) :
    HandleStep heap reference.token.val (s.status reference.token.val)
      (.openRegistry thread reference (openSection heap s.store reference).1)
      (handleStatus (openSection heap s.store reference).2.sources s.issued reference.token.val) := by
  unfold RegistryState.status
  rcases openSection_cases heap s.store reference with
    ⟨hget, he⟩ | ⟨source, hget, ⟨hr, he⟩ | ⟨hr, hb, he⟩ | ⟨hr, hb, he⟩⟩
  · rw [he]
    exact .unavailable rfl (handleStatus_not_live hget)
  · rw [he, handleStatus_live hget]
    exact .mismatched rfl hr
  · have hstep := @HandleStep.opened heap _ thread source reference rfl hr
    rw [hb, if_neg (by simp)] at hstep
    rw [he, handleStatus_live hget, handleStatus_pop (hs _ _ hget)]
    exact hstep
  · have hstep := @HandleStep.opened heap _ thread source reference rfl hr
    rw [hb, if_pos rfl] at hstep
    rw [he, handleStatus_live hget]
    exact hstep

/-- What `release` does to the handle it is given. -/
theorem status_releaseSection {s : RegistryState} (hs : s.Issued) (thread : ThreadId) (selected : Token) :
    HandleStep heap selected.val (s.status selected.val) (.release thread selected (releaseSection s.store selected).1)
      (handleStatus (releaseSection s.store selected).2.sources s.issued selected.val) := by
  unfold RegistryState.status
  dsimp only [releaseSection]
  cases hget : Dict.get? s.store.sources selected.val with
  | none =>
    have hpop : Dict.get? (Dict.pop s.store.sources selected.val) selected.val =
        Dict.get? s.store.sources selected.val := by rw [Dict.get?_pop_self, hget]
    rw [handleStatus_congr hpop Iff.rfl]
    exact .notReleased rfl (handleStatus_not_live hget)
  | some source =>
    rw [handleStatus_live hget, handleStatus_pop (hs _ _ hget)]
    exact .released rfl

/-- **Every event of the registry is one of each handle's life.** -/
theorem status_step {s s' : RegistryState} {e : Event} (t : Str) (hs : s.Issued) (h : Step heap s e s') :
    HandleStep heap t (s.status t) e (s'.status t) := by
  cases h with
  | @register thread source generated l d reference idle made distinct =>
    unfold RegistryState.status
    dsimp only [registerSection]
    by_cases ht : reference.token.val = t
    · subst ht
      have hnone : Dict.get? s.store.sources reference.token.val = none := by
        rw [Option.eq_none_iff_forall_ne_some]
        exact fun source hsrc => distinct (hs _ source hsrc)
      rw [handleStatus_fresh hnone distinct, handleStatus_live (Dict.get?_set_self _ _ _)]
      exact .registered rfl
    · have hissued : t ∈ reference.token.val :: s.issued ↔ t ∈ s.issued := by simp [Ne.symm ht]
      rw [handleStatus_congr (Dict.get?_set_ne _ _ (Ne.symm ht)) hissued]
      exact .other fun h => ht (Option.some.inj h)
  | @openRegistry thread reference idle =>
    by_cases ht : reference.token.val = t
    · subst ht
      exact status_openSection hs thread reference
    · unfold RegistryState.status
      dsimp only
      rw [handleStatus_congr (get?_openSection_ne heap (Ne.symm ht)) Iff.rfl]
      exact .other fun h => ht (Option.some.inj h)
  | @openSource thread source next =>
    unfold RegistryState.status
    dsimp only
    rw [sources_sourceSection]
    exact .other nofun
  | @release thread selected idle =>
    by_cases ht : selected.val = t
    · subst ht
      exact status_releaseSection hs thread selected
    · unfold RegistryState.status
      dsimp only [releaseSection]
      rw [handleStatus_congr (Dict.get?_pop_ne _ (Ne.symm ht)) Iff.rfl]
      exact .other fun h => ht (Option.some.inj h)

theorem status_run {es : List Event} {s : RegistryState} (t : Str) (h : Run (Step heap) {} es s) :
    Run (HandleStep heap t) .fresh es (s.status t) :=
  h.simulate (f := fun s => s.status t) (fun _ _ _ hs hstep => issued_step hs hstep)
    (fun _ _ _ hs hstep => status_step t hs hstep) (by intro t source h; simp at h)

/-! ## Whole lives -/

/-- The event registers the handle `t`. -/
def Event.registers (t : Str) : Event → Bool
  | .register _ _ reference => reference.token.val = t
  | _ => false

/-- An `open` of the handle `t` passed the registry, or a `release` of it returned `True`. -/
def Event.takes (t : Str) : Event → Bool
  | .openRegistry _ reference (.ok _) => reference.token.val = t
  | .release _ selected true => selected.val = t
  | _ => false

/-- A call of `release` on the handle `t`. -/
def Event.releases (t : Str) : Event → Bool
  | .release _ selected _ => selected.val = t
  | _ => false

/-- The source `source` is opened. -/
def Event.yields (source : SourceId) : Event → Bool
  | .openSource _ source' (.ok ()) => source' = source
  | _ => false

/-- The handle `t`, if the event asks for it, is not there. -/
def Event.Denied (t : Str) : Event → Prop
  | .openRegistry _ reference result => reference.token.val = t → result = .error PayloadUnavailable
  | .release _ selected result => selected.val = t → result = false
  | _ => True

/-- What `open` answers in each status of the handle. -/
def HandleStatus.openResult (heap : SourceId → PayloadSource) (r : PayloadReference) : HandleStatus → Py SourceId
  | .live source =>
    if (heap source).replayable = r.replayable then .ok source else .error replayabilityMismatch
  | _ => .error PayloadUnavailable

/-- What `release` answers in each status of the handle. -/
def HandleStatus.releaseResult : HandleStatus → Bool
  | .live _ => true
  | _ => false

variable {t : Str}

/-- An event that is not about the handle neither registers, takes nor releases it. -/
theorem Event.of_other {e : Event} (h : e.token? ≠ some t) :
    e.registers t = false ∧ e.takes t = false ∧ e.releases t = false ∧ e.Denied t := by
  cases e with
  | register => simpa [registers, takes, releases, Denied, token?] using h
  | openRegistry _ _ result =>
    cases result <;> simp_all [registers, takes, releases, Denied, token?]
  | openSource => simp [registers, takes, releases, Denied]
  | release _ _ result =>
    cases result <;> simp_all [registers, takes, releases, Denied, token?]

theorem HandleStep.openResult_eq {st st' : HandleStatus} {thread : ThreadId} {r : PayloadReference}
    {result : Py SourceId} (h : HandleStep heap t st (.openRegistry thread r result) st')
    (ht : r.token.val = t) : result = st.openResult heap r := by
  cases h with
  | opened _ hr => simp [HandleStatus.openResult, hr]
  | mismatched _ hr => simp [HandleStatus.openResult, hr]
  | unavailable _ hs =>
    cases st with
    | live source => exact absurd rfl (hs source)
    | _ => rfl
  | other hne => exact absurd (congrArg some ht) hne

theorem HandleStep.releaseResult_eq {st st' : HandleStatus} {thread : ThreadId} {selected : Token}
    {result : Bool} (h : HandleStep heap t st (.release thread selected result) st')
    (ht : selected.val = t) : result = st.releaseResult := by
  cases h with
  | released _ => rfl
  | notReleased _ hs =>
    cases st with
    | live source => exact absurd rfl (hs source)
    | _ => rfl
  | other hne => exact absurd (congrArg some ht) hne

/-- A handle is registered when it is fresh. -/
theorem HandleStep.of_register {st st' : HandleStatus} {thread : ThreadId} {source : SourceId}
    {reference : PayloadReference} (h : HandleStep heap t st (.register thread source reference) st')
    (ht : reference.token.val = t) : st = .fresh ∧ st' = .live source := by
  cases h with
  | registered _ => exact ⟨rfl, rfl⟩
  | other hne => exact absurd (congrArg some ht) hne

/-- A handle that is fresh was not registered, and answered nothing. -/
theorem HandleStep.to_fresh {st : HandleStatus} {e : Event} (h : HandleStep heap t st e .fresh) :
    st = .fresh ∧ e.takes t = false := by
  generalize hf : HandleStatus.fresh = st' at h
  cases h with
  | registered _ => cases hf
  | opened _ _ => split at hf <;> cases hf
  | mismatched _ _ => cases hf
  | unavailable _ _ => exact ⟨rfl, rfl⟩
  | released _ => cases hf
  | notReleased _ _ => exact ⟨rfl, rfl⟩
  | other hne => exact ⟨rfl, (Event.of_other hne).2.1⟩

/-- A handle stays fresh until it is registered. -/
theorem HandleStep.of_fresh {st : HandleStatus} {e : Event} (h : HandleStep heap t .fresh e st)
    (hr : e.registers t = false) : st = .fresh := by
  cases h with
  | registered ht => simp [Event.registers, ht] at hr
  | unavailable _ _ => rfl
  | notReleased _ _ => rfl
  | other _ => rfl

/-- A spent handle stays spent, and answers nothing. -/
theorem HandleStep.of_spent {st : HandleStatus} {e : Event} (h : HandleStep heap t .spent e st) :
    st = .spent ∧ e.takes t = false ∧ e.Denied t := by
  cases h with
  | unavailable _ _ => exact ⟨rfl, rfl, fun _ => rfl⟩
  | notReleased _ _ => exact ⟨rfl, rfl, fun _ => rfl⟩
  | other hne => exact ⟨rfl, (Event.of_other hne).2.1, (Event.of_other hne).2.2.2⟩

/-- A live handle that is not replayable is spent by what takes it. -/
theorem HandleStep.of_live_once {st : HandleStatus} {e : Event} {source : SourceId}
    (h : HandleStep heap t (.live source) e st) (hb : (heap source).replayable = false) :
    (e.takes t = true ∧ st = .spent) ∨ (e.takes t = false ∧ st = .live source) := by
  cases h with
  | opened ht _ => exact Or.inl ⟨by simp [Event.takes, ht], by simp [hb]⟩
  | mismatched _ _ => exact Or.inr ⟨rfl, rfl⟩
  | unavailable _ hs => exact absurd rfl (hs source)
  | released ht => exact Or.inl ⟨by simp [Event.takes, ht], rfl⟩
  | notReleased _ hs => exact absurd rfl (hs source)
  | other hne => exact Or.inr ⟨(Event.of_other hne).2.1, rfl⟩

/-- A live replayable handle is spent by its release only. -/
theorem HandleStep.of_live_replayable {st : HandleStatus} {e : Event} {source : SourceId}
    (h : HandleStep heap t (.live source) e st) (hb : (heap source).replayable = true) :
    (e.releases t = true ∧ st = .spent) ∨ (e.releases t = false ∧ st = .live source) := by
  cases h with
  | opened _ _ => exact Or.inr ⟨rfl, by simp [hb]⟩
  | mismatched _ _ => exact Or.inr ⟨rfl, rfl⟩
  | unavailable _ hs => exact absurd rfl (hs source)
  | released ht => exact Or.inl ⟨by simp [Event.releases, ht], rfl⟩
  | notReleased _ hs => exact absurd rfl (hs source)
  | other hne => exact Or.inr ⟨(Event.of_other hne).2.2.1, rfl⟩

/-- Nothing took a handle that is still fresh. -/
theorem countP_takes_fresh {es : List Event} (h : Run (HandleStep heap t) .fresh es .fresh) :
    es.countP (Event.takes t) = 0 := by
  refine h.invariant (P := fun es st => st = .fresh → es.countP (Event.takes t) = 0) (fun _ => rfl) ?_ rfl
  rintro es st e st' ih hstep rfl
  obtain ⟨hst, he⟩ := hstep.to_fresh
  simp [ih hst, he]

/-- The handle is fresh as long as it is not registered. -/
theorem run_fresh {es : List Event} {st : HandleStatus} (h : Run (HandleStep heap t) .fresh es st)
    (hr : ∀ e ∈ es, e.registers t = false) : st = .fresh := by
  refine h.invariant (P := fun es st => (∀ e ∈ es, e.registers t = false) → st = .fresh) (fun _ => rfl) ?_ hr
  intro es st e st' ih hstep hr
  obtain rfl := ih fun e' he' => hr e' (List.mem_append_left _ he')
  exact hstep.of_fresh (hr e (by simp))

/-- A spent handle is denied from then on. -/
theorem run_spent {es : List Event} {st : HandleStatus} (h : Run (HandleStep heap t) .spent es st) :
    st = .spent ∧ ∀ e ∈ es, e.Denied t := by
  refine h.invariant (P := fun es st => st = .spent ∧ ∀ e ∈ es, e.Denied t) ⟨rfl, by simp⟩ ?_
  rintro es st e st' ⟨rfl, hd⟩ hstep
  obtain ⟨hst, -, hden⟩ := hstep.of_spent
  refine ⟨hst, fun e' he' => ?_⟩
  rcases List.mem_append.mp he' with he' | he'
  · exact hd e' he'
  · exact List.mem_singleton.mp he' ▸ hden

/-- A replayable handle is live until its first release, and spent from then on. -/
theorem run_replayable {es : List Event} {st : HandleStatus} {source : SourceId}
    (h : Run (HandleStep heap t) (.live source) es st) (hb : (heap source).replayable = true) :
    st = if es.any (Event.releases t) then .spent else .live source := by
  refine h.invariant (P := fun es st => st = if es.any (Event.releases t) then .spent else .live source)
    rfl ?_
  intro es st e st' ih hstep
  rw [List.any_append, List.any_cons, List.any_nil, Bool.or_false]
  cases hes : es.any (Event.releases t) with
  | true =>
    rw [hes] at ih
    subst ih
    simpa using hstep.of_spent.1
  | false =>
    rw [hes] at ih
    subst ih
    rcases hstep.of_live_replayable hb with ⟨he, rfl⟩ | ⟨he, rfl⟩ <;> simp [he]

theorem HandleStep.of_live {st : HandleStatus} {e : Event} {source : SourceId}
    (h : HandleStep heap t (.live source) e st) : st = .live source ∨ st = .spent := by
  cases hb : (heap source).replayable with
  | false => exact (h.of_live_once hb).symm.imp And.right And.right
  | true => exact (h.of_live_replayable hb).symm.imp And.right And.right

/-- A handle that was registered stays live for its source until it is spent. -/
theorem run_live {es : List Event} {st : HandleStatus} {source : SourceId}
    (h : Run (HandleStep heap t) (.live source) es st) : st = .live source ∨ st = .spent := by
  refine h.keep (I := fun st => st = .live source ∨ st = .spent) ?_ (Or.inl rfl)
  rintro st e st' (rfl | rfl) hstep
  · exact hstep.of_live
  · exact Or.inr hstep.of_spent.1

/-- A handle that is not replayable is taken at most once in its life. -/
theorem countP_takes_le_one {es : List Event} {st : HandleStatus} {source : SourceId}
    (h : Run (HandleStep heap t) (.live source) es st) (hb : (heap source).replayable = false) :
    es.countP (Event.takes t) ≤ 1 := by
  refine h.countP_le_one (I := fun st => st = .live source ∨ st = .spent) (S := (· = .spent)) ?_ ?_ ?_
    (Or.inl rfl)
  · rintro st e st' (rfl | rfl) hstep
    · exact hstep.of_live
    · exact Or.inr hstep.of_spent.1
  · rintro st e st' (rfl | rfl) hstep he
    · rcases hstep.of_live_once hb with ⟨-, rfl⟩ | ⟨hf, -⟩
      · rfl
      · rw [he] at hf
        cases hf
    · exact hstep.of_spent.1
  · rintro st e st' rfl hstep
    exact ⟨hstep.of_spent.1, hstep.of_spent.2.1⟩

/-! ## Sources -/

/-- A one-shot source is opened when it was not, and refuses from then on. -/
theorem sourceSection_oneShot (store : PayloadStore) {source : SourceId} (h : (heap source).OneShot) :
    (source ∉ store.opened ∧ (sourceSection heap store source).1 = .ok () ∧
      source ∈ (sourceSection heap store source).2.opened) ∨
    (source ∈ store.opened ∧ ∃ m, (sourceSection heap store source).1 = .error (PayloadUnavailable m)) := by
  unfold sourceSection
  cases hs : heap source with
  | stream _ =>
    dsimp only
    split
    · next hm => exact Or.inr ⟨hm, _, rfl⟩
    · next hm => exact Or.inl ⟨hm, rfl, List.mem_cons_self⟩
  | factory _ replayable =>
    obtain rfl : replayable = false := by rw [hs] at h; exact h
    dsimp only
    split
    · next hm => exact Or.inr ⟨hm.2, _, rfl⟩
    · next hm => exact Or.inl ⟨fun h => hm ⟨rfl, h⟩, rfl, List.mem_cons_self⟩
  | other _ _ => rw [hs] at h; exact h.elim

/-- A flag that is set stays set. -/
theorem mem_opened_sourceSection {store : PayloadStore} {source x : SourceId} (h : x ∈ store.opened) :
    x ∈ (sourceSection heap store source).2.opened := by
  unfold sourceSection
  split
  · split
    · exact h
    · exact List.mem_cons_of_mem _ h
  · split
    · exact h
    · exact List.mem_cons_of_mem _ h
  · exact h

theorem opened_openSection (store : PayloadStore) (reference : PayloadReference) :
    (openSection heap store reference).2.opened = store.opened := by
  rcases openSection_cases heap store reference with ⟨-, he⟩ | ⟨_, -, ⟨-, he⟩ | ⟨-, -, he⟩ | ⟨-, -, he⟩⟩ <;> rw [he]

theorem mem_opened_step {s s' : RegistryState} {e : Event} {x : SourceId} (hx : x ∈ s.store.opened)
    (h : Step heap s e s') : x ∈ s'.store.opened := by
  cases h with
  | register => exact hx
  | openRegistry => simpa only [opened_openSection] using hx
  | openSource => exact mem_opened_sourceSection hx
  | release => exact hx

/-- **A one-shot source is opened at most once**, by whatever handle or directly. -/
theorem countP_yields_le_one {es : List Event} {s : RegistryState} (h : Run (Step heap) {} es s)
    {source : SourceId} (hs : (heap source).OneShot) : es.countP (Event.yields source) ≤ 1 := by
  have hyields : ∀ {s s' : RegistryState} {e : Event}, Step heap s e s' → e.yields source = true →
      source ∉ s.store.opened ∧ source ∈ s'.store.opened := by
    intro s s' e hstep he
    cases hstep with
    | @openSource thread source' next =>
      cases hr : (sourceSection heap s.store source').1 with
      | error err => simp [Event.yields, hr] at he
      | ok u =>
        obtain rfl : source' = source := by simpa [Event.yields, hr] using he
        rcases sourceSection_oneShot s.store hs with ⟨hn, -, hm⟩ | ⟨-, m, hm⟩
        · exact ⟨hn, hm⟩
        · rw [hm] at hr
          cases hr
    | register => cases he
    | openRegistry => cases he
    | release => cases he
  have hstay : ∀ (s : RegistryState) (e : Event) (s' : RegistryState), source ∈ s.store.opened →
      Step heap s e s' → source ∈ s'.store.opened ∧ e.yields source = false := by
    intro s e s' hm hstep
    refine ⟨mem_opened_step hm hstep, ?_⟩
    cases he : e.yields source with
    | false => rfl
    | true => exact absurd hm (hyields hstep he).1
  refine h.countP_le_one (I := fun _ => True) (S := fun s => source ∈ s.store.opened) ?_ ?_ hstay trivial
  · exact fun _ _ _ _ _ => trivial
  · exact fun _ _ _ _ hstep he => (hyields hstep he).2

/-! ## Handles are linear -/

/-- What holds of the events of the registry, in their order. -/
structure HandlesLinear (heap : SourceId → PayloadSource) (es : List Event) : Prop where
  /-- A handle that is not replayable is opened or released once, and denied from then on. -/
  once : ∀ a thread source reference b, es = a ++ .register thread source reference :: b →
    (heap source).replayable = false →
      es.countP (Event.takes reference.token.val) ≤ 1 ∧
      ∀ c e d, b = c ++ e :: d → e.takes reference.token.val = true → ∀ e' ∈ d, e'.Denied reference.token.val
  /-- A replayable handle is opened until its first release, which alone returns `True`. -/
  reusable : ∀ a thread source reference b, es = a ++ .register thread source reference :: b →
    (heap source).replayable = true →
      (∀ c thread' r result d, b = c ++ .openRegistry thread' r result :: d →
        r.token.val = reference.token.val →
        result = if c.any (Event.releases reference.token.val) then .error PayloadUnavailable
          else if r.replayable = true then .ok source else .error replayabilityMismatch) ∧
      ∀ c thread' selected result d, b = c ++ .release thread' selected result :: d →
        selected.val = reference.token.val → result = !c.any (Event.releases reference.token.val)
  /-- A one-shot source yields its stream once. -/
  sourceOnce : ∀ source, (heap source).OneShot → es.countP (Event.yields source) ≤ 1
  /-- A handle that is not registered is not there. -/
  unknown : ∀ a thread r result b, es = a ++ .openRegistry thread r result :: b →
    (∀ e ∈ a, e.registers r.token.val = false) → result = .error PayloadUnavailable
  /-- A reference that does not match its source opens nothing. -/
  mismatch : ∀ a thread source reference b thread' r result c,
    es = a ++ .register thread source reference :: (b ++ .openRegistry thread' r result :: c) →
    r.token.val = reference.token.val → (heap source).replayable ≠ r.replayable →
      result = .error replayabilityMismatch ∨ result = .error PayloadUnavailable

/-- The life of a handle from its registration on. -/
theorem run_registered {a b : List Event} {st : HandleStatus} {thread : ThreadId} {source : SourceId}
    {reference : PayloadReference} (ht : reference.token.val = t)
    (h : Run (HandleStep heap t) .fresh (a ++ .register thread source reference :: b) st) :
    a.countP (Event.takes t) = 0 ∧ Run (HandleStep heap t) (.live source) b st := by
  obtain ⟨st₁, st₂, ha, hreg, hb⟩ := h.split
  obtain ⟨rfl, rfl⟩ := hreg.of_register ht
  exact ⟨countP_takes_fresh ha, hb⟩

/-- A failed `open` leaves the registry as it was. -/
theorem store_of_open_error {s s' : RegistryState} {thread : ThreadId} {r : PayloadReference} {err : PyError}
    (h : Step heap s (.openRegistry thread r (.error err)) s') :
    s'.store = s.store ∧ ∃ m, err = PayloadUnavailable m := by
  generalize he : Event.openRegistry thread r (.error err) = e at h
  cases h with
  | openRegistry idle =>
    injection he with _ hr hres
    subst hr
    rcases openSection_cases heap s.store r with ⟨-, ho⟩ | ⟨_, -, ⟨-, ho⟩ | ⟨-, -, ho⟩ | ⟨-, -, ho⟩⟩
    · rw [ho] at hres ⊢
      cases hres
      exact ⟨rfl, _, rfl⟩
    · rw [ho] at hres ⊢
      cases hres
      exact ⟨rfl, _, rfl⟩
    · rw [ho] at hres
      cases hres
    · rw [ho] at hres
      cases hres
  | _ => cases he

/-- **A registry handle is linear under any interleaving** of any number of threads, and a failed `open`
changes nothing. -/
theorem registry_linear {es : List Event} {s : RegistryState} (h : Run (Step heap) {} es s) :
    HandlesLinear heap es ∧
      ∀ (s₁ s₂ : RegistryState) (thread : ThreadId) (r : PayloadReference) (err : PyError),
        Step heap s₁ (.openRegistry thread r (.error err)) s₂ →
          s₂.store = s₁.store ∧ ∃ m, err = PayloadUnavailable m := by
  refine ⟨⟨?_, ?_, fun source hs => countP_yields_le_one h hs, ?_, ?_⟩,
    fun _ _ _ _ _ hstep => store_of_open_error hstep⟩
  · rintro a thread source reference b rfl hb
    obtain ⟨ha, hrun⟩ := run_registered rfl (status_run reference.token.val h)
    have hle := countP_takes_le_one hrun hb
    refine ⟨by simp [ha, Event.takes, hle], ?_⟩
    rintro c e d rfl he
    obtain ⟨st₁, st₂, hc, hstep, hd⟩ := hrun.split
    have hst : st₂ = .spent := by
      rcases run_live hc with rfl | rfl
      · rcases hstep.of_live_once hb with ⟨-, rfl⟩ | ⟨hf, -⟩
        · rfl
        · rw [he] at hf
          cases hf
      · exact hstep.of_spent.1
    subst hst
    exact (run_spent hd).2
  · rintro a thread source reference b rfl hb
    obtain ⟨-, hrun⟩ := run_registered rfl (status_run reference.token.val h)
    constructor
    · rintro c thread' r result d rfl ht
      obtain ⟨st₁, st₂, hc, hstep, -⟩ := hrun.split
      rw [hstep.openResult_eq ht, run_replayable hc hb]
      cases c.any (Event.releases reference.token.val) with
      | true => rfl
      | false =>
        simp only [Bool.false_eq_true, if_false, HandleStatus.openResult, hb]
        cases r.replayable <;> rfl
    · rintro c thread' selected result d rfl ht
      obtain ⟨st₁, st₂, hc, hstep, -⟩ := hrun.split
      rw [hstep.releaseResult_eq ht, run_replayable hc hb]
      cases c.any (Event.releases reference.token.val) <;> rfl
  · rintro a thread r result b rfl hr
    obtain ⟨st₁, st₂, ha, hstep, -⟩ := (status_run r.token.val h).split
    obtain rfl := run_fresh ha hr
    exact hstep.openResult_eq rfl
  · rintro a thread source reference b thread' r result c rfl ht hne
    obtain ⟨-, hrun⟩ := run_registered rfl (status_run reference.token.val h)
    obtain ⟨st₁, st₂, hb, hstep, -⟩ := hrun.split
    rw [hstep.openResult_eq ht]
    rcases run_live hb with rfl | rfl
    · exact Or.inl (if_neg hne)
    · exact Or.inr rfl

/-- One stream and one replayable factory. -/
def twoSources : SourceId → PayloadSource
  | 0 => .stream 0
  | _ => .factory 0 true

def firstHandle : PayloadReference := ⟨exampleToken, none, none, false, ⟨_, rfl⟩⟩

def secondHandle : PayloadReference := ⟨⟨"p_b", by decide⟩, none, none, false, ⟨_, rfl⟩⟩

/-- A stream under two handles: the second passes the registry, but the stream is gone. -/
def streamTwice : List Event :=
  [.register 1 0 firstHandle, .register 2 0 secondHandle, .openRegistry 1 firstHandle (.ok 0),
    .openSource 1 0 (.ok ()), .openRegistry 2 secondHandle (.ok 0),
    .openSource 2 0 (.error (PayloadUnavailable "the non-replayable payload was already opened")),
    .release 1 secondHandle.token false]

theorem registry_linear_streamTwice : ∃ s, Run (Step twoSources) {} streamTwice s ∧
    HandlesLinear twoSources streamTwice := by
  have hfirst : registerReference twoSources 0 "a" .null .null = .ok firstHandle := rfl
  have hsecond : registerReference twoSources 0 "b" .null .null = .ok secondHandle := rfl
  have h₁ : Run (Step twoSources) {} (streamTwice.take 1) _ := Run.nil.snoc (.register rfl hfirst (by decide))
  have h₂ : Run (Step twoSources) {} (streamTwice.take 2) _ := h₁.snoc (.register rfl hsecond (by decide))
  have h₃ : Run (Step twoSources) {} (streamTwice.take 3) _ := h₂.snoc (.openRegistry rfl)
  have h₄ : Run (Step twoSources) {} (streamTwice.take 4) _ := h₃.snoc (.openSource (Or.inl rfl))
  have h₅ : Run (Step twoSources) {} (streamTwice.take 5) _ := h₄.snoc (.openRegistry rfl)
  have h₆ : Run (Step twoSources) {} (streamTwice.take 6) _ := h₅.snoc (.openSource (Or.inl rfl))
  have h₇ : Run (Step twoSources) {} streamTwice _ := h₆.snoc (.release rfl)
  exact ⟨_, h₇, (registry_linear h₇).1⟩

end ObjectCommon
