import ObjectCommon.Payloads.Ledger

/-!
# Streams are closed once

* `CallsOnly A p p'` : the calls from one process to another are all of one kind;
* `transferStream_callsOnly` : the body of a transfer reads its stream and calls the sink and the callback;
* `enterPayload_opens`, `exitPayload_closes` : the calls at the ends of a payload's context;
* `transferPayload_closes` : a stream that a factory returned is closed by the last call of the transfer, and by
  no other; a stream of the caller is not closed.
-/

namespace ObjectCommon

open Outcome PyError

/-! ## Kinds of calls -/

/-- A read of the stream, or a call of the sink or of the callback. -/
def Action.IsTransfer (stream : StreamId) : Action → Prop
  | .read s _ _ => s = stream
  | .write _ _ => True
  | .cancelled _ => True
  | _ => False

def Action.isClose : Action → Bool
  | .close _ _ => true
  | _ => false

theorem Action.IsTransfer.not_isClose {stream : StreamId} {a : Action} (h : a.IsTransfer stream) : a.isClose = false := by
  cases a with
  | close s r => exact h.elim
  | _ => rfl

theorem Action.IsTransfer.ne_factory {stream : StreamId} {a : Action} (h : a.IsTransfer stream) (f : FactoryId)
    (r : Py (Option StreamId)) : a ≠ .factory f r := by
  rintro rfl
  exact h.elim

variable {W : Type} {heap : SourceId → PayloadSource} {env : Environment W} {H : Hasher}

/-- The calls from `p` to `p'` are all of the kind `A`. -/
def CallsOnly (A : Action → Prop) (p p' : Process W) : Prop :=
  ∃ calls, p'.trace = p.trace ++ calls ∧ ∀ a ∈ calls, A a

namespace CallsOnly

variable {A : Action → Prop}

theorem refl (p : Process W) : CallsOnly A p p := ⟨[], by simp, by simp⟩

theorem trans {p q r : Process W} (h : CallsOnly A p q) (h' : CallsOnly A q r) : CallsOnly A p r := by
  obtain ⟨calls, ht, hcalls⟩ := h
  obtain ⟨calls', ht', hcalls'⟩ := h'
  refine ⟨calls ++ calls', by rw [ht', ht, List.append_assoc], fun a ha => ?_⟩
  rcases List.mem_append.mp ha with ha | ha
  · exact hcalls a ha
  · exact hcalls' a ha

theorem call {α : Type} {p p' : Process W} {f : W → α × W} {action : α → Action} {a : α}
    (h : p.call f action = (a, p')) (ha : A (action a)) : CallsOnly A p p' :=
  ⟨[action a], trace_call h, by simpa using ha⟩

end CallsOnly

/-! ## The body -/

variable {stream : StreamId}

theorem nextChunk_callsOnly {size : Nat} {p p' : Process W} {result : Py (Option Bytes)}
    (h : nextChunk env stream size p = (result, p')) : CallsOnly (Action.IsTransfer stream) p p' := by
  obtain ⟨answer, hcall, -⟩ := nextChunk_cases h
  exact .call hcall rfl

theorem checkCancelled_callsOnly (stream : StreamId) {p p' : Process W} {result : Py Unit}
    (h : checkCancelled env p = (result, p')) : CallsOnly (Action.IsTransfer stream) p p' := by
  rcases checkCancelled_cases h with ⟨-, -, rfl⟩ | ⟨cancelled, answer, -, hcall, -⟩
  · exact .refl _
  · exact .call hcall trivial

theorem transferChunk_callsOnly (stream : StreamId) {parsed : PayloadReference} {chunk : Bytes} {s s' : Progress H}
    {p p' : Process W} {result : Py Unit} (h : transferChunk env H parsed chunk s p = (result, s', p')) :
    CallsOnly (Action.IsTransfer stream) p p' := by
  rcases transferChunk_cases h with ⟨e, hcheck, -⟩ | ⟨q, answer, hcheck, hcall, -⟩
  · exact checkCancelled_callsOnly stream hcheck
  · exact (checkCancelled_callsOnly stream hcheck).trans (.call hcall trivial)

theorem transferChunks_callsOnly {parsed : PayloadReference} {size fuel : Nat} {s s' : Progress H} {p p' : Process W}
    {result : Py Unit} (h : transferChunks env H parsed stream size fuel s p = some (result, s', p')) :
    CallsOnly (Action.IsTransfer stream) p p' := by
  refine transferChunks_induction (motive := fun _ _ p _ _ p' => CallsOnly (Action.IsTransfer stream) p p')
    ?_ ?_ ?_ ?_ h
  · intro _ s p e p' hnext
    exact nextChunk_callsOnly hnext
  · intro _ s p p' hnext
    exact nextChunk_callsOnly hnext
  · intro _ s p chunk q e s' p' hnext hround
    exact (nextChunk_callsOnly hnext).trans (transferChunk_callsOnly stream hround)
  · intro _ s p chunk q t r result s' p' hnext hround hrest
    exact ((nextChunk_callsOnly hnext).trans (transferChunk_callsOnly stream hround)).trans hrest

/-- **The body of a transfer reads its own stream**, calls the sink and the callback, and closes nothing. -/
theorem transferStream_callsOnly {parsed : PayloadReference} {fuel : Nat} {chunkSize : Json} {s s' : Progress H}
    {p p' : Process W} {result : Py Unit}
    (h : transferStream env H fuel parsed chunkSize stream s p = some (result, s', p')) :
    CallsOnly (Action.IsTransfer stream) p p' := by
  unfold transferStream at h
  cases hsize : chunkSizeOf chunkSize with
  | error e =>
    rw [hsize] at h
    cases h
    exact .refl p
  | ok size =>
    rw [hsize] at h
    exact transferChunks_callsOnly h

/-! ## The ends of the context -/

/-- The calls that open a source, with the stream they lead to if any. -/
def Opens : PayloadSource → List Action → Option StreamId → Prop
  | .stream stream, calls, opened => calls = [] ∧ opened = some stream
  | .factory factory _, calls, some stream => calls = [.factory factory (.ok (some stream))]
  | .factory factory _, calls, none => ∃ r, calls = [.factory factory r] ∧ ∀ stream, r ≠ .ok (some stream)
  | .other object _, calls, _ => ∃ r, calls = [.enter object r]

/-- The calls that close a source with the given stream. -/
def Closes (stream : StreamId) : PayloadSource → List Action → Prop
  | .stream _, calls => calls = []
  | .factory _ _, calls => ∃ r, calls = [.close stream r]
  | .other object _, calls => ∃ raised r, calls = [.exit object raised r]

/-- The source that a reference stands for in a store. -/
def Selects (store : PayloadStore) (parsed : PayloadReference) (source : SourceId) : Prop :=
  Dict.get? store.sources parsed.token.val = some source

theorem openSection_selects {store store' : PayloadStore} {parsed : PayloadReference} {source : SourceId}
    (h : openSection heap store parsed = (.ok source, store')) : Selects store parsed source := by
  unfold openSection at h
  unfold Selects
  cases hget : Dict.get? store.sources parsed.token.val with
  | none =>
    rw [hget] at h
    cases h
  | some selected =>
    rw [hget] at h
    dsimp only at h
    split at h
    · cases h
    · split at h <;> cases h <;> rfl

/-- Entering a source makes the calls that open it. -/
theorem enterSource_opens {source : SourceId} {p p' : Process W} {result : Py (SourceId × StreamId)}
    (h : enterSource heap env source p = (result, p')) :
    ∃ calls, p'.trace = p.trace ++ calls ∧
      ((∃ e, result = .error e ∧ Opens (heap source) calls none) ∨
        ∃ stream, result = .ok (source, stream) ∧ Opens (heap source) calls (some stream)) := by
  unfold enterSource at h
  cases hsource : heap source with
  | stream stream =>
    rw [hsource] at h
    cases h
    exact ⟨[], by simp, Or.inr ⟨stream, rfl, rfl, rfl⟩⟩
  | factory factory replayable =>
    rw [hsource] at h
    dsimp only at h
    cases hcall : p.call (env.factory factory) (.factory factory) with
    | mk returned q =>
      have ht := trace_call hcall
      rw [hcall] at h
      rcases returned with e | (_ | stream) <;> cases h
      · exact ⟨_, ht, Or.inl ⟨e, rfl, _, rfl, nofun⟩⟩
      · exact ⟨_, ht, Or.inl ⟨_, rfl, _, rfl, nofun⟩⟩
      · exact ⟨_, ht, Or.inr ⟨stream, rfl, rfl⟩⟩
  | other object replayable =>
    rw [hsource] at h
    dsimp only at h
    cases hcall : p.call (env.enter object) (.enter object) with
    | mk returned q =>
      have ht := trace_call hcall
      rw [hcall] at h
      cases returned <;> cases h
      · exact ⟨_, ht, Or.inl ⟨_, rfl, _, rfl⟩⟩
      · exact ⟨_, ht, Or.inr ⟨_, rfl, _, rfl⟩⟩

/-- Entering a payload's context makes no call, or those that open the source that the reference stands for. -/
theorem enterPayload_opens {parsed : PayloadReference} {p p' : Process W} {result : Py (SourceId × StreamId)}
    (h : enterPayload heap env parsed p = (result, p')) :
    (p'.trace = p.trace ∧ ∃ e, result = .error e) ∨
      ∃ source calls, Selects p.store parsed source ∧ p'.trace = p.trace ++ calls ∧
        ((∃ e, result = .error e ∧ Opens (heap source) calls none) ∨
          ∃ stream, result = .ok (source, stream) ∧ Opens (heap source) calls (some stream)) := by
  rcases enterPayload_cases h with ⟨e, store, -, rfl, rfl⟩ | ⟨source, store, hsections, hsource⟩
  · exact Or.inl ⟨rfl, e, rfl⟩
  · obtain ⟨taken, hopen, -⟩ := openSections_eq_ok hsections
    obtain ⟨calls, ht, hopens⟩ := enterSource_opens hsource
    exact Or.inr ⟨source, calls, openSection_selects hopen, ht, hopens⟩

/-- Exiting a payload's context makes the calls that close its source. -/
theorem exitPayload_closes {source : SourceId} {raised : Option PyError} {p p' : Process W} {result : Py Bool}
    (h : exitPayload heap env source stream raised p = (result, p')) :
    ∃ calls, p'.trace = p.trace ++ calls ∧ Closes stream (heap source) calls := by
  unfold exitPayload at h
  cases hsource : heap source with
  | stream s =>
    rw [hsource] at h
    cases h
    exact ⟨[], by simp, rfl⟩
  | factory factory replayable =>
    rw [hsource] at h
    dsimp only at h
    cases hcall : p.call (env.close stream) (.close stream) with
    | mk answer q =>
      have hq := trace_call hcall
      rw [hcall] at h
      cases answer <;> cases h <;> exact ⟨_, hq, _, rfl⟩
  | other object replayable =>
    rw [hsource] at h
    cases h
    exact ⟨_, rfl, raised, _, rfl⟩

/-! ## The transfer -/

/-- The calls of a transfer: those that open its source, those of the body, and those that close the source. -/
inductive Session (heap : SourceId → PayloadSource) (store : PayloadStore) (parsed : PayloadReference) :
    List Action → Prop
  | unopened : Session heap store parsed []
  | refused {source : SourceId} {calls : List Action} (hs : Selects store parsed source)
      (ho : Opens (heap source) calls none) : Session heap store parsed calls
  | opened {source : SourceId} {stream : StreamId} {opening body closing : List Action}
      (hs : Selects store parsed source) (ho : Opens (heap source) opening (some stream))
      (hb : ∀ a ∈ body, a.IsTransfer stream) (hc : Closes stream (heap source) closing) :
      Session heap store parsed (opening ++ body ++ closing)

/-- Whatever the body of a `with` does, its stream is closed after it. -/
theorem withPayload_session {σ : Type} {parsed : PayloadReference}
    {body : StreamId → σ → Process W → Option (Py Unit × σ × Process W)} {s s' : σ} {p p' : Process W}
    {result : Py Unit} (hbody : ∀ stream s p result s' p', body stream s p = some (result, s', p') →
      CallsOnly (Action.IsTransfer stream) p p')
    (h : withPayload heap env parsed body s p = some (result, s', p')) :
    ∃ calls, p'.trace = p.trace ++ calls ∧ Session heap p.store parsed calls := by
  rcases withPayload_cases h with ⟨e, henter, -⟩ | ⟨source, stream, q, answer, r, closed, henter, hrun, hexit, -⟩
  · rcases enterPayload_opens henter with ⟨ht, -⟩ | ⟨source, calls, hselects, ht, ⟨-, -, ho⟩ | ⟨stream, he, -⟩⟩
    · exact ⟨[], by simp [ht], .unopened⟩
    · exact ⟨calls, ht, .refused hselects ho⟩
    · cases he
  · rcases enterPayload_opens henter with ⟨-, e, he⟩ | ⟨source, opening, hselects, ht, ⟨e, he, -⟩ | ⟨stream, he, ho⟩⟩
    · cases he
    · cases he
    · cases he
      obtain ⟨calls, ht', hcalls⟩ := hbody _ _ _ _ _ _ hrun
      obtain ⟨closing, ht'', hc⟩ := exitPayload_closes hexit
      exact ⟨opening ++ calls ++ closing, by rw [ht'', ht', ht]; simp only [List.append_assoc],
        .opened hselects ho hcalls hc⟩

theorem transferPayload_session {parsed : PayloadReference} {reference : PayloadReferenceValue} {fuel : Nat}
    {chunkSize : Json} {p p' : Process W} {result : Py ContentIdentity}
    (hparsed : parsePayloadReference reference = .ok parsed)
    (h : transferPayload heap env H fuel reference chunkSize p = some (result, p')) :
    ∃ calls, p'.trace = p.trace ++ calls ∧ Session heap p.store parsed calls := by
  rw [transferPayload, hparsed] at h
  obtain ⟨⟨answer, s, q⟩, hwith, hresult⟩ := Option.map_eq_some_iff.mp h
  have hq : q = p' := by cases answer <;> cases hresult <;> rfl
  subst hq
  exact withPayload_session (fun stream s p result s' p' => transferStream_callsOnly) hwith

/-- A factory's stream is closed by the last call of the session, and is read only before it. -/
theorem Session.closes_factory {store : PayloadStore} {parsed : PayloadReference} {calls : List Action}
    (h : Session heap store parsed calls) {f : FactoryId} {s : StreamId} (hf : .factory f (.ok (some s)) ∈ calls) :
    ∃ body r, calls = .factory f (.ok (some s)) :: body ++ [.close s r] ∧ ∀ a ∈ body, a.IsTransfer s := by
  cases h with
  | unopened => cases hf
  | @refused source calls hs ho =>
    cases hsource : heap source with
    | stream stream =>
      rw [hsource] at ho
      cases ho.2
    | factory factory replayable =>
      rw [hsource] at ho
      obtain ⟨r, rfl, hr⟩ := ho
      obtain ⟨rfl, rfl⟩ := Action.factory.inj (List.mem_singleton.mp hf)
      exact absurd rfl (hr s)
    | other object replayable =>
      rw [hsource] at ho
      obtain ⟨r, rfl⟩ := ho
      cases List.mem_singleton.mp hf
  | @opened source stream opening body closing hs ho hb hc =>
    have hbody : .factory f (.ok (some s)) ∉ body := fun hmem => (hb _ hmem).ne_factory f _ rfl
    rw [List.mem_append, List.mem_append, or_iff_left_of_imp fun hmem => absurd hmem hbody] at hf
    cases hsource : heap source with
    | stream stream' =>
      rw [hsource] at ho hc
      obtain ⟨rfl, -⟩ := ho
      obtain rfl : closing = [] := hc
      simp at hf
    | factory factory replayable =>
      rw [hsource] at ho hc
      obtain rfl : opening = [.factory factory (.ok (some stream))] := ho
      obtain ⟨r, rfl⟩ := hc
      have hsame : f = factory ∧ s = stream := by simpa using hf
      obtain ⟨rfl, rfl⟩ := hsame
      exact ⟨body, r, rfl, hb⟩
    | other object replayable =>
      rw [hsource] at ho hc
      obtain ⟨r, rfl⟩ := ho
      obtain ⟨raised, r', rfl⟩ := hc
      simp at hf

/-- A stream of the caller is not closed. -/
theorem Session.not_closes_stream {store : PayloadStore} {parsed : PayloadReference} {calls : List Action}
    (h : Session heap store parsed calls) {source : SourceId} {stream : StreamId} (hs : Selects store parsed source)
    (hsource : heap source = .stream stream) : ∀ a ∈ calls, a.isClose = false := by
  cases h with
  | unopened => simp
  | @refused selected calls hs' ho =>
    obtain rfl : source = selected := Option.some.inj (hs.symm.trans hs')
    rw [hsource] at ho
    cases ho.2
  | @opened selected stream' opening body closing hs' ho hb hc =>
    obtain rfl : source = selected := Option.some.inj (hs.symm.trans hs')
    rw [hsource] at ho hc
    obtain ⟨rfl, -⟩ := ho
    obtain rfl : closing = [] := hc
    intro a ha
    exact (hb a (by simpa using ha)).not_isClose

/-- **A stream that a factory returned is closed exactly once** before `transfer_payload` ends, however it ends,
and is not read after it; a stream of the caller is never closed. -/
theorem transferPayload_closes {reference : PayloadReferenceValue} {fuel : Nat} {chunkSize : Json} {p p' : Process W}
    {result : Py ContentIdentity} (h : transferPayload heap env H fuel reference chunkSize p = some (result, p')) :
    ∃ calls, p'.trace = p.trace ++ calls ∧
      (∀ f s, .factory f (.ok (some s)) ∈ calls → calls.countP Action.isClose = 1 ∧
        ∃ body r, calls = .factory f (.ok (some s)) :: body ++ [.close s r] ∧ ∀ a ∈ body, a.IsTransfer s) ∧
      ∀ parsed source stream, parsePayloadReference reference = .ok parsed → Selects p.store parsed source →
        heap source = .stream stream → ∀ a ∈ calls, a.isClose = false := by
  cases hparsed : parsePayloadReference reference with
  | error e =>
    rw [transferPayload, hparsed] at h
    cases h
    exact ⟨[], by simp, by simp, by simp⟩
  | ok parsed =>
    obtain ⟨calls, ht, hsession⟩ := transferPayload_session hparsed h
    refine ⟨calls, ht, fun f s hf => ?_, fun parsed' source stream hp => ?_⟩
    · obtain ⟨body, r, hcalls, hbody⟩ := hsession.closes_factory hf
      refine ⟨?_, body, r, hcalls, hbody⟩
      have hnone : body.countP Action.isClose = 0 := by
        rw [List.countP_eq_zero]
        intro a ha
        rw [(hbody a ha).not_isClose]
        exact Bool.false_ne_true
      rw [hcalls, List.countP_append, List.countP_cons, hnone]
      rfl
    · obtain rfl := Except.ok.inj hp
      exact hsession.not_closes_stream

/-- A factory that returns a stream on the world's bytes. -/
def factoryEnvironment : Environment Bytes where
  read _ size rest := (.ok (.bytes (rest.take size)), rest.drop size)
  write _ rest := (.ok none, rest)
  cancelled := none
  factory _ rest := (.ok (some 7), rest)
  close _ rest := (.ok (), rest)
  enter _ rest := (.error (.builtin .attributeError "no context manager"), rest)
  exit _ _ rest := (.ok false, rest)

def factorySource : SourceId → PayloadSource := fun _ => .factory 0 true

def factoryPayload : PayloadReference := ⟨exampleToken, none, none, true, ⟨_, rfl⟩⟩

/-- The factory is called, the three bytes of its stream are read in two chunks, and it is closed. -/
theorem transferPayload_closes_factory :
    ∃ identity p', transferPayload factorySource factoryEnvironment exampleHasher 4 (.reference factoryPayload) (.int 2)
        ⟨emptyPayloadStore, [97, 98, 99], []⟩ = some (.ok identity, p') ∧ identity.byteLength = 3 ∧
      p'.trace.countP Action.isClose = 1 ∧ ∃ body r, p'.trace = .factory 0 (.ok (some 7)) :: body ++ [.close 7 r] ∧
        .read 7 2 (.ok (.bytes [97, 98])) ∈ body ∧ ∀ a ∈ body, a.IsTransfer 7 := by
  obtain ⟨identity, p', h, hlength, rest, htrace⟩ : ∃ identity p', transferPayload factorySource factoryEnvironment
      exampleHasher 4 (.reference factoryPayload) (.int 2) ⟨emptyPayloadStore, [97, 98, 99], []⟩ =
        some (.ok identity, p') ∧ identity.byteLength = 3 ∧ ∃ rest, p'.trace =
          .factory 0 (.ok (some 7)) :: .read 7 2 (.ok (.bytes [97, 98])) :: rest := ⟨_, _, rfl, rfl, _, rfl⟩
  obtain ⟨calls, hcalls, hfactory, -⟩ := transferPayload_closes h
  obtain rfl : p'.trace = calls := hcalls
  obtain ⟨hcloses, body, r, hbody, htransfer⟩ := hfactory 0 7 (by rw [htrace]; exact List.mem_cons_self)
  refine ⟨identity, p', h, hlength, hcloses, body, r, hbody, ?_, htransfer⟩
  rw [htrace] at hbody
  have hrest : .read 7 2 (.ok (.bytes [97, 98])) :: rest = body ++ [.close 7 r] := (List.cons.inj hbody).2
  have hread : Action.read 7 2 (.ok (.bytes [97, 98])) ∈ body ++ [.close 7 r] := by
    rw [← hrest]
    exact List.mem_cons_self
  simpa using hread

end ObjectCommon
