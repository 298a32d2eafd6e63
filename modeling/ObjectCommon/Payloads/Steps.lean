import ObjectCommon.Payloads.Transfer

/-!
# The steps of a transfer

What each part of `transfer_payload` can do, said once: the calls it makes, and what it makes of the
answers.

* `chunkOf`, `nextChunk_cases` : a read of the stream;
* `pollOf`, `checkCancelled_cases` : a call of the cancellation callback;
* `progressOf`, `transferChunk_cases` : a round of the loop;
* `transferChunks_induction`, `transferChunks_ends` : the induction over the rounds, and when they end;
* `openSections`, `enterSource`, `enterPayload_cases` : the way into a payload's context;
* `exitOf`, `withPayload_cases` : a `with` block.
-/

namespace ObjectCommon

open Outcome PyError

variable {W : Type} {heap : SourceId → PayloadSource} {env : Environment W} {H : Hasher} {p p' q r : Process W}
  {stream : StreamId} {size : Nat} {parsed : PayloadReference} {chunk : Bytes} {s s' t : Progress H}

/-! ## Calls -/

theorem trace_call {α : Type} {f : W → α × W} {action : α → Action} {a : α}
    (h : p.call f action = (a, p')) : p'.trace = p.trace ++ [action a] := by
  cases h
  rfl

theorem store_call {α : Type} {f : W → α × W} {action : α → Action} {a : α} (h : p.call f action = (a, p')) :
    p'.store = p.store := by
  cases h
  rfl

/-! ## Reads -/

/-- What `iter_payload_chunks` makes of the answer of `stream.read`. -/
def chunkOf (size : Nat) : Py Chunk → Py (Option Bytes)
  | .error e => .error e
  | .ok (.other true) => .ok none
  | .ok (.other false) => .error (typeError "binary payload streams must return bytes-like chunks")
  | .ok (.bytes raw) =>
    if raw = [] then .ok none
    else if size < raw.length then
      .error (ObjectInvalidRequest "payload stream returned more bytes than requested")
    else .ok (some raw)

theorem nextChunk_eq {answer : Py Chunk} (h : p.call (env.read stream size) (.read stream size) = (answer, p')) :
    nextChunk env stream size p = (chunkOf size answer, p') := by
  unfold nextChunk chunkOf
  rw [h]
  rcases answer with e | (raw | _ | _)
  · rfl
  · dsimp only
    split
    · rfl
    · split <;> rfl
  · rfl
  · rfl

theorem nextChunk_cases {result : Py (Option Bytes)} (h : nextChunk env stream size p = (result, p')) :
    ∃ answer, p.call (env.read stream size) (.read stream size) = (answer, p') ∧ chunkOf size answer = result := by
  cases hcall : p.call (env.read stream size) (.read stream size) with
  | mk answer q =>
    obtain ⟨hresult, rfl⟩ := Prod.mk.inj ((nextChunk_eq hcall).symm.trans h)
    exact ⟨answer, rfl, hresult⟩

theorem chunkOf_eq_some {answer : Py Chunk} {raw : Bytes} :
    chunkOf size answer = .ok (some raw) ↔ answer = .ok (.bytes raw) ∧ raw ≠ [] ∧ raw.length ≤ size := by
  constructor
  · intro h
    unfold chunkOf at h
    split at h
    · cases h
    · cases h
    · cases h
    · split at h
      · cases h
      · next hne =>
        split at h
        · cases h
        · next hle =>
          cases h
          exact ⟨rfl, hne, Nat.le_of_not_lt hle⟩
  · rintro ⟨rfl, hne, hle⟩
    unfold chunkOf
    dsimp only
    rw [if_neg hne, if_neg (Nat.not_lt.mpr hle)]

theorem nextChunk_nonempty (h : nextChunk env stream size p = (.ok (some chunk), p')) : chunk ≠ [] := by
  obtain ⟨answer, -, hchunk⟩ := nextChunk_cases h
  exact (chunkOf_eq_some.mp hchunk).2.1

/-! ## Rounds -/

/-- What a round makes of the answer of the cancellation callback. -/
def pollOf : Py Bool → Py Unit
  | .error e => .error e
  | .ok true => .error TransferCancelled
  | .ok false => .ok ()

theorem checkCancelled_none (hc : env.cancelled = none) (p : Process W) : checkCancelled env p = (.ok (), p) := by
  unfold checkCancelled
  rw [hc]

theorem checkCancelled_some {cancelled : W → Py Bool × W} (hc : env.cancelled = some cancelled) {answer : Py Bool}
    (h : p.call cancelled .cancelled = (answer, p')) : checkCancelled env p = (pollOf answer, p') := by
  unfold checkCancelled
  rw [hc]
  dsimp only
  rw [h]
  rcases answer with e | (_ | _) <;> rfl

theorem checkCancelled_cases {result : Py Unit} (h : checkCancelled env p = (result, p')) :
    (env.cancelled = none ∧ result = .ok () ∧ p' = p) ∨
      ∃ cancelled answer, env.cancelled = some cancelled ∧ p.call cancelled .cancelled = (answer, p') ∧
        pollOf answer = result := by
  cases hc : env.cancelled with
  | none =>
    obtain ⟨rfl, rfl⟩ := Prod.mk.inj ((checkCancelled_none hc p).symm.trans h)
    exact Or.inl ⟨rfl, rfl, rfl⟩
  | some cancelled =>
    cases hcall : p.call cancelled .cancelled with
    | mk answer q =>
      obtain ⟨hresult, rfl⟩ := Prod.mk.inj ((checkCancelled_some hc hcall).symm.trans h)
      exact Or.inr ⟨cancelled, answer, rfl, hcall, hresult⟩

/-- What a round makes of the answer of `sink.write`. -/
def progressOf (H : Hasher) (parsed : PayloadReference) (chunk : Bytes) (s : Progress H) :
    Py (Option Int) → Py Unit × Progress H
  | .error e => (.error e, s)
  | .ok written =>
    if written ≠ none ∧ written ≠ some (chunk.length : Int) then
      (.error (IncompleteUpload "the payload sink accepted only part of a chunk"), s)
    else if ∃ n ∈ parsed.expectedLength, n < s.length + chunk.length then
      (.error (IncompleteUpload "the upload exceeded its declared length"),
        ⟨H.update s.hasher chunk, s.length + chunk.length⟩)
    else (.ok (), ⟨H.update s.hasher chunk, s.length + chunk.length⟩)

theorem transferChunk_stopped {e : PyError} (h : checkCancelled env p = (.error e, p')) :
    transferChunk env H parsed chunk s p = (.error e, s, p') := by
  unfold transferChunk
  rw [h]

theorem transferChunk_eq {answer : Py (Option Int)} (h : checkCancelled env p = (.ok (), q))
    (hw : q.call (env.write chunk) (.write chunk) = (answer, p')) :
    transferChunk env H parsed chunk s p =
      ((progressOf H parsed chunk s answer).1, (progressOf H parsed chunk s answer).2, p') := by
  unfold transferChunk progressOf
  rw [h]
  dsimp only
  rw [hw]
  cases answer with
  | error e => rfl
  | ok written =>
    dsimp only
    split
    · rfl
    · split <;> rfl

theorem transferChunk_cases {result : Py Unit} (h : transferChunk env H parsed chunk s p = (result, s', p')) :
    (∃ e, checkCancelled env p = (.error e, p') ∧ result = .error e ∧ s' = s) ∨
      ∃ q answer, checkCancelled env p = (.ok (), q) ∧ q.call (env.write chunk) (.write chunk) = (answer, p') ∧
        progressOf H parsed chunk s answer = (result, s') := by
  cases hcheck : checkCancelled env p with
  | mk polled q =>
    cases polled with
    | error e =>
      cases (transferChunk_stopped hcheck).symm.trans h
      exact Or.inl ⟨e, rfl, rfl, rfl⟩
    | ok u =>
      cases hcall : q.call (env.write chunk) (.write chunk) with
      | mk answer r =>
        cases (transferChunk_eq hcheck hcall).symm.trans h
        exact Or.inr ⟨q, answer, rfl, hcall, rfl⟩

/-- A chunk that is taken counts whole, within the declared length. -/
theorem progressOf_eq_ok {answer : Py (Option Int)} (h : progressOf H parsed chunk s answer = (.ok (), s')) :
    (∃ written, answer = .ok written ∧ (written = none ∨ written = some (chunk.length : Int))) ∧
      s' = ⟨H.update s.hasher chunk, s.length + chunk.length⟩ ∧
      ∀ n ∈ parsed.expectedLength, s.length + chunk.length ≤ n := by
  unfold progressOf at h
  split at h
  · cases h
  · next written =>
    split at h
    · cases h
    · next hwhole =>
      split at h
      · cases h
      · next hfit =>
        cases h
        refine ⟨⟨written, rfl, ?_⟩, rfl, fun n hn => Nat.le_of_not_lt fun hlt => hfit ⟨n, hn, hlt⟩⟩
        by_cases hn : written = none
        · exact Or.inl hn
        · exact Or.inr (not_not.mp fun hne => hwhole ⟨hn, hne⟩)

theorem length_transferChunk (h : transferChunk env H parsed chunk s p = (.ok (), s', p')) :
    s'.length = s.length + chunk.length ∧ ∀ l ∈ parsed.expectedLength, s'.length ≤ l := by
  rcases transferChunk_cases h with ⟨e, -, he, -⟩ | ⟨q, answer, -, -, hprogress⟩
  · cases he
  · obtain ⟨-, rfl, hfit⟩ := progressOf_eq_ok hprogress
    exact ⟨rfl, hfit⟩

/-! ## The loop -/

theorem transferChunks_stopped {e : PyError} (h : nextChunk env stream size p = (.error e, p')) (fuel : Nat) :
    transferChunks env H parsed stream size (fuel + 1) s p = some (.error e, s, p') := by
  unfold transferChunks
  rw [h]

theorem transferChunks_ended (h : nextChunk env stream size p = (.ok none, p')) (fuel : Nat) :
    transferChunks env H parsed stream size (fuel + 1) s p = some (.ok (), s, p') := by
  unfold transferChunks
  rw [h]

theorem transferChunks_failed {e : PyError} (h : nextChunk env stream size p = (.ok (some chunk), q))
    (ht : transferChunk env H parsed chunk s q = (.error e, s', p')) (fuel : Nat) :
    transferChunks env H parsed stream size (fuel + 1) s p = some (.error e, s', p') := by
  unfold transferChunks
  rw [h]
  dsimp only
  rw [ht]

theorem transferChunks_round (h : nextChunk env stream size p = (.ok (some chunk), q))
    (ht : transferChunk env H parsed chunk s q = (.ok (), t, r)) (fuel : Nat) :
    transferChunks env H parsed stream size (fuel + 1) s p = transferChunks env H parsed stream size fuel t r := by
  rw [transferChunks, h]
  dsimp only
  rw [ht]

/-- What holds of a loop that a read or a round ends, and of one more round before a loop, holds of the loop. -/
theorem transferChunks_induction
    {motive : Nat → Progress H → Process W → Py Unit → Progress H → Process W → Prop}
    (stopped : ∀ fuel s p e p', nextChunk env stream size p = (.error e, p') → motive (fuel + 1) s p (.error e) s p')
    (ended : ∀ fuel s p p', nextChunk env stream size p = (.ok none, p') → motive (fuel + 1) s p (.ok ()) s p')
    (failed : ∀ fuel s p chunk q e s' p', nextChunk env stream size p = (.ok (some chunk), q) →
      transferChunk env H parsed chunk s q = (.error e, s', p') → motive (fuel + 1) s p (.error e) s' p')
    (round : ∀ fuel s p chunk q t r result s' p', nextChunk env stream size p = (.ok (some chunk), q) →
      transferChunk env H parsed chunk s q = (.ok (), t, r) → motive fuel t r result s' p' →
        motive (fuel + 1) s p result s' p')
    {fuel : Nat} {result : Py Unit}
    (h : transferChunks env H parsed stream size fuel s p = some (result, s', p')) : motive fuel s p result s' p' := by
  induction fuel generalizing s p with
  | zero => cases h
  | succ fuel ih =>
    cases hnext : nextChunk env stream size p with
    | mk next q =>
      rcases next with e | (_ | chunk)
      · cases (transferChunks_stopped hnext fuel).symm.trans h
        exact stopped fuel _ _ _ _ hnext
      · cases (transferChunks_ended hnext fuel).symm.trans h
        exact ended fuel _ _ _ hnext
      · rcases hround : transferChunk env H parsed chunk s q with ⟨answer, t, r⟩
        cases answer with
        | error e =>
          cases (transferChunks_failed hnext hround fuel).symm.trans h
          exact failed fuel _ _ _ _ _ _ _ hnext hround
        | ok u =>
          rw [transferChunks_round hnext hround] at h
          exact round fuel _ _ _ _ _ _ _ _ _ hnext hround (ih h)

/-- **The loop ends** when every round adds to a measure with a bound. -/
theorem transferChunks_ends (measure : Progress H → Process W → Nat) (bound : Nat)
    (hround : ∀ s p chunk q t r, nextChunk env stream size p = (.ok (some chunk), q) →
      transferChunk env H parsed chunk s q = (.ok (), t, r) → measure s p < measure t r ∧ measure t r ≤ bound)
    {fuel : Nat} (hfuel : bound ≤ measure s p + fuel) :
    ∃ result, transferChunks env H parsed stream size (fuel + 1) s p = some result := by
  induction fuel generalizing s p with
  | zero =>
    cases hnext : nextChunk env stream size p with
    | mk next q =>
      rcases next with e | (_ | chunk)
      · exact ⟨_, transferChunks_stopped hnext 0⟩
      · exact ⟨_, transferChunks_ended hnext 0⟩
      · rcases hchunk : transferChunk env H parsed chunk s q with ⟨answer, t, r⟩
        cases answer with
        | error e => exact ⟨_, transferChunks_failed hnext hchunk 0⟩
        | ok u =>
          -- the bound is reached, and the round would pass it
          have hgrows := hround s p chunk q t r hnext hchunk
          omega
  | succ fuel ih =>
    cases hnext : nextChunk env stream size p with
    | mk next q =>
      rcases next with e | (_ | chunk)
      · exact ⟨_, transferChunks_stopped hnext _⟩
      · exact ⟨_, transferChunks_ended hnext _⟩
      · rcases hchunk : transferChunk env H parsed chunk s q with ⟨answer, t, r⟩
        cases answer with
        | error e => exact ⟨_, transferChunks_failed hnext hchunk _⟩
        | ok u =>
          have hgrows := hround s p chunk q t r hnext hchunk
          rw [transferChunks_round hnext hchunk]
          exact ih (by omega)

/-! ## Contexts -/

/-- The two locked sections of `registry.open(parsed)`. -/
def openSections (heap : SourceId → PayloadSource) (store : PayloadStore) (parsed : PayloadReference) :
    Py SourceId × PayloadStore :=
  match openSection heap store parsed with
  | (.error e, store) => (.error e, store)
  | (.ok source, store) =>
    match sourceSection heap store source with
    | (.error e, store) => (.error e, store)
    | (.ok (), store) => (.ok source, store)

theorem openSections_eq_ok {store store' : PayloadStore} {source : SourceId}
    (h : openSections heap store parsed = (.ok source, store')) :
    ∃ taken, openSection heap store parsed = (.ok source, taken) ∧ sourceSection heap taken source = (.ok (), store') := by
  unfold openSections at h
  split at h
  · cases h
  · next selected taken hopen =>
    split at h
    · cases h
    · next hsection =>
      cases h
      exact ⟨taken, hopen, hsection⟩

/-- What the two sections let in: the calls that open the source. -/
def enterSource (heap : SourceId → PayloadSource) (env : Environment W) (source : SourceId) (p : Process W) :
    Py (SourceId × StreamId) × Process W :=
  match heap source with
  | .stream stream => (.ok (source, stream), p)
  | .factory factory _ =>
    match p.call (env.factory factory) (.factory factory) with
    | (.error e, p) => (.error e, p)
    | (.ok none, p) => (.error (typeError "payload factory must return a binary stream"), p)
    | (.ok (some stream), p) => (.ok (source, stream), p)
  | .other object _ =>
    match p.call (env.enter object) (.enter object) with
    | (.error e, p) => (.error e, p)
    | (.ok stream, p) => (.ok (source, stream), p)

theorem enterPayload_eq (heap : SourceId → PayloadSource) (env : Environment W) (parsed : PayloadReference)
    (p : Process W) :
    enterPayload heap env parsed p = match openSections heap p.store parsed with
      | (.error e, store) => (.error e, { p with store := store })
      | (.ok source, store) => enterSource heap env source { p with store := store } := by
  unfold enterPayload openSections
  rcases openSection heap p.store parsed with ⟨e | source, store⟩
  · rfl
  · dsimp only
    rcases sourceSection heap store source with ⟨e | u, store'⟩
    · rfl
    · rfl

theorem enterPayload_ok {store : PayloadStore} {source : SourceId}
    (h : openSections heap p.store parsed = (.ok source, store)) :
    enterPayload heap env parsed p = enterSource heap env source { p with store := store } := by
  rw [enterPayload_eq, h]

theorem enterPayload_cases {result : Py (SourceId × StreamId)} (h : enterPayload heap env parsed p = (result, p')) :
    (∃ e store, openSections heap p.store parsed = (.error e, store) ∧ result = .error e ∧
      p' = { p with store := store }) ∨
      ∃ source store, openSections heap p.store parsed = (.ok source, store) ∧
        enterSource heap env source { p with store := store } = (result, p') := by
  rw [enterPayload_eq] at h
  rcases hsections : openSections heap p.store parsed with ⟨e | source, store⟩
  · rw [hsections] at h
    cases h
    exact Or.inl ⟨e, store, rfl, rfl, rfl⟩
  · rw [hsections] at h
    exact Or.inr ⟨source, store, rfl, h⟩

/-- The exception that the body of a `with` exits with. -/
def raisedBy : Py Unit → Option PyError
  | .error e => some e
  | .ok () => none

/-- What a `with` makes of its body's answer and of the exit of its context. -/
def exitOf (answer : Py Unit) : Py Bool → Py Unit
  | .error e => .error e
  | .ok true => .ok ()
  | .ok false => answer

section WithBlock

variable {σ : Type} {body : StreamId → σ → Process W → Option (Py Unit × σ × Process W)} {l l' : σ}

theorem withPayload_refused {e : PyError} (h : enterPayload heap env parsed p = (.error e, p')) :
    withPayload heap env parsed body l p = some (.error e, l, p') := by
  unfold withPayload
  rw [h]

theorem withPayload_none {source : SourceId} (henter : enterPayload heap env parsed p = (.ok (source, stream), q))
    (hbody : body stream l q = none) : withPayload heap env parsed body l p = none := by
  unfold withPayload
  rw [henter]
  dsimp only
  rw [hbody]
  rfl

theorem withPayload_eq {source : SourceId} {answer : Py Unit} {closed : Py Bool}
    (henter : enterPayload heap env parsed p = (.ok (source, stream), q))
    (hbody : body stream l q = some (answer, l', r))
    (hexit : exitPayload heap env source stream (raisedBy answer) r = (closed, p')) :
    withPayload heap env parsed body l p = some (exitOf answer closed, l', p') := by
  unfold withPayload
  rw [henter]
  dsimp only
  rw [hbody, Option.map_some]
  cases answer with
  | error e =>
    dsimp only [raisedBy] at hexit ⊢
    rw [hexit]
    rcases closed with e' | (_ | _) <;> rfl
  | ok u =>
    dsimp only [raisedBy] at hexit ⊢
    rw [hexit]
    rcases closed with e' | (_ | _) <;> rfl

theorem withPayload_cases {result : Py Unit} (h : withPayload heap env parsed body l p = some (result, l', p')) :
    (∃ e, enterPayload heap env parsed p = (.error e, p') ∧ result = .error e ∧ l' = l) ∨
      ∃ source stream q answer r closed, enterPayload heap env parsed p = (.ok (source, stream), q) ∧
        body stream l q = some (answer, l', r) ∧
        exitPayload heap env source stream (raisedBy answer) r = (closed, p') ∧ exitOf answer closed = result := by
  rcases henter : enterPayload heap env parsed p with ⟨e | ⟨source, stream⟩, q⟩
  · cases (withPayload_refused henter).symm.trans h
    exact Or.inl ⟨e, rfl, rfl, rfl⟩
  · rcases hbody : body stream l q with _ | ⟨answer, l₁, r⟩
    · cases (withPayload_none henter hbody).symm.trans h
    · rcases hexit : exitPayload heap env source stream (raisedBy answer) r with ⟨closed, p₁⟩
      cases (withPayload_eq henter hbody hexit).symm.trans h
      exact Or.inr ⟨source, stream, q, answer, r, closed, rfl, hbody, hexit, rfl⟩

end WithBlock

end ObjectCommon
