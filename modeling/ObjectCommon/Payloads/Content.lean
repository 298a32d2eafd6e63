import ObjectCommon.Payloads.Ledger

/-!
# The outcome of a transfer depends only on the content

* `Delivers` : a stream that gives a content in fragments, a sink that takes each chunk, and a callback
  that never cancels;
* `CleanTransfer` : a transfer from such a stream, at some chunk size;
* `transferOutcome` : what the declared inputs and the content make of it;
* `transferPayload_outcome` : that is the outcome, whatever the chunk size and the fragments.
-/

namespace ObjectCommon

open Outcome PyError

variable {W : Type} {heap : SourceId → PayloadSource} {env : Environment W} {H : Hasher}

/-- The code of a Meridian error. -/
def PyError.code? : PyError → Option ObjectErrorCode
  | .builtin _ _ => none
  | .meridian code _ _ => some code

/-- What is declared against what the content is: the length first, then the digest. -/
def transferOutcome (hH : H.Sha256) (parsed : PayloadReference) (content : Bytes) :
    Except (Option ObjectErrorCode) ContentIdentity :=
  if ∃ n ∈ parsed.expectedLength, n ≠ content.length then .error (some .incompleteUpload)
  else if ∃ d ∈ parsed.expectedDigest, d ≠ (Hasher.identity hH content).digest then .error (some .digestMismatch)
  else .ok (Hasher.identity hH content)

/-! ## Uneventful streams and sinks -/

/-- The stream gives the fragments that `rest` tells and then `b""`, the sink takes every chunk whole, and
the callback never cancels. -/
structure Delivers (env : Environment W) (stream : StreamId) (size : Nat) (rest : W → List Bytes) : Prop where
  read : ∀ w, (env.read stream size w).1 = .ok (.bytes ((rest w).headD []))
  rest_read : ∀ w, rest (env.read stream size w).2 = (rest w).tail
  write : ∀ chunk w, (env.write chunk w).1 = .ok none ∨ (env.write chunk w).1 = .ok (some (chunk.length : Int))
  rest_write : ∀ chunk w, rest (env.write chunk w).2 = rest w
  cancelled : ∀ cancelled ∈ env.cancelled, ∀ w, (cancelled w).1 = .ok false
  rest_cancelled : ∀ cancelled ∈ env.cancelled, ∀ w, rest (cancelled w).2 = rest w

/-- The source's context exits normally, whatever is raised in it. -/
structure ClosesQuietly (env : Environment W) (stream : StreamId) : Prop where
  close : ∀ w, (env.close stream w).1 = .ok ()
  exit : ∀ object raised w, ∃ swallowed, (env.exit object raised w).1 = .ok swallowed

/-- A transfer of `content` under the reference `parsed`: the registry opens its stream, which gives the
content in fragments that are not empty and fit into a chunk. -/
structure CleanTransfer (parsed : PayloadReference) (content : Bytes) where
  World : Type
  heap : SourceId → PayloadSource
  env : Environment World
  reference : PayloadReferenceValue
  size : Nat
  fuel : Nat
  start : Process World
  source : SourceId
  stream : StreamId
  opened : Process World
  rest : World → List Bytes
  parse : parsePayloadReference reference = .ok parsed
  pos : 0 < size
  bounded : size ≤ maxChunkSize
  enter : enterPayload heap env parsed start = (.ok (source, stream), opened)
  delivers : Delivers env stream size rest
  fragments : ∀ fragment ∈ rest opened.world, fragment ≠ [] ∧ fragment.length ≤ size
  content : (rest opened.world).flatten = content
  enough : (rest opened.world).length < fuel
  closes : ClosesQuietly env stream

def CleanTransfer.run {parsed : PayloadReference} {content : Bytes} (t : CleanTransfer parsed content) (H : Hasher) :
    Option (Py ContentIdentity × Process t.World) :=
  transferPayload t.heap t.env H t.fuel t.reference (.int t.size) t.start

/-! ## One round -/

/-- The calls made on the way from `p` to `p'` hand `chunks` over. -/
def Hands (p p' : Process W) (chunks : List Bytes) : Prop :=
  ∃ calls, p'.trace = p.trace ++ calls ∧ handed calls = chunks

theorem Hands.trans {p p' p'' : Process W} {chunks chunks' : List Bytes} (h : Hands p p' chunks)
    (h' : Hands p' p'' chunks') : Hands p p'' (chunks ++ chunks') := by
  obtain ⟨calls, ht, hc⟩ := h
  obtain ⟨calls', ht', hc'⟩ := h'
  refine ⟨calls ++ calls', ?_, ?_⟩
  · rw [ht', ht, List.append_assoc]
  · rw [handed_append, hc, hc']

theorem OnlyContext.hands {p p' : Process W} {calls : List Action} (h : OnlyContext p p' calls) : Hands p p' [] :=
  ⟨calls, h.1, handed_context h.2⟩

theorem Hands.call {α : Type} (p : Process W) (f : W → α × W) (action : α → Action) :
    Hands p (p.call f action).2 (handed [action (f p.world).1]) :=
  ⟨_, rfl, rfl⟩

namespace Delivers

variable {stream : StreamId} {size : Nat} {rest : W → List Bytes} {p : Process W}

/-- The stream is at its end. -/
theorem nextChunk_end (hd : Delivers env stream size rest) (hrest : rest p.world = []) :
    ∃ p', nextChunk env stream size p = (.ok none, p') ∧ Hands p p' [] := by
  have hread : (env.read stream size p.world).1 = .ok (.bytes []) := by rw [hd.read, hrest, List.headD_nil]
  have hhands := Hands.call p (env.read stream size) (.read stream size)
  exact ⟨_, nextChunk_eq (Prod.ext hread rfl), hhands⟩

/-- The stream gives its next fragment. -/
theorem nextChunk_fragment (hd : Delivers env stream size rest) {fragment : Bytes} {fragments : List Bytes}
    (hrest : rest p.world = fragment :: fragments) (hne : fragment ≠ []) (hle : fragment.length ≤ size) :
    ∃ p', nextChunk env stream size p = (.ok (some fragment), p') ∧ rest p'.world = fragments ∧ Hands p p' [] := by
  have hread : (env.read stream size p.world).1 = .ok (.bytes fragment) := by rw [hd.read, hrest, List.headD_cons]
  have hhands := Hands.call p (env.read stream size) (.read stream size)
  refine ⟨_, ?_, ?_, hhands⟩
  · rw [nextChunk_eq (Prod.ext hread rfl), chunkOf_eq_some.mpr ⟨rfl, hne, hle⟩]
  · exact (hd.rest_read p.world).trans (by rw [hrest, List.tail_cons])

/-- The callback, if there is one, lets the transfer go on. -/
theorem checkCancelled (hd : Delivers env stream size rest) :
    ∃ p', checkCancelled env p = (.ok (), p') ∧ rest p'.world = rest p.world ∧ Hands p p' [] := by
  cases hc : env.cancelled with
  | none => exact ⟨p, checkCancelled_none hc p, rfl, [], by simp, rfl⟩
  | some cancelled =>
    have hhands := Hands.call p cancelled .cancelled
    have hpoll : p.call cancelled .cancelled = (.ok false, (p.call cancelled .cancelled).2) :=
      Prod.ext (hd.cancelled cancelled hc p.world) rfl
    exact ⟨_, checkCancelled_some hc hpoll, hd.rest_cancelled cancelled hc p.world, hhands⟩

/-- The sink takes a chunk, and the running count is compared with the declared length. -/
theorem transferChunk (hd : Delivers env stream size rest) (parsed : PayloadReference) (chunk : Bytes)
    (s : Progress H) :
    ∃ p', transferChunk env H parsed chunk s p =
        (if ∃ n ∈ parsed.expectedLength, n < s.length + chunk.length then .error exceededLength else .ok (),
          ⟨H.update s.hasher chunk, s.length + chunk.length⟩, p') ∧
      rest p'.world = rest p.world ∧ Hands p p' [chunk] := by
  obtain ⟨q, hcheck, hq, hhands⟩ := hd.checkCancelled (p := p)
  have hwrite := Hands.call q (env.write chunk) (.write chunk)
  refine ⟨(q.call (env.write chunk) (.write chunk)).2, ?_, (hd.rest_write chunk q.world).trans hq, hhands.trans hwrite⟩
  have hwhole : ∃ count, (env.write chunk q.world).1 = .ok count ∧
      ¬ (count ≠ none ∧ count ≠ some (chunk.length : Int)) := by
    rcases hd.write chunk q.world with h | h
    · exact ⟨none, h, fun hn => hn.1 rfl⟩
    · exact ⟨some chunk.length, h, fun hn => hn.2 rfl⟩
  obtain ⟨count, hwritten, hcount⟩ := hwhole
  rw [transferChunk_eq hcheck (Prod.ext hwritten rfl)]
  unfold progressOf
  dsimp only
  rw [if_neg hcount]
  split <;> rfl

/-- A round over a fragment within the declared length. -/
theorem transferChunks_fragment (hd : Delivers env stream size rest) {parsed : PayloadReference} {fragment : Bytes}
    {fragments : List Bytes} {s : Progress H} (hrest : rest p.world = fragment :: fragments)
    (hfragment : fragment ≠ [] ∧ fragment.length ≤ size)
    (hfit : ∀ n ∈ parsed.expectedLength, s.length + fragment.length ≤ n) (fuel : Nat) :
    ∃ r, transferChunks env H parsed stream size (fuel + 1) s p =
        transferChunks env H parsed stream size fuel ⟨H.update s.hasher fragment, s.length + fragment.length⟩ r ∧
      rest r.world = fragments ∧ Hands p r [fragment] := by
  obtain ⟨q, hnext, hq, hread⟩ := hd.nextChunk_fragment hrest hfragment.1 hfragment.2
  obtain ⟨r, hround, hr, hwrite⟩ := hd.transferChunk parsed fragment s (p := q)
  have hfits : ¬ ∃ n ∈ parsed.expectedLength, n < s.length + fragment.length := by
    rintro ⟨n, hn, hlt⟩
    exact absurd hlt (Nat.not_lt.mpr (hfit n hn))
  rw [if_neg hfits] at hround
  exact ⟨r, transferChunks_round hnext hround fuel, hr.trans hq, hread.trans hwrite⟩

/-- A content within the declared length is read and handed over to its end. -/
theorem transferChunks_within (hd : Delivers env stream size rest) {parsed : PayloadReference} {fuel : Nat}
    {fragments : List Bytes} {s : Progress H} (hrest : rest p.world = fragments)
    (hfragments : ∀ fragment ∈ fragments, fragment ≠ [] ∧ fragment.length ≤ size) (hfuel : fragments.length < fuel)
    (hfit : ∀ n ∈ parsed.expectedLength, s.length + fragments.flatten.length ≤ n) :
    ∃ p', transferChunks env H parsed stream size fuel s p =
        some (.ok (), ⟨fragments.foldl H.update s.hasher, s.length + fragments.flatten.length⟩, p') ∧
      Hands p p' fragments := by
  induction fragments generalizing fuel s p with
  | nil =>
    obtain ⟨fuel, rfl⟩ := Nat.exists_eq_succ_of_ne_zero (Nat.ne_of_gt hfuel)
    obtain ⟨p', hnext, hhands⟩ := hd.nextChunk_end hrest
    refine ⟨p', ?_, hhands⟩
    rw [transferChunks_ended hnext]
    rfl
  | cons fragment fragments ih =>
    obtain ⟨fuel, rfl⟩ := Nat.exists_eq_succ_of_ne_zero (Nat.ne_of_gt (Nat.zero_lt_of_lt hfuel))
    have hfit' : ∀ n ∈ parsed.expectedLength, s.length + fragment.length + fragments.flatten.length ≤ n := by
      intro n hn
      have hle := hfit n hn
      rw [List.flatten_cons, List.length_append] at hle
      omega
    obtain ⟨r, hround, hr, hhands⟩ := hd.transferChunks_fragment hrest (hfragments fragment List.mem_cons_self)
      (fun n hn => (Nat.le_add_right _ _).trans (hfit' n hn)) fuel
    obtain ⟨p', hloop, hhands'⟩ := ih (s := ⟨H.update s.hasher fragment, s.length + fragment.length⟩) hr
      (fun f hf => hfragments f (List.mem_cons_of_mem _ hf)) (Nat.lt_of_succ_lt_succ hfuel) hfit'
    refine ⟨p', ?_, hhands.trans hhands'⟩
    rw [hround, hloop, List.flatten_cons, List.length_append, Nat.add_assoc]
    rfl

/-- A content that exceeds the declared length is stopped at the first chunk that does. -/
theorem transferChunks_exceeded (hd : Delivers env stream size rest) {parsed : PayloadReference} {n fuel : Nat}
    {fragments : List Bytes} {s : Progress H} (hrest : rest p.world = fragments)
    (hfragments : ∀ fragment ∈ fragments, fragment ≠ [] ∧ fragment.length ≤ size) (hfuel : fragments.length < fuel)
    (hn : parsed.expectedLength = some n) (hs : s.length ≤ n) (hexceeds : n < s.length + fragments.flatten.length) :
    ∃ s' p' chunks, transferChunks env H parsed stream size fuel s p = some (.error exceededLength, s', p') ∧
      n < s'.length ∧ Hands p p' chunks := by
  induction fragments generalizing fuel s p with
  | nil =>
    rw [List.flatten_nil, List.length_nil] at hexceeds
    omega
  | cons fragment fragments ih =>
    obtain ⟨fuel, rfl⟩ := Nat.exists_eq_succ_of_ne_zero (Nat.ne_of_gt (Nat.zero_lt_of_lt hfuel))
    have hfragment := hfragments fragment List.mem_cons_self
    by_cases hlt : n < s.length + fragment.length
    · obtain ⟨q, hnext, -, hread⟩ := hd.nextChunk_fragment hrest hfragment.1 hfragment.2
      obtain ⟨r, hround, -, hwrite⟩ := hd.transferChunk parsed fragment s (p := q)
      rw [if_pos ⟨n, hn, hlt⟩] at hround
      exact ⟨⟨H.update s.hasher fragment, s.length + fragment.length⟩, r, _, transferChunks_failed hnext hround fuel, hlt,
        hread.trans hwrite⟩
    · have hfit : ∀ m ∈ parsed.expectedLength, s.length + fragment.length ≤ m := by
        intro m hm
        obtain rfl : n = m := Option.some.inj (hn.symm.trans hm)
        exact Nat.le_of_not_lt hlt
      obtain ⟨r, hround, hr, hhands⟩ := hd.transferChunks_fragment hrest hfragment hfit fuel
      rw [List.flatten_cons, List.length_append, ← Nat.add_assoc] at hexceeds
      obtain ⟨s', p', chunks, hloop, hlonger, hhands'⟩ :=
        ih (s := ⟨H.update s.hasher fragment, s.length + fragment.length⟩) hr
          (fun f hf => hfragments f (List.mem_cons_of_mem _ hf)) (Nat.lt_of_succ_lt_succ hfuel)
          (Nat.le_of_not_lt hlt) hexceeds
      exact ⟨s', p', _, hround.trans hloop, hlonger, hhands.trans hhands'⟩

end Delivers

/-! ## The whole transfer -/

/-- Exiting the context of a payload whose source closes normally. -/
theorem ClosesQuietly.exitPayload {stream : StreamId} (hc : ClosesQuietly env stream)
    (heap : SourceId → PayloadSource) (source : SourceId) (raised : Option PyError) (p : Process W) :
    ∃ swallowed p', ObjectCommon.exitPayload heap env source stream raised p = (.ok swallowed, p') ∧ Hands p p' [] := by
  cases hexit : ObjectCommon.exitPayload heap env source stream raised p with
  | mk result p' =>
    obtain ⟨calls, hcontext, -⟩ := exitPayload_calls hexit
    suffices hok : ∃ swallowed, result = .ok swallowed by
      obtain ⟨swallowed, rfl⟩ := hok
      exact ⟨swallowed, p', rfl, hcontext.hands⟩
    unfold ObjectCommon.exitPayload at hexit
    split at hexit
    · cases hexit
      exact ⟨false, rfl⟩
    · cases hcall : p.call (env.close stream) (.close stream) with
      | mk answer q =>
        have hanswer : answer = .ok () := (congrArg Prod.fst hcall).symm.trans (hc.close p.world)
        rw [hcall, hanswer] at hexit
        cases hexit
        exact ⟨false, rfl⟩
    · next object _ _ =>
      obtain ⟨swallowed, hs⟩ := hc.exit object raised p.world
      exact ⟨swallowed, (congrArg Prod.fst hexit).symm.trans hs⟩

/-- What the checks after the loop make of a content that was read to its end. -/
theorem verifyTransfer_content (hH : H.Sha256) (parsed : PayloadReference) (fragments : List Bytes) :
    (verifyTransfer H parsed ⟨fragments.foldl H.update H.new, fragments.flatten.length⟩).mapError PyError.code? =
      transferOutcome hH parsed fragments.flatten := by
  have hnew := Hasher.new_eq_identity hH fragments
  unfold verifyTransfer transferOutcome
  by_cases hlength : ∃ n ∈ parsed.expectedLength, fragments.flatten.length ≠ n
  · have hlength' : ∃ n ∈ parsed.expectedLength, n ≠ fragments.flatten.length := by
      obtain ⟨n, hn, hne⟩ := hlength
      exact ⟨n, hn, Ne.symm hne⟩
    rw [if_pos hlength']
    simp only [raiseIf, if_pos hlength]
    rfl
  · have hlength' : ¬ ∃ n ∈ parsed.expectedLength, n ≠ fragments.flatten.length := by
      rintro ⟨n, hn, hne⟩
      exact hlength ⟨n, hn, Ne.symm hne⟩
    rw [if_neg hlength']
    have hobserved : str "sha256:" ++ H.hexdigest (fragments.foldl H.update H.new) =
        (Hasher.identity hH fragments.flatten).digest.val := congrArg _ (hH.incremental fragments)
    by_cases hdigest : ∃ d ∈ parsed.expectedDigest, d ≠ (Hasher.identity hH fragments.flatten).digest
    · have hdigest' : ∃ d ∈ parsed.expectedDigest,
          str "sha256:" ++ H.hexdigest (fragments.foldl H.update H.new) ≠ d.val := by
        obtain ⟨d, hd, hne⟩ := hdigest
        exact ⟨d, hd, fun he => hne (Subtype.ext (he.symm.trans hobserved))⟩
      rw [if_pos hdigest]
      simp only [raiseIf, if_neg hlength, if_pos hdigest']
      rfl
    · have hdigest' : ¬ ∃ d ∈ parsed.expectedDigest,
          str "sha256:" ++ H.hexdigest (fragments.foldl H.update H.new) ≠ d.val := by
        rintro ⟨d, hd, hne⟩
        exact hdigest ⟨d, hd, fun he => hne (hobserved.trans (congrArg Subtype.val he).symm)⟩
      rw [if_neg hdigest]
      simp only [raiseIf, if_neg hlength, if_neg hdigest']
      exact congrArg _ hnew

namespace CleanTransfer

variable {parsed : PayloadReference} {content : Bytes} (t : CleanTransfer parsed content)

/-- The body of the `with`, at a valid chunk size. -/
theorem transferStream_eq (H : Hasher) (s : Progress H) :
    transferStream t.env H t.fuel parsed (.int t.size) t.stream s t.opened =
      transferChunks t.env H parsed t.stream t.size t.fuel s t.opened := by
  have hsize : chunkSizeOf (.int t.size) = .ok t.size := chunkSizeOf_eq_ok.mpr ⟨rfl, t.pos, t.bounded⟩
  unfold transferStream
  rw [hsize]

/-- A content within the declared length is handed over whole, and then checked. -/
theorem run_within (H : Hasher) (hfit : ∀ n ∈ parsed.expectedLength, content.length ≤ n) :
    ∃ p', t.run H = some (verifyTransfer H parsed
        ⟨(t.rest t.opened.world).foldl H.update H.new, (t.rest t.opened.world).flatten.length⟩, p') ∧
      Hands t.start p' (t.rest t.opened.world) := by
  have hlength : ∀ n ∈ parsed.expectedLength, 0 + (t.rest t.opened.world).flatten.length ≤ n := by
    rw [t.content, Nat.zero_add]
    exact hfit
  obtain ⟨q, hloop, hhands⟩ := t.delivers.transferChunks_within (H := H) (s := ⟨H.new, 0⟩) rfl t.fragments t.enough
    hlength
  obtain ⟨calls, henter⟩ := enterPayload_calls t.enter
  obtain ⟨swallowed, p', hexit, hclose⟩ := t.closes.exitPayload t.heap t.source none q
  refine ⟨p', ?_, ?_⟩
  · rw [run, transferPayload, t.parse]
    dsimp only
    rw [withPayload, t.enter]
    dsimp only
    rw [t.transferStream_eq, hloop]
    simp only [Option.map_some, hexit, Nat.zero_add]
  · have hall := (henter.hands.trans hhands).trans hclose
    simpa using hall

/-- A content that exceeds the declared length is not received. -/
theorem run_exceeded (H : Hasher) {n : Nat} (hn : parsed.expectedLength = some n) (hlt : n < content.length) :
    ∃ m p' chunks, t.run H = some (.error (IncompleteUpload m), p') ∧ Hands t.start p' chunks := by
  have hlength : n < 0 + (t.rest t.opened.world).flatten.length := by rwa [t.content, Nat.zero_add]
  obtain ⟨s', q, chunks, hloop, hlonger, hhands⟩ := t.delivers.transferChunks_exceeded (H := H) (s := ⟨H.new, 0⟩)
    rfl t.fragments t.enough hn (Nat.zero_le n) hlength
  obtain ⟨calls, henter⟩ := enterPayload_calls t.enter
  obtain ⟨swallowed, p', hexit, hclose⟩ := t.closes.exitPayload t.heap t.source (some exceededLength) q
  have hall := (henter.hands.trans hhands).trans hclose
  have hwith : withPayload t.heap t.env parsed (transferStream t.env H t.fuel parsed (.int t.size)) ⟨H.new, 0⟩ t.start =
      some (if swallowed then .ok () else .error exceededLength, s', p') := by
    rw [withPayload, t.enter]
    dsimp only
    rw [t.transferStream_eq, hloop]
    cases swallowed with
    | true => simp only [Option.map_some, hexit, if_true]
    | false => simp only [Option.map_some, hexit, Bool.false_eq_true, if_false]
  have hrun : t.run H = some (if swallowed then verifyTransfer H parsed s' else .error exceededLength, p') := by
    rw [run, transferPayload, t.parse]
    dsimp only
    rw [hwith]
    cases swallowed <;> rfl
  cases swallowed with
  | false => exact ⟨_, p', _, hrun, hall⟩
  | true =>
    have hverify : verifyTransfer H parsed s' = .error IncompleteUpload := by
      have hne : ∃ n ∈ parsed.expectedLength, s'.length ≠ n := ⟨n, hn, Nat.ne_of_gt hlonger⟩
      simp only [verifyTransfer, raiseIf, if_pos hne]
      rfl
    refine ⟨"the upload ended before its declared length", p', _, ?_, hall⟩
    rw [hrun, if_pos rfl, hverify]

/-- **The outcome of a transfer**: what the content makes of the declared inputs, and with an identity
the whole content handed over. -/
theorem run_outcome (hH : H.Sha256) :
    ∃ result p' calls, t.run H = some (result, p') ∧ p'.trace = t.start.trace ++ calls ∧
      result.mapError PyError.code? = transferOutcome hH parsed content ∧
      ∀ i, result = .ok i → (handed calls).flatten = content := by
  by_cases hlt : ∃ n ∈ parsed.expectedLength, n < content.length
  · obtain ⟨n, hn, hlt⟩ := hlt
    obtain ⟨m, p', chunks, hrun, calls, ht, -⟩ := t.run_exceeded H hn hlt
    refine ⟨_, p', calls, hrun, ht, ?_, fun i hi => by cases hi⟩
    unfold transferOutcome
    rw [if_pos ⟨n, hn, Nat.ne_of_lt hlt⟩]
    rfl
  · have hfit : ∀ n ∈ parsed.expectedLength, content.length ≤ n :=
      fun n hn => Nat.le_of_not_lt fun h => hlt ⟨n, hn, h⟩
    obtain ⟨p', hrun, calls, ht, hhanded⟩ := t.run_within H hfit
    refine ⟨_, p', calls, hrun, ht, ?_, fun i _ => ?_⟩
    · rw [verifyTransfer_content hH, t.content]
    · rw [hhanded, t.content]

end CleanTransfer

/-- **The outcome of a transfer depends only on the content**: not on the chunk size, the fragments that
the stream gives it in, the registry or the sink; and an identity is the one that an accumulator computes
from any split of the content. -/
theorem transferPayload_outcome (hH : H.Sha256) {parsed : PayloadReference} {content : Bytes}
    (t : CleanTransfer parsed content) :
    (∃ result p' calls, t.run H = some (result, p') ∧ p'.trace = t.start.trace ++ calls ∧
      result.mapError PyError.code? = transferOutcome hH parsed content ∧
      ∀ i, result = .ok i → (handed calls).flatten = content) ∧
    (∀ t' : CleanTransfer parsed content, (t'.run H).map (·.1.mapError PyError.code?) =
      (t.run H).map (·.1.mapError PyError.code?)) ∧
    ∀ split : List Bytes, split.flatten = content → ∀ i, transferOutcome hH parsed content = .ok i →
      ∃ a, split.foldlM Sha256Accumulator.update (Sha256Accumulator.new : Sha256Accumulator H) = .ok a ∧
        (a.finish).1 = .ok i := by
  have houtcome : ∀ t : CleanTransfer parsed content,
      (t.run H).map (·.1.mapError PyError.code?) = some (transferOutcome hH parsed content) := by
    intro t
    obtain ⟨result, p', calls, hrun, -, hresult, -⟩ := t.run_outcome hH
    rw [hrun, Option.map_some, hresult]
  refine ⟨t.run_outcome hH, fun t' => (houtcome t').trans (houtcome t).symm, ?_⟩
  rintro split rfl i hi
  obtain ⟨a, hupdates, hfinish⟩ := Sha256Accumulator.finish_updates hH split
  refine ⟨a, hupdates, ?_⟩
  have hidentity : Hasher.identity hH split.flatten = i := by
    unfold transferOutcome at hi
    split at hi
    · cases hi
    · split at hi
      · cases hi
      · exact Except.ok.inj hi
  rw [hfinish, hidentity]

/-- A stream whose state is the fragments still to come, and a sink that reports the length of each chunk. -/
def fragmentEnvironment : Environment (List Bytes) where
  read _ _ w := (.ok (.bytes (w.headD [])), w.tail)
  write chunk w := (.ok (some (chunk.length : Int)), w)
  cancelled := some fun w => (.ok false, w)
  factory _ w := (.ok none, w)
  close _ w := (.ok (), w)
  enter _ w := (.ok 0, w)
  exit _ _ w := (.ok false, w)

/-- A handle of `abc`, with its length and its digest declared. -/
def abcPayload : PayloadReference :=
  ⟨exampleToken, some 3, some ⟨_, digestRe_exampleDigest [97, 98, 99]⟩, false, ⟨_, rfl⟩⟩

/-- `abc` in two fragments. -/
def abcTransfer : CleanTransfer abcPayload [97, 98, 99] where
  World := List Bytes
  heap := fun _ => .stream 0
  env := fragmentEnvironment
  reference := .reference abcPayload
  size := 2
  fuel := 3
  start := ⟨{ sources := [(str "p_a", 0)] }, [[97], [98, 99]], []⟩
  source := 0
  stream := 0
  opened := ⟨{ opened := [0] }, [[97], [98, 99]], []⟩
  rest := id
  parse := rfl
  pos := by decide
  bounded := by decide
  enter := rfl
  delivers := {
    read := fun _ => rfl
    rest_read := fun _ => rfl
    write := fun _ _ => Or.inr rfl
    rest_write := fun _ _ => rfl
    cancelled := by
      rintro _ ⟨⟩ w
      rfl
    rest_cancelled := by
      rintro _ ⟨⟩ w
      rfl }
  fragments := by simp
  content := rfl
  enough := by decide
  closes := ⟨fun _ => rfl, fun _ _ _ => ⟨false, rfl⟩⟩

theorem transferPayload_outcome_abc :
    ∃ result p' calls, abcTransfer.run exampleHasher = some (result, p') ∧ p'.trace = [] ++ calls ∧
      result.mapError PyError.code? = .ok (Hasher.identity exampleHasher_sha256 [97, 98, 99]) ∧
      ∀ i, result = .ok i → (handed calls).flatten = [97, 98, 99] :=
  (transferPayload_outcome exampleHasher_sha256 abcTransfer).1

end ObjectCommon
