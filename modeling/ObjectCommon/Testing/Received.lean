import ObjectCommon.Payloads.Closing
import ObjectCommon.Payloads.Content
import ObjectCommon.Payloads.Frame
import ObjectCommon.Testing.Runner

/-!
# A payload received into a buffer

* `Taken` : what was hashed so far is what the buffer holds;
* `transferPayload_identity` : an identity that is returned is that of the buffer's content, whatever the streams do;
* `transferPayload_ends` : a transfer into a buffer ends, since the buffer cannot grow for ever;
* `BytesStream`, `OpensBytes` : a `BytesIO`, and a source that gives one of a content;
* `transferPayload_received` : the content of a `BytesIO` is received whole;
* `transferPayload_content` : what is received without an exception is the content.
-/

namespace ObjectCommon

open Outcome PyError

variable {W : Type}

variable {heap : SourceId → PayloadSource} {streams : StreamEnvironment W} {limit : Nat} {H : Hasher}
  {parsed : PayloadReference} {stream : StreamId} {size fuel : Nat} {chunk : Bytes} {s s' : Progress H}
  {p p' q : Process (W × Bytes)}

/-! ## What is hashed is what the buffer holds -/

/-- The chunks hashed and counted so far are those that the buffer holds. -/
def Taken (s : Progress H) (buffer : Bytes) : Prop :=
  ∃ chunks : List Bytes, s = ⟨chunks.foldl H.update H.new, chunks.flatten.length⟩ ∧ buffer = chunks.flatten

theorem Taken.new : Taken (⟨H.new, 0⟩ : Progress H) [] := ⟨[], rfl, rfl⟩

theorem Taken.update {buffer : Bytes} (h : Taken s buffer) (chunk : Bytes) :
    Taken ⟨H.update s.hasher chunk, s.length + chunk.length⟩ (buffer ++ chunk) := by
  obtain ⟨chunks, rfl, rfl⟩ := h
  refine ⟨chunks ++ [chunk], ?_, by simp⟩
  rw [List.foldl_append, List.flatten_append, List.length_append]
  simp

/-- A call beside the buffer whose answer is known. -/
theorem beside_call {α : Type} {f : W → α × W} (action : α → Action) {a : α} {w : W} (h : f p.world.1 = (a, w)) :
    ∃ q, p.call (besideBuffer f) action = (a, q) ∧ q.world = (w, p.world.2) ∧ q.store = p.store := by
  unfold Process.call besideBuffer
  rw [h]
  exact ⟨_, rfl, rfl, rfl⟩

/-- Only a write changes the buffer. -/
theorem StreamEnvironment.intoBuffer_keeps (streams : StreamEnvironment W) (limit : Nat) :
    (streams.intoBuffer limit).Keeps Prod.snd where
  read _ _ _ := rfl
  cancelled _ h := nomatch h
  factory _ _ := rfl
  close _ _ := rfl
  enter _ _ := rfl
  exit _ _ _ := rfl

/-- A chunk is written and hashed, or neither. -/
theorem transferChunk_buffer {result : Py Unit}
    (h : transferChunk (streams.intoBuffer limit) H parsed chunk s p = (result, s', p')) :
    (∃ e, result = .error e ∧ s' = s ∧ p'.world = p.world) ∨
      s' = ⟨H.update s.hasher chunk, s.length + chunk.length⟩ ∧ p'.world = (p.world.1, p.world.2 ++ chunk) ∧
        p.world.2.length + chunk.length ≤ limit := by
  obtain ⟨e, hcheck, -, -⟩ | ⟨q, answer, hcheck, hcall, hprogress⟩ := transferChunk_cases h
  · cases (checkCancelled_none rfl p).symm.trans hcheck
  obtain ⟨-, rfl⟩ := Prod.mk.inj ((checkCancelled_none rfl p).symm.trans hcheck)
  have hwrite : writeBuffer limit chunk p.world = (answer, p'.world) := congrArg (fun r => (r.1, r.2.world)) hcall
  unfold writeBuffer at hwrite
  split at hwrite
  · obtain ⟨rfl, hworld⟩ := Prod.mk.inj hwrite
    cases hprogress
    exact Or.inl ⟨_, rfl, rfl, hworld.symm⟩
  · next hfits =>
    obtain ⟨rfl, hworld⟩ := Prod.mk.inj hwrite
    refine Or.inr ⟨?_, hworld.symm, Nat.le_of_not_lt hfits⟩
    unfold progressOf at hprogress
    dsimp only at hprogress
    rw [if_neg (by simp)] at hprogress
    split at hprogress
    · exact (Prod.mk.inj hprogress).2.symm
    · exact (Prod.mk.inj hprogress).2.symm

theorem transferChunk_taken {result : Py Unit}
    (h : transferChunk (streams.intoBuffer limit) H parsed chunk s p = (result, s', p')) (hs : Taken s p.world.2) :
    Taken s' p'.world.2 := by
  obtain ⟨e, -, rfl, hworld⟩ | ⟨rfl, hworld, -⟩ := transferChunk_buffer h
  · rwa [hworld]
  · rw [hworld]
    exact hs.update chunk

/-- A round that goes on fills the buffer further. -/
theorem buffer_fills (hnext : nextChunk (streams.intoBuffer limit) stream size p = (.ok (some chunk), q))
    (hround : transferChunk (streams.intoBuffer limit) H parsed chunk s q = (.ok (), s', p')) :
    p.world.2.length < p'.world.2.length ∧ p'.world.2.length ≤ limit := by
  obtain ⟨e, he, -⟩ | ⟨-, hworld, hfits⟩ := transferChunk_buffer hround
  · cases he
  · have hpos := List.length_pos_iff.mpr (nextChunk_nonempty hnext)
    rw [hworld, ← (streams.intoBuffer_keeps limit).nextChunk hnext, List.length_append]
    exact ⟨by omega, hfits⟩

/-- Whatever ends the loop, what was hashed is what the buffer holds. -/
theorem transferChunks_taken {result : Py Unit}
    (h : transferChunks (streams.intoBuffer limit) H parsed stream size fuel s p = some (result, s', p'))
    (hs : Taken s p.world.2) : Taken s' p'.world.2 := by
  refine transferChunks_induction
    (motive := fun _ s p _ s' p' => Taken s p.world.2 → Taken s' p'.world.2) ?_ ?_ ?_ ?_ h hs
  · intro fuel s p e p' hnext hs
    rwa [(streams.intoBuffer_keeps limit).nextChunk hnext]
  · intro fuel s p p' hnext hs
    rwa [(streams.intoBuffer_keeps limit).nextChunk hnext]
  · intro fuel s p chunk q e s' p' hnext hround hs
    rw [← (streams.intoBuffer_keeps limit).nextChunk hnext] at hs
    exact transferChunk_taken hround hs
  · intro fuel s p chunk q t r result s' p' hnext hround ih hs
    rw [← (streams.intoBuffer_keeps limit).nextChunk hnext] at hs
    exact ih (transferChunk_taken hround hs)

theorem transferStream_taken {chunkSize : Json} {result : Py Unit}
    (h : transferStream (streams.intoBuffer limit) H fuel parsed chunkSize stream s p = some (result, s', p'))
    (hs : Taken s p.world.2) : Taken s' p'.world.2 := by
  unfold transferStream at h
  split at h
  · cases h
    exact hs
  · exact transferChunks_taken h hs

/-- **An identity that is returned is that of the buffer's content**, whatever the source and its stream do. -/
theorem transferPayload_identity (hH : H.Sha256) {reference : PayloadReferenceValue} {chunkSize : Json}
    {i : ContentIdentity} (hempty : p.world.2 = [])
    (h : transferPayload heap (streams.intoBuffer limit) H fuel reference chunkSize p = some (.ok i, p')) :
    i = Hasher.identity hH p'.world.2 := by
  unfold transferPayload at h
  split at h
  · cases h
  next parsed hparsed =>
  obtain ⟨⟨result, s, q⟩, hwith, hresult⟩ := Option.map_eq_some_iff.mp h
  cases result with
  | error e => cases hresult
  | ok u =>
    obtain ⟨hverify, rfl⟩ := Prod.mk.inj hresult
    have htaken : Taken s q.world.2 := by
      obtain ⟨e, -, he, -⟩ | ⟨source, stream, p₁, answer, p₂, closed, henter, hbody, hexit, -⟩ := withPayload_cases hwith
      · cases he
      · rw [(streams.intoBuffer_keeps limit).exitPayload hexit]
        apply transferStream_taken hbody
        rw [(streams.intoBuffer_keeps limit).enterPayload henter, hempty]
        exact Taken.new
    obtain ⟨chunks, rfl, hbuffer⟩ := htaken
    obtain ⟨-, -, hdigest, hlength⟩ := verifyTransfer_eq_ok.mp hverify
    rw [hbuffer]
    obtain ⟨d, n⟩ := i
    obtain rfl : n = chunks.flatten.length := hlength
    have hd : d = (Hasher.identity hH chunks.flatten).digest :=
      Subtype.ext (hdigest.trans (congrArg _ (hH.incremental chunks)))
    rw [hd]
    rfl

/-! ## The transfer ends -/

/-- **A transfer into a buffer ends**: every round fills the buffer further. -/
theorem transferPayload_ends (hfuel : limit < fuel) (reference : PayloadReferenceValue) (chunkSize : Json) :
    ∃ r, transferPayload heap (streams.intoBuffer limit) H fuel reference chunkSize p = some r := by
  unfold transferPayload
  split
  · exact ⟨_, rfl⟩
  next parsed hparsed =>
  suffices hwith : ∃ r, withPayload heap (streams.intoBuffer limit) parsed
      (transferStream (streams.intoBuffer limit) H fuel parsed chunkSize) ⟨H.new, 0⟩ p = some r by
    obtain ⟨r, hr⟩ := hwith
    rw [hr]
    exact ⟨_, rfl⟩
  rcases henter : enterPayload heap (streams.intoBuffer limit) parsed p with ⟨e | ⟨source, stream⟩, q⟩
  · exact ⟨_, withPayload_refused henter⟩
  have hbody : ∃ r, transferStream (streams.intoBuffer limit) H fuel parsed chunkSize stream ⟨H.new, 0⟩ q = some r := by
    unfold transferStream
    split
    · exact ⟨_, rfl⟩
    · obtain ⟨n, rfl⟩ := Nat.exists_eq_succ_of_ne_zero (Nat.ne_zero_of_lt hfuel)
      exact transferChunks_ends (fun _ p => p.world.2.length) limit (fun s p chunk q t r => buffer_fills) (by omega)
  obtain ⟨⟨answer, s, r⟩, hr⟩ := hbody
  rcases hexit : exitPayload heap (streams.intoBuffer limit) source stream (raisedBy answer) r with ⟨closed, p'⟩
  exact ⟨_, withPayload_eq henter hr hexit⟩

/-! ## A content is received whole -/

/-- The stream is a `BytesIO`; `unread` is what it still gives. -/
structure BytesStream (streams : StreamEnvironment W) (stream : StreamId) (unread : W → Bytes) : Prop where
  read : ∀ size w, (streams.read stream size w).1 = .ok (.bytes ((unread w).take size))
  unread_read : ∀ size w, unread (streams.read stream size w).2 = (unread w).drop size
  close : ∀ w, (streams.close stream w).1 = .ok ()

/-- What a `BytesIO` of several still gives after a read. -/
theorem getD_set_drop (contents : List Bytes) (n size : Nat) :
    (contents.set n ((contents.getD n []).drop size)).getD n [] = (contents.getD n []).drop size := by
  rw [List.getD_eq_getElem?_getD, List.getElem?_set_self']
  cases hget : contents[n]? with
  | none =>
    rw [List.getD_eq_getElem?_getD, hget]
    simp
  | some rest =>
    rw [List.getD_eq_getElem?_getD, hget]
    rfl

/-- A read of a `BytesIO` that has something left. -/
theorem nextChunk_some (limit : Nat) {unread : W → Bytes} (hb : BytesStream streams stream unread) (hsize : 0 < size)
    (hne : unread p.world.1 ≠ []) :
    ∃ q, nextChunk (streams.intoBuffer limit) stream size p = (.ok (some ((unread p.world.1).take size)), q) ∧
      unread q.world.1 = (unread p.world.1).drop size ∧ q.world.2 = p.world.2 ∧ q.store = p.store := by
  let call := p.call ((streams.intoBuffer limit).read stream size) (.read stream size)
  have hcall : call = (.ok (.bytes ((unread p.world.1).take size)), call.2) := Prod.ext (hb.read size p.world.1) rfl
  have hpos : 0 < (unread p.world.1).length := List.length_pos_iff.mpr hne
  refine ⟨call.2, ?_, hb.unread_read size p.world.1, rfl, rfl⟩
  rw [nextChunk_eq hcall]
  have htake : (unread p.world.1).take size ≠ [] := by
    apply List.length_pos_iff.mp
    rw [List.length_take]
    omega
  rw [chunkOf_eq_some.mpr ⟨rfl, htake, List.length_take_le _ _⟩]

/-- A `BytesIO` at its end. -/
theorem nextChunk_none (limit size : Nat) {unread : W → Bytes} (hb : BytesStream streams stream unread)
    (hend : unread p.world.1 = []) :
    ∃ q, nextChunk (streams.intoBuffer limit) stream size p = (.ok none, q) ∧ q.world.2 = p.world.2 ∧
      q.store = p.store := by
  let call := p.call ((streams.intoBuffer limit).read stream size) (.read stream size)
  have hread : (streams.read stream size p.world.1).1 = .ok (.bytes []) := by rw [hb.read, hend, List.take_nil]
  have hcall : call = (.ok (.bytes []), call.2) := Prod.ext hread rfl
  exact ⟨call.2, nextChunk_eq hcall, rfl, rfl⟩

/-- A round over a chunk within the declared length, for which the buffer has room. -/
theorem transferChunk_fits (streams : StreamEnvironment W) (limit : Nat) (parsed : PayloadReference) (chunk : Bytes)
    (s : Progress H) (p : Process (W × Bytes)) (hfit : ∀ n ∈ parsed.expectedLength, s.length + chunk.length ≤ n)
    (hroom : p.world.2.length + chunk.length ≤ limit) :
    ∃ r, transferChunk (streams.intoBuffer limit) H parsed chunk s p =
        (.ok (), ⟨H.update s.hasher chunk, s.length + chunk.length⟩, r) ∧
      r.world = (p.world.1, p.world.2 ++ chunk) ∧ r.store = p.store := by
  let call := p.call ((streams.intoBuffer limit).write chunk) (.write chunk)
  have hwrite : writeBuffer limit chunk p.world = (.ok (some (chunk.length : Int)), (p.world.1, p.world.2 ++ chunk)) :=
    if_neg (Nat.not_lt.mpr hroom)
  have hanswer : (writeBuffer limit chunk p.world).1 = .ok (some (chunk.length : Int)) := by rw [hwrite]
  have hworld : (writeBuffer limit chunk p.world).2 = (p.world.1, p.world.2 ++ chunk) := by rw [hwrite]
  have hcall : call = (.ok (some (chunk.length : Int)), call.2) := Prod.ext hanswer rfl
  have hfits : ¬ ∃ n ∈ parsed.expectedLength, n < s.length + chunk.length := by
    rintro ⟨n, hn, hlt⟩
    exact absurd hlt (Nat.not_lt.mpr (hfit n hn))
  refine ⟨call.2, ?_, hworld, rfl⟩
  rw [transferChunk_eq (checkCancelled_none rfl p) hcall]
  unfold progressOf
  dsimp only
  rw [if_neg (by simp), if_neg hfits]

/-- The loop over a `BytesIO` that fits into the declared length and into the buffer. -/
theorem transferChunks_received (limit fuel : Nat) (parsed : PayloadReference) {unread : W → Bytes}
    (hb : BytesStream streams stream unread) (hsize : 0 < size) (hfuel : (unread p.world.1).length < fuel)
    (hfit : ∀ n ∈ parsed.expectedLength, s.length + (unread p.world.1).length ≤ n)
    (hroom : p.world.2.length + (unread p.world.1).length ≤ limit) :
    ∃ s' p', transferChunks (streams.intoBuffer limit) H parsed stream size fuel s p = some (.ok (), s', p') ∧
      p'.world.2 = p.world.2 ++ unread p.world.1 ∧ p'.store = p.store := by
  induction fuel generalizing s p with
  | zero => exact absurd hfuel (Nat.not_lt_zero _)
  | succ fuel ih =>
    by_cases hend : unread p.world.1 = []
    · obtain ⟨q, hnext, hbuffer, hstore⟩ := nextChunk_none limit size hb hend
      refine ⟨s, q, transferChunks_ended hnext fuel, ?_, hstore⟩
      rw [hend, List.append_nil, hbuffer]
    · obtain ⟨q, hnext, hrest, hbuffer, hstore⟩ := nextChunk_some limit hb hsize hend
      have hpos : 0 < (unread p.world.1).length := List.length_pos_iff.mpr hend
      have htake : ((unread p.world.1).take size).length = min size (unread p.world.1).length := List.length_take
      obtain ⟨r, hround, hworld, hstore'⟩ := transferChunk_fits streams limit parsed
        ((unread p.world.1).take size) s q
        (fun n hn => by have hle := hfit n hn; omega) (by rw [hbuffer]; omega)
      have hr : unread r.world.1 = (unread p.world.1).drop size := by rw [hworld, hrest]
      have hrb : r.world.2 = p.world.2 ++ (unread p.world.1).take size := by rw [hworld, hbuffer]
      have hdrop : (unread r.world.1).length = (unread p.world.1).length - size := by rw [hr, List.length_drop]
      obtain ⟨s', p', hloop, hp', hs'⟩ := ih (p := r)
        (s := ⟨H.update s.hasher ((unread p.world.1).take size), s.length + ((unread p.world.1).take size).length⟩)
        (by omega) (fun n hn => by have hle := hfit n hn; dsimp only; omega)
        (by rw [hrb, List.length_append]; omega)
      refine ⟨s', p', (transferChunks_round hnext hround fuel).trans hloop, ?_, (hs'.trans hstore').trans hstore⟩
      rw [hp', hrb, hr, List.append_assoc, List.take_append_drop]

/-- What a round reads of a `BytesIO` is the next of what it gives. -/
theorem nextChunk_content {unread : W → Bytes} (hb : BytesStream streams stream unread) (hsize : 0 < size)
    {next : Option Bytes} (h : nextChunk (streams.intoBuffer limit) stream size p = (.ok next, q)) :
    unread p.world.1 = next.elim [] (· ++ unread q.world.1) ∧ q.world.2 = p.world.2 := by
  by_cases hend : unread p.world.1 = []
  · obtain ⟨q', hnext, hbuffer, -⟩ := nextChunk_none limit size hb hend
    cases hnext.symm.trans h
    exact ⟨hend, hbuffer⟩
  · obtain ⟨q', hnext, hrest, hbuffer, -⟩ := nextChunk_some limit hb hsize hend
    cases hnext.symm.trans h
    refine ⟨?_, hbuffer⟩
    rw [hrest]
    exact (List.take_append_drop _ _).symm

/-- A loop over a `BytesIO` that ends without an exception has put all that it gave into the buffer. -/
theorem transferChunks_content {unread : W → Bytes} (hb : BytesStream streams stream unread) (hsize : 0 < size)
    (h : transferChunks (streams.intoBuffer limit) H parsed stream size fuel s p = some (.ok (), s', p')) :
    p'.world.2 = p.world.2 ++ unread p.world.1 := by
  suffices hmotive : ∀ result, transferChunks (streams.intoBuffer limit) H parsed stream size fuel s p =
      some (result, s', p') → result = .ok () → p'.world.2 = p.world.2 ++ unread p.world.1 from hmotive _ h rfl
  intro result h
  refine transferChunks_induction (motive := fun _ _ p result _ p' => result = .ok () →
    p'.world.2 = p.world.2 ++ unread p.world.1) ?_ ?_ ?_ ?_ h
  · intro fuel s p e p' hnext he
    cases he
  · intro fuel s p p' hnext _
    obtain ⟨hrest, hbuffer⟩ := nextChunk_content hb hsize hnext
    rw [hrest, hbuffer]
    exact (List.append_nil _).symm
  · intro fuel s p chunk q e s' p' hnext hround he
    cases he
  · intro fuel s p chunk q t r result s' p' hnext hround ih hresult
    obtain ⟨hrest, hbuffer⟩ := nextChunk_content hb hsize hnext
    obtain ⟨e, he, -⟩ | ⟨-, hworld, -⟩ := transferChunk_buffer hround
    · cases he
    · rw [ih hresult, hworld, hbuffer, hrest]
      exact List.append_assoc _ _ _

/-- What the check after the loop makes of a content of the declared length. -/
theorem verifyTransfer_received (hH : H.Sha256) {chunks : List Bytes}
    (hfit : ∀ n ∈ parsed.expectedLength, n = chunks.flatten.length) :
    verifyTransfer H parsed ⟨chunks.foldl H.update H.new, chunks.flatten.length⟩ =
      if ∃ d ∈ parsed.expectedDigest, d ≠ (Hasher.identity hH chunks.flatten).digest then .error DigestMismatch
      else .ok (Hasher.identity hH chunks.flatten) := by
  have hlength : ¬ ∃ n ∈ parsed.expectedLength, chunks.flatten.length ≠ n := by
    rintro ⟨n, hn, hne⟩
    exact hne (hfit n hn).symm
  have hobserved : str "sha256:" ++ H.hexdigest (chunks.foldl H.update H.new) =
      (Hasher.identity hH chunks.flatten).digest.val := congrArg _ (hH.incremental chunks)
  unfold verifyTransfer
  by_cases hdigest : ∃ d ∈ parsed.expectedDigest, d ≠ (Hasher.identity hH chunks.flatten).digest
  · have hdigest' : ∃ d ∈ parsed.expectedDigest, str "sha256:" ++ H.hexdigest (chunks.foldl H.update H.new) ≠ d.val := by
      obtain ⟨d, hd, hne⟩ := hdigest
      exact ⟨d, hd, fun he => hne (Subtype.ext (he.symm.trans hobserved))⟩
    rw [if_pos hdigest]
    simp only [raiseIf, if_neg hlength, if_pos hdigest']
    rfl
  · have hdigest' : ¬ ∃ d ∈ parsed.expectedDigest,
        str "sha256:" ++ H.hexdigest (chunks.foldl H.update H.new) ≠ d.val := by
      rintro ⟨d, hd, hne⟩
      exact hdigest ⟨d, hd, fun he => hne (by rw [hobserved, he])⟩
    rw [if_neg hdigest]
    simp only [raiseIf, if_neg hlength, if_neg hdigest']
    show ContentIdentity.new _ _ = _
    rw [Hasher.new_eq_identity hH chunks]

/-- A replayable source that is registered is opened, and stays registered. -/
theorem openSections_replayable {store : PayloadStore} {source : SourceId} {factory : FactoryId}
    (hsource : heap source = .factory factory true) (hreplay : parsed.replayable = true)
    (h : Dict.get? store.sources parsed.token.val = some source) :
    openSections heap store parsed = (.ok source, { store with opened := source :: store.opened }) := by
  have hopen : openSection heap store parsed = (.ok source, store) := by
    unfold openSection
    rw [h]
    dsimp only
    rw [hsource, if_neg (by simp [PayloadSource.replayable, hreplay]), if_neg (by simp [PayloadSource.replayable])]
  unfold openSections
  rw [hopen]
  dsimp only
  unfold sourceSection
  rw [hsource]
  dsimp only
  rw [if_neg (by simp)]

/-- A section that opens a registered source opens this one. -/
theorem openSections_selects {store store' : PayloadStore} {source selected : SourceId}
    (hsource : Dict.get? store.sources parsed.token.val = some source)
    (h : openSections heap store parsed = (.ok selected, store')) : selected = source := by
  obtain ⟨taken, hopen, -⟩ := openSections_eq_ok h
  exact Option.some.inj ((openSection_selects hopen).symm.trans hsource)

/-- Opened in `w`, a source gives a `BytesIO` of the content and leaves `w'`. -/
inductive OpensBytes (streams : StreamEnvironment W) (content : Bytes) : PayloadSource → W → StreamId → W → Prop
  | stream {stream : StreamId} {w : W} {unread : W → Bytes} (hb : BytesStream streams stream unread)
      (hcontent : unread w = content) : OpensBytes streams content (.stream stream) w stream w
  | factory {factory : FactoryId} {replayable : Bool} {stream : StreamId} {w w' : W} {unread : W → Bytes}
      (hfactory : streams.factory factory w = (.ok (some stream), w')) (hb : BytesStream streams stream unread)
      (hcontent : unread w' = content) : OpensBytes streams content (.factory factory replayable) w stream w'

namespace OpensBytes

variable {content : Bytes} {source : SourceId} {w w' : W}

theorem bytesStream {opened : PayloadSource} (h : OpensBytes streams content opened w stream w') :
    ∃ unread, BytesStream streams stream unread ∧ unread w' = content := by
  cases h with
  | stream hb hcontent => exact ⟨_, hb, hcontent⟩
  | factory _ hb hcontent => exact ⟨_, hb, hcontent⟩

theorem enterSource (h : OpensBytes streams content (heap source) p.world.1 stream w) (limit : Nat) :
    ∃ q, ObjectCommon.enterSource heap (streams.intoBuffer limit) source p = (.ok (source, stream), q) ∧
      q.world = (w, p.world.2) ∧ q.store = p.store := by
  unfold ObjectCommon.enterSource
  generalize heap source = opened at h ⊢
  cases h with
  | stream => exact ⟨p, rfl, rfl, rfl⟩
  | @factory factory _ _ _ _ _ hfactory _ _ =>
    obtain ⟨q, hcall, hworld, hstore⟩ := beside_call (p := p) (.factory factory) hfactory
    refine ⟨q, ?_, hworld, hstore⟩
    unfold StreamEnvironment.intoBuffer
    dsimp only
    rw [hcall]

/-- The context of such a source swallows no exception. -/
theorem exitPayload (h : OpensBytes streams content (heap source) w stream w') (limit : Nat) (raised : Option PyError)
    (p : Process (W × Bytes)) :
    ∃ p', ObjectCommon.exitPayload heap (streams.intoBuffer limit) source stream raised p = (.ok false, p') ∧
      p'.world.2 = p.world.2 ∧ p'.store = p.store := by
  obtain ⟨unread, hb, -⟩ := h.bytesStream
  unfold ObjectCommon.exitPayload
  generalize heap source = opened at h ⊢
  cases h with
  | stream => exact ⟨p, rfl, rfl, rfl⟩
  | factory =>
    obtain ⟨v, hclose⟩ : ∃ v, streams.close stream p.world.1 = (.ok (), v) := ⟨_, Prod.ext (hb.close p.world.1) rfl⟩
    obtain ⟨p', hcall, hworld, hstore⟩ := beside_call (.close stream) hclose
    refine ⟨p', ?_, by rw [hworld], hstore⟩
    unfold StreamEnvironment.intoBuffer
    dsimp only
    rw [hcall]

end OpensBytes

/-- **The content of a `BytesIO` is received whole**: the transfer returns its identity, or raises `DigestMismatch`
when another digest was declared. -/
theorem transferPayload_received (hH : H.Sha256) {reference : PayloadReferenceValue} {store : PayloadStore}
    {source : SourceId} {w : W} {content : Bytes} (hparse : parsePayloadReference reference = .ok parsed)
    (hopen : openSections heap p.store parsed = (.ok source, store))
    (hbytes : OpensBytes streams content (heap source) p.world.1 stream w) (hempty : p.world.2 = []) (hpos : 0 < size)
    (hmax : size ≤ maxChunkSize) (hlimit : content.length ≤ limit) (hfuel : content.length < fuel)
    (hfit : ∀ n ∈ parsed.expectedLength, n = content.length) :
    ∃ p', transferPayload heap (streams.intoBuffer limit) H fuel reference (.int size) p =
        some (if ∃ d ∈ parsed.expectedDigest, d ≠ (Hasher.identity hH content).digest then .error DigestMismatch
          else .ok (Hasher.identity hH content), p') ∧
      p'.world.2 = content ∧ p'.store = store := by
  obtain ⟨unread, hb, hcontent⟩ := hbytes.bytesStream
  obtain ⟨q, hsource, hworld, hkept⟩ := OpensBytes.enterSource (p := { p with store := store }) hbytes limit
  have hunread : unread q.world.1 = content := by rw [hworld, hcontent]
  have hbuffer : q.world.2 = [] := by rw [hworld, hempty]
  have henter : enterPayload heap (streams.intoBuffer limit) parsed p = (.ok (source, stream), q) :=
    (enterPayload_ok hopen).trans hsource
  obtain ⟨s', r, hloop, hr, hstore⟩ := transferChunks_received (H := H) (s := ⟨H.new, 0⟩) (p := q) limit fuel
    parsed hb hpos (by rwa [hunread])
    (fun n hn => by rw [hunread, hfit n hn]; simp) (by rw [hunread, hbuffer]; simpa using hlimit)
  rw [hunread, hbuffer, List.nil_append] at hr
  have hsize : chunkSizeOf (.int size) = .ok size := chunkSizeOf_eq_ok.mpr ⟨rfl, hpos, hmax⟩
  have hbody : transferStream (streams.intoBuffer limit) H fuel parsed (.int size) stream ⟨H.new, 0⟩ q =
      some (.ok (), s', r) := by
    unfold transferStream
    rw [hsize]
    exact hloop
  obtain ⟨p', hexit, hworld', hkept'⟩ := hbytes.exitPayload limit (raisedBy (.ok ())) r
  refine ⟨p', ?_, by rw [hworld', hr], by rw [hkept', hstore, hkept]⟩
  obtain ⟨chunks, rfl, hchunks⟩ := transferChunks_taken hloop (by rw [hbuffer]; exact Taken.new)
  obtain rfl : content = chunks.flatten := hr.symm.trans hchunks
  unfold transferPayload
  rw [hparse]
  dsimp only
  rw [withPayload_eq henter hbody hexit]
  exact congrArg (fun answer => some (answer, p')) (verifyTransfer_received hH hfit)

/-- **What is received without an exception is the content**, whatever was declared and however little room there was. -/
theorem transferPayload_content {reference : PayloadReferenceValue} {source : SourceId} {w : W} {content : Bytes}
    {chunkSize : Json} {i : ContentIdentity} (hparse : parsePayloadReference reference = .ok parsed)
    (hsource : Dict.get? p.store.sources parsed.token.val = some source)
    (hbytes : OpensBytes streams content (heap source) p.world.1 stream w) (hempty : p.world.2 = [])
    (h : transferPayload heap (streams.intoBuffer limit) H fuel reference chunkSize p = some (.ok i, p')) :
    p'.world.2 = content := by
  unfold transferPayload at h
  rw [hparse] at h
  obtain ⟨⟨result, s, r⟩, hwith, hresult⟩ := Option.map_eq_some_iff.mp h
  cases result with
  | error e => cases hresult
  | ok u =>
    obtain ⟨-, rfl⟩ := Prod.mk.inj hresult
    obtain ⟨e, -, he, -⟩ | ⟨selected, opened, q, answer, q', closed, henter, hbody, hexit, hanswer⟩ :=
      withPayload_cases hwith
    · cases he
    obtain ⟨e, store, -, he, -⟩ | ⟨selected', store, hopen, hentered⟩ := enterPayload_cases henter
    · cases he
    obtain rfl := openSections_selects hsource hopen
    obtain ⟨q₁, hsource', hworld, -⟩ := OpensBytes.enterSource (p := { p with store := store }) hbytes limit
    cases hsource'.symm.trans hentered
    obtain ⟨r', hexit', hworld', -⟩ := hbytes.exitPayload limit (raisedBy answer) q'
    cases hexit'.symm.trans hexit
    obtain rfl : answer = .ok () := hanswer
    obtain ⟨unread, hb, hcontent⟩ := hbytes.bytesStream
    unfold transferStream at hbody
    split at hbody
    · cases hbody
    · next size hsize =>
      have hloop := transferChunks_content hb (chunkSizeOf_eq_ok.mp hsize).2.1 hbody
      rw [hworld', hloop, hworld]
      dsimp only
      rw [hempty, hcontent]
      exact List.nil_append _

end ObjectCommon
