import Mathlib.Data.List.Infix
import ObjectCommon.Codec.Digest
import ObjectCommon.Library.Runs
import ObjectCommon.Payloads.Steps

/-!
# What a transfer reads and hands over

* `Ledger` : where a transfer stands, and the bytes handed to the sink so far;
* `LedgerStep` : what each call of the caller's objects makes of it;
* `LedgerInvariant` : what the calls so far and the ledger have in common;
* `transferPayload_follows` : the calls of `transfer_payload` are a run of the ledger;
* `HostileBounds`, `transferPayload_bounded` : a declared length bounds the transfer, whatever the
  stream and the sink do.
-/

namespace ObjectCommon

open Outcome PyError Runs

/-! ## Calls -/

/-- The bytes that a call of `read` returned. -/
def Action.taken? : Action → Option Bytes
  | .read _ _ (.ok (.bytes raw)) => some raw
  | _ => none

/-- The chunk that a call of `write` is given. -/
def Action.handed? : Action → Option Bytes
  | .write chunk _ => some chunk
  | _ => none

def Action.isRead : Action → Bool
  | .read _ _ _ => true
  | _ => false

/-- A `write` that reports another count than the length of its chunk. -/
def Action.IsShort : Action → Prop
  | .write chunk (.ok (some n)) => n ≠ chunk.length
  | _ => False

/-- A call on the source or on its context. -/
def Action.IsContext : Action → Prop
  | .factory _ _ => True
  | .close _ _ => True
  | .enter _ _ => True
  | .exit _ _ _ => True
  | _ => False

/-- The bytes read from the stream, call by call. -/
def taken (calls : List Action) : List Bytes := calls.filterMap Action.taken?

/-- The chunks handed to the sink. -/
def handed (calls : List Action) : List Bytes := calls.filterMap Action.handed?

@[simp] theorem taken_nil : taken [] = [] := rfl

@[simp] theorem handed_nil : handed [] = [] := rfl

@[simp] theorem taken_append (a b : List Action) : taken (a ++ b) = taken a ++ taken b :=
  List.filterMap_append ..

@[simp] theorem handed_append (a b : List Action) : handed (a ++ b) = handed a ++ handed b :=
  List.filterMap_append ..

theorem taken_cons (a : Action) (calls : List Action) : taken (a :: calls) = a.taken?.toList ++ taken calls := by
  unfold taken
  cases h : a.taken? <;> simp [h]

theorem handed_cons (a : Action) (calls : List Action) :
    handed (a :: calls) = a.handed?.toList ++ handed calls := by
  unfold handed
  cases h : a.handed? <;> simp [h]

/-- A call on the source or its context reads nothing and hands nothing over. -/
theorem Action.IsContext.quiet {a : Action} (h : a.IsContext) :
    a.taken? = none ∧ a.handed? = none ∧ a.isRead = false ∧ ¬ a.IsShort := by
  cases a with
  | factory _ _ => exact ⟨rfl, rfl, rfl, id⟩
  | close _ _ => exact ⟨rfl, rfl, rfl, id⟩
  | enter _ _ => exact ⟨rfl, rfl, rfl, id⟩
  | exit _ _ _ => exact ⟨rfl, rfl, rfl, id⟩
  | read _ _ _ => exact h.elim
  | write _ _ => exact h.elim
  | cancelled _ => exact h.elim

theorem handed_context {calls : List Action} (h : ∀ a ∈ calls, a.IsContext) : handed calls = [] := by
  unfold handed
  rw [List.filterMap_eq_nil_iff]
  exact fun a ha => (h a ha).quiet.2.1

/-! ## The ledger -/

inductive Phase where
  | ready
  | holding (chunk : Bytes)
  | polled (chunk : Bytes)
  | ended
  | failed (e : PyError)

/-- Where a transfer stands, and how many bytes it handed over. -/
structure Ledger where
  phase : Phase := .ready
  length : Nat := 0

/-- `IncompleteUpload("the payload sink accepted only part of a chunk")` -/
def partialWrite : PyError := IncompleteUpload "the payload sink accepted only part of a chunk"

/-- `IncompleteUpload("the upload exceeded its declared length")` -/
def exceededLength : PyError := IncompleteUpload "the upload exceeded its declared length"

/-- What a call makes of the ledger. A chunk is read, the callback is asked, and the chunk is handed
over; whatever else happens ends the transfer. -/
inductive LedgerStep (size : Nat) (limit : Option Nat) : Ledger → Action → Ledger → Prop
  | read {n : Nat} {stream : StreamId} {raw : Bytes} (nonempty : raw ≠ []) (bounded : raw.length ≤ size) :
      LedgerStep size limit ⟨.ready, n⟩ (.read stream size (.ok (.bytes raw))) ⟨.holding raw, n⟩
  | ended {n : Nat} {stream : StreamId} {result : Py Chunk}
      (last : result = .ok (.bytes []) ∨ result = .ok (.other true)) :
      LedgerStep size limit ⟨.ready, n⟩ (.read stream size result) ⟨.ended, n⟩
  | unread {n : Nat} {stream : StreamId} {result : Py Chunk} {e : PyError} :
      LedgerStep size limit ⟨.ready, n⟩ (.read stream size result) ⟨.failed e, n⟩
  | polled {n : Nat} {raw : Bytes} :
      LedgerStep size limit ⟨.holding raw, n⟩ (.cancelled (.ok false)) ⟨.polled raw, n⟩
  | stopped {n : Nat} {raw : Bytes} {result : Py Bool} {e : PyError} (stop : result ≠ .ok false) :
      LedgerStep size limit ⟨.holding raw, n⟩ (.cancelled result) ⟨.failed e, n⟩
  | accepted {n : Nat} {phase : Phase} {raw : Bytes} {count : Option Int}
      (held : phase = .holding raw ∨ phase = .polled raw) (whole : count = none ∨ count = some (raw.length : Int))
      (within : ∀ l ∈ limit, n + raw.length ≤ l) :
      LedgerStep size limit ⟨phase, n⟩ (.write raw (.ok count)) ⟨.ready, n + raw.length⟩
  | short {n : Nat} {phase : Phase} {raw : Bytes} {count : Int}
      (held : phase = .holding raw ∨ phase = .polled raw) (part : count ≠ raw.length) :
      LedgerStep size limit ⟨phase, n⟩ (.write raw (.ok (some count))) ⟨.failed partialWrite, n + raw.length⟩
  | unwritten {n : Nat} {phase : Phase} {raw : Bytes} {e : PyError}
      (held : phase = .holding raw ∨ phase = .polled raw) :
      LedgerStep size limit ⟨phase, n⟩ (.write raw (.error e)) ⟨.failed e, n + raw.length⟩
  | exceeded {n : Nat} {phase : Phase} {raw : Bytes} {count : Option Int}
      (held : phase = .holding raw ∨ phase = .polled raw) (whole : count = none ∨ count = some (raw.length : Int)) :
      LedgerStep size limit ⟨phase, n⟩ (.write raw (.ok count)) ⟨.failed exceededLength, n + raw.length⟩
  | context {s : Ledger} {a : Action} (h : a.IsContext) : LedgerStep size limit s a s

variable {size : Nat} {limit : Option Nat}

/-- What the calls read and handed over, by the phase they lead to. -/
def Phase.Balances (calls : List Action) : Phase → Prop
  | .ready => taken calls = handed calls
  | .holding raw => taken calls = handed calls ++ [raw]
  | .polled raw => taken calls = handed calls ++ [raw]
  | .ended => handed calls <+: taken calls
  | .failed _ => handed calls <+: taken calls

/-- The number of reads, by the phase they lead to: one for each chunk, and at most one more. -/
def Phase.Reads (limit : Option Nat) (calls : List Action) : Phase → Prop
  | .ready => calls.countP Action.isRead = (handed calls).length
  | .holding _ => calls.countP Action.isRead = (handed calls).length + 1
  | .polled _ => calls.countP Action.isRead = (handed calls).length + 1
  | .ended => ∀ l ∈ limit, calls.countP Action.isRead ≤ l + 1
  | .failed _ => ∀ l ∈ limit, calls.countP Action.isRead ≤ l + 1

/-- How many bytes may have been handed over in a phase: only a transfer that fails passes the limit. -/
def Phase.allowance (size limit : Nat) : Phase → Nat
  | .failed _ => limit + size
  | _ => limit

/-- The chunk in hand is one of `iter_payload_chunks`. -/
def Phase.Holds (size : Nat) : Phase → Prop
  | .holding raw => raw ≠ [] ∧ raw.length ≤ size
  | .polled raw => raw ≠ [] ∧ raw.length ≤ size
  | _ => True

/-- What the calls so far and the ledger have in common. -/
structure LedgerInvariant (size : Nat) (limit : Option Nat) (calls : List Action) (s : Ledger) : Prop where
  balances : s.phase.Balances calls
  reads : s.phase.Reads limit calls
  holds : s.phase.Holds size
  length : (handed calls).flatten.length = s.length
  nonempty : ∀ chunk ∈ handed calls, chunk ≠ []
  within : ∀ l ∈ limit, s.length ≤ s.phase.allowance size l
  short : ∀ a ∈ calls, a.IsShort → s.phase = .failed partialWrite

/-- Chunks that are not empty are at most as many as their bytes. -/
theorem length_le_length_flatten {chunks : List Bytes} (h : ∀ chunk ∈ chunks, chunk ≠ []) :
    chunks.length ≤ chunks.flatten.length := by
  induction chunks with
  | nil => exact Nat.le_refl 0
  | cons chunk chunks ih =>
    have hchunk : 0 < chunk.length := List.length_pos_iff.mpr (h chunk List.mem_cons_self)
    have hrest := ih fun c hc => h c (List.mem_cons_of_mem _ hc)
    simp only [List.flatten_cons, List.length_append, List.length_cons]
    omega

namespace LedgerInvariant

variable {calls : List Action} {s : Ledger}

theorem init : LedgerInvariant size limit [] {} where
  balances := rfl
  reads := rfl
  holds := trivial
  length := rfl
  nonempty := by simp
  within := fun _ _ => Nat.zero_le _
  short := by simp

/-- No count was short in a transfer that still goes on. -/
theorem not_short (h : LedgerInvariant size limit calls s) (hs : s.phase ≠ .failed partialWrite) :
    ∀ a ∈ calls, ¬ a.IsShort :=
  fun a ha hshort => hs (h.short a ha hshort)

/-- The facts about a chunk in hand. -/
theorem held {phase : Phase} {n : Nat} {raw : Bytes} (h : LedgerInvariant size limit calls ⟨phase, n⟩)
    (hp : phase = .holding raw ∨ phase = .polled raw) :
    taken calls = handed calls ++ [raw] ∧ calls.countP Action.isRead = (handed calls).length + 1 ∧
      raw ≠ [] ∧ raw.length ≤ size ∧ (∀ l ∈ limit, n ≤ l) ∧ ∀ a ∈ calls, ¬ a.IsShort := by
  rcases hp with rfl | rfl
  · exact ⟨h.balances, h.reads, h.holds.1, h.holds.2, h.within, h.not_short (by simp)⟩
  · exact ⟨h.balances, h.reads, h.holds.1, h.holds.2, h.within, h.not_short (by simp)⟩

/-- There are at most as many chunks as the declared length has bytes. -/
theorem chunks_le (h : LedgerInvariant size limit calls s) {l : Nat} (hl : s.length ≤ l) :
    (handed calls).length ≤ l :=
  (length_le_length_flatten h.nonempty).trans (h.length.trans_le hl)

/-- A call that hands nothing over. -/
theorem extend {n : Nat} {phase phase' : Phase} {a : Action} (h : LedgerInvariant size limit calls ⟨phase, n⟩)
    (ha : a.handed? = none) (hshort : ∀ b ∈ calls ++ [a], ¬ b.IsShort)
    (hbalances : phase'.Balances (calls ++ [a])) (hreads : phase'.Reads limit (calls ++ [a]))
    (hholds : phase'.Holds size) (hwithin : ∀ l ∈ limit, n ≤ phase'.allowance size l) :
    LedgerInvariant size limit (calls ++ [a]) ⟨phase', n⟩ := by
  have hhanded : handed (calls ++ [a]) = handed calls := by simp [handed_cons, ha]
  refine ⟨hbalances, hreads, hholds, ?_, ?_, hwithin, fun b hb hs => absurd hs (hshort b hb)⟩
  · rw [hhanded]
    exact h.length
  · rw [hhanded]
    exact h.nonempty

/-- No count is short after one more call that is not. -/
theorem not_short_append {a : Action} (h : ∀ a ∈ calls, ¬ a.IsShort) (ha : ¬ a.IsShort) :
    ∀ b ∈ calls ++ [a], ¬ b.IsShort := by
  intro b hb
  rcases List.mem_append.mp hb with hb | hb
  · exact h b hb
  · rw [List.mem_singleton.mp hb]
    exact ha

/-- A read that gives no chunk to hand over. -/
theorem read_last {n : Nat} {stream : StreamId} {result : Py Chunk} {phase : Phase}
    (h : LedgerInvariant size limit calls ⟨.ready, n⟩) (hp : phase = .ended ∨ ∃ e, phase = .failed e) :
    LedgerInvariant size limit (calls ++ [.read stream size result]) ⟨phase, n⟩ := by
  have hbal : taken calls = handed calls := h.balances
  have hreads : calls.countP Action.isRead = (handed calls).length := h.reads
  have hprefix : handed (calls ++ [.read stream size result]) <+: taken (calls ++ [.read stream size result]) := by
    rw [taken_append, handed_append, hbal]
    exact (List.append_nil _).symm ▸ List.prefix_append _ _
  have hcount : ∀ l ∈ limit, (calls ++ [Action.read stream size result]).countP Action.isRead ≤ l + 1 := by
    intro l hl
    have hle := h.chunks_le (h.within l hl)
    rw [List.countP_append, hreads]
    exact Nat.add_le_add_right hle 1
  have hshort := not_short_append (h.not_short (by simp)) (a := .read stream size result) id
  rcases hp with rfl | ⟨e, rfl⟩
  · exact h.extend rfl hshort hprefix hcount trivial h.within
  · refine h.extend rfl hshort hprefix hcount trivial fun l hl => ?_
    exact (h.within l hl).trans (Nat.le_add_right _ _)

/-- A call of the callback. -/
theorem answer {n : Nat} {raw : Bytes} {result : Py Bool} {phase : Phase}
    (h : LedgerInvariant size limit calls ⟨.holding raw, n⟩) (hp : phase = .polled raw ∨ ∃ e, phase = .failed e) :
    LedgerInvariant size limit (calls ++ [.cancelled result]) ⟨phase, n⟩ := by
  obtain ⟨hbal, hreads, hne, hle, hwithin, hshort⟩ := h.held (Or.inl rfl)
  have hbal' : taken (calls ++ [.cancelled result]) = handed (calls ++ [.cancelled result]) ++ [raw] := by
    rw [taken_append, handed_append, hbal]
    simp [taken_cons, handed_cons, Action.taken?, Action.handed?]
  have hreads' : (calls ++ [Action.cancelled result]).countP Action.isRead =
      (handed (calls ++ [.cancelled result])).length + 1 := by
    rw [List.countP_append, handed_append, hreads]
    simp [handed_cons, Action.isRead, Action.handed?]
  have hshort' := not_short_append hshort (a := .cancelled result) id
  rcases hp with rfl | ⟨e, rfl⟩
  · exact h.extend rfl hshort' hbal' hreads' ⟨hne, hle⟩ hwithin
  · refine h.extend rfl hshort' ?_ ?_ trivial fun l hl => ?_
    · show handed _ <+: taken _
      rw [hbal']
      exact List.prefix_append _ _
    · intro l hl
      have hle := h.chunks_le (hwithin l hl)
      rw [List.countP_append, hreads]
      exact Nat.add_le_add_right hle 1
    · exact (hwithin l hl).trans (Nat.le_add_right _ _)

/-- A call of the sink. -/
theorem write {n : Nat} {raw : Bytes} {result : Py (Option Int)} {phase phase' : Phase}
    (h : LedgerInvariant size limit calls ⟨phase, n⟩) (hp : phase = .holding raw ∨ phase = .polled raw)
    (hp' : (phase' = .ready ∧ ∀ l ∈ limit, n + raw.length ≤ l) ∨ ∃ e, phase' = .failed e)
    (hresult : (Action.write raw result).IsShort → phase' = .failed partialWrite) :
    LedgerInvariant size limit (calls ++ [.write raw result]) ⟨phase', n + raw.length⟩ := by
  obtain ⟨hbal, hreads, hne, hle, hwithin, hshort⟩ := h.held hp
  have hhanded : handed (calls ++ [.write raw result]) = handed calls ++ [raw] := by
    simp [handed_cons, Action.handed?]
  have htaken : taken (calls ++ [.write raw result]) = taken calls := by simp [taken_cons, Action.taken?]
  have hcount : (calls ++ [Action.write raw result]).countP Action.isRead = calls.countP Action.isRead := by
    simp [Action.isRead]
  refine ⟨?_, ?_, ?_, ?_, ?_, ?_, ?_⟩
  · rcases hp' with ⟨rfl, -⟩ | ⟨e, rfl⟩
    · show taken _ = handed _
      rw [htaken, hhanded, hbal]
    · show handed _ <+: taken _
      rw [htaken, hhanded, hbal]
  · rcases hp' with ⟨rfl, -⟩ | ⟨e, rfl⟩
    · show List.countP _ _ = _
      rw [hcount, hhanded, hreads, List.length_append, List.length_singleton]
    · intro l hl
      have := (length_le_length_flatten h.nonempty).trans (h.length.trans_le (hwithin l hl))
      rw [hcount, hreads]
      omega
  · rcases hp' with ⟨rfl, -⟩ | ⟨e, rfl⟩ <;> exact trivial
  · rw [hhanded, List.flatten_append, List.length_append, h.length]
    simp
  · rw [hhanded]
    intro chunk hc
    rcases List.mem_append.mp hc with hc | hc
    · exact h.nonempty chunk hc
    · rw [List.mem_singleton.mp hc]
      exact hne
  · intro l hl
    have hn := hwithin l hl
    rcases hp' with ⟨rfl, hfit⟩ | ⟨e, rfl⟩
    · exact hfit l hl
    · show n + raw.length ≤ l + size
      omega
  · intro a ha hs
    rcases List.mem_append.mp ha with ha | ha
    · exact absurd hs (hshort a ha)
    · rw [List.mem_singleton.mp ha] at hs
      exact hresult hs

/-- A call on the source or its context. -/
theorem context {a : Action} (h : LedgerInvariant size limit calls s) (ha : a.IsContext) :
    LedgerInvariant size limit (calls ++ [a]) s := by
  obtain ⟨ht, hh, hr, hs⟩ := ha.quiet
  have htaken : taken (calls ++ [a]) = taken calls := by simp [taken_cons, ht]
  have hhanded : handed (calls ++ [a]) = handed calls := by simp [handed_cons, hh]
  have hcount : (calls ++ [a]).countP Action.isRead = calls.countP Action.isRead := by simp [hr]
  obtain ⟨phase, n⟩ := s
  refine ⟨?_, ?_, h.holds, hhanded ▸ h.length, hhanded ▸ h.nonempty, h.within, ?_⟩
  · have hb : phase.Balances calls := h.balances
    show phase.Balances (calls ++ [a])
    unfold Phase.Balances at hb ⊢
    rwa [htaken, hhanded]
  · have hb : phase.Reads limit calls := h.reads
    show phase.Reads limit (calls ++ [a])
    unfold Phase.Reads at hb ⊢
    rwa [hcount, hhanded]
  · intro b hb hshort
    rcases List.mem_append.mp hb with hb | hb
    · exact h.short b hb hshort
    · rw [List.mem_singleton.mp hb] at hshort
      exact absurd hshort hs

/-- Every call keeps the invariant. -/
theorem step {s' : Ledger} {a : Action} (h : LedgerInvariant size limit calls s)
    (hstep : LedgerStep size limit s a s') : LedgerInvariant size limit (calls ++ [a]) s' := by
  cases hstep with
  | @read n stream raw hne hle =>
    have hbal : taken calls = handed calls := h.balances
    have hreads : calls.countP Action.isRead = (handed calls).length := h.reads
    have hhanded : handed (calls ++ [.read stream size (.ok (.bytes raw))]) = handed calls := by
      simp [handed_cons, Action.handed?]
    refine ⟨?_, ?_, ⟨hne, hle⟩, hhanded ▸ h.length, hhanded ▸ h.nonempty, h.within, ?_⟩
    · show taken _ = handed _ ++ [raw]
      rw [hhanded, taken_append, hbal]
      rfl
    · show List.countP _ _ = _
      rw [hhanded, List.countP_append, hreads]
      rfl
    · intro a ha hs
      rcases List.mem_append.mp ha with ha | ha
      · exact absurd hs (h.not_short (by simp) a ha)
      · rw [List.mem_singleton.mp ha] at hs
        exact hs.elim
  | ended last => exact h.read_last (Or.inl rfl)
  | unread => exact h.read_last (Or.inr ⟨_, rfl⟩)
  | polled => exact h.answer (Or.inl rfl)
  | stopped stop => exact h.answer (Or.inr ⟨_, rfl⟩)
  | accepted held whole within =>
    refine h.write held (Or.inl ⟨rfl, within⟩) fun hs => ?_
    rcases whole with rfl | rfl
    · exact hs.elim
    · exact absurd rfl hs
  | short held part => exact h.write held (Or.inr ⟨_, rfl⟩) fun _ => rfl
  | unwritten held => exact h.write held (Or.inr ⟨_, rfl⟩) fun hs => hs.elim
  | exceeded held whole =>
    refine h.write held (Or.inr ⟨_, rfl⟩) fun hs => ?_
    rcases whole with rfl | rfl
    · exact hs.elim
    · exact absurd rfl hs
  | context ha => exact h.context ha

/-- **Every run of the ledger keeps the invariant.** -/
theorem run (h : Run (LedgerStep size limit) {} calls s) : LedgerInvariant size limit calls s :=
  h.invariant (P := fun calls s => LedgerInvariant size limit calls s) init fun _ _ _ _ hs hstep => hs.step hstep

end LedgerInvariant

/-! ## The calls of a transfer -/

variable {W : Type} {heap : SourceId → PayloadSource} {env : Environment W} {H : Hasher}

/-- The calls made on the way from `p` to `p'` lead the ledger from `s` to `s'`. -/
def Follows (size : Nat) (limit : Option Nat) (p p' : Process W) (s s' : Ledger) : Prop :=
  ∃ calls, p'.trace = p.trace ++ calls ∧ Run (LedgerStep size limit) s calls s'

/-- Where the ledger stands after a block that ends in `done` unless it raises. -/
def Phase.after (done : Phase) : Py Unit → Phase
  | .ok () => done
  | .error e => .failed e

theorem Follows.of_trace {p p' : Process W} {s : Ledger} (h : p'.trace = p.trace) : Follows size limit p p' s s :=
  ⟨[], by rw [h, List.append_nil], .nil⟩

theorem Follows.trans {p p' p'' : Process W} {s s' s'' : Ledger} (h : Follows size limit p p' s s')
    (h' : Follows size limit p' p'' s' s'') : Follows size limit p p'' s s'' := by
  obtain ⟨calls, ht, hrun⟩ := h
  obtain ⟨calls', ht', hrun'⟩ := h'
  exact ⟨calls ++ calls', by rw [ht', ht, List.append_assoc], hrun.append hrun'⟩

/-- One call, from a process that has made the calls of `p`. -/
theorem Follows.call_of_trace {α : Type} {p q p' : Process W} {s s' : Ledger} {f : W → α × W}
    {action : α → Action} {a : α} (h : q.call f action = (a, p')) (hq : q.trace = p.trace)
    (hstep : LedgerStep size limit s (action a) s') : Follows size limit p p' s s' := by
  cases h
  refine ⟨[_], ?_, Run.nil.snoc hstep⟩
  rw [← hq]

theorem Follows.call {α : Type} {p p' : Process W} {s s' : Ledger} {f : W → α × W} {action : α → Action} {a : α}
    (h : p.call f action = (a, p')) (hstep : LedgerStep size limit s (action a) s') :
    Follows size limit p p' s s' :=
  Follows.call_of_trace h rfl hstep

/-- Where the ledger stands after a round of `iter_payload_chunks`. -/
def Phase.ofChunk : Py (Option Bytes) → Phase
  | .ok (some raw) => .holding raw
  | .ok none => .ended
  | .error e => .failed e

theorem chunkOf_step (limit : Option Nat) (n : Nat) (stream : StreamId) (answer : Py Chunk) :
    LedgerStep size limit ⟨.ready, n⟩ (.read stream size answer) ⟨Phase.ofChunk (chunkOf size answer), n⟩ := by
  rcases answer with e | (raw | _ | _)
  · exact .unread
  · unfold chunkOf
    dsimp only
    split
    · next hraw =>
      subst hraw
      exact .ended (Or.inl rfl)
    · next hraw =>
      split
      · exact .unread
      · next hsize => exact .read hraw (Nat.le_of_not_lt hsize)
  · exact .unread
  · exact .ended (Or.inr rfl)

theorem nextChunk_follows (limit : Option Nat) (n : Nat) {stream : StreamId} {p p' : Process W}
    {result : Py (Option Bytes)} (h : nextChunk env stream size p = (result, p')) :
    Follows size limit p p' ⟨.ready, n⟩ ⟨Phase.ofChunk result, n⟩ := by
  obtain ⟨answer, hcall, rfl⟩ := nextChunk_cases h
  exact Follows.call hcall (chunkOf_step limit n stream answer)

theorem checkCancelled_follows (size : Nat) (limit : Option Nat) (raw : Bytes) (n : Nat) {p p' : Process W}
    {result : Py Unit} (h : checkCancelled env p = (result, p')) :
    ∃ phase, Follows size limit p p' ⟨.holding raw, n⟩ ⟨phase, n⟩ ∧
      (result = .ok () → phase = .holding raw ∨ phase = .polled raw) ∧ ∀ e, result = .error e → phase = .failed e := by
  rcases checkCancelled_cases h with ⟨-, rfl, rfl⟩ | ⟨cancelled, answer, -, hcall, rfl⟩
  · exact ⟨_, Follows.of_trace rfl, fun _ => Or.inl rfl, nofun⟩
  · rcases answer with e | (_ | _)
    · exact ⟨.failed e, Follows.call hcall (.stopped (by simp)), nofun, fun e' he => congrArg _ (Except.error.inj he)⟩
    · exact ⟨_, Follows.call hcall .polled, fun _ => Or.inr rfl, nofun⟩
    · exact ⟨.failed TransferCancelled, Follows.call hcall (.stopped (by simp)), nofun,
        fun e' he => congrArg _ (Except.error.inj he)⟩

/-- The answer of the sink to the chunk in hand. -/
theorem progressOf_step (size : Nat) {parsed : PayloadReference} {chunk : Bytes} {s s' : Progress H}
    {answer : Py (Option Int)} {result : Py Unit} (h : progressOf H parsed chunk s answer = (result, s'))
    {phase : Phase} (held : phase = .holding chunk ∨ phase = .polled chunk) :
    LedgerStep size parsed.expectedLength ⟨phase, s.length⟩ (.write chunk answer)
      ⟨Phase.after .ready result, s.length + chunk.length⟩ := by
  cases result with
  | ok u =>
    obtain ⟨⟨count, rfl, hcount⟩, -, hlimit⟩ := progressOf_eq_ok h
    exact .accepted held hcount hlimit
  | error e =>
    unfold progressOf at h
    split at h
    · cases h
      exact .unwritten held
    · next count =>
      split at h
      · next hpart =>
        cases h
        obtain ⟨count, rfl⟩ := Option.ne_none_iff_exists'.mp hpart.1
        have hne : count ≠ chunk.length := fun hc => hpart.2 (congrArg some hc)
        exact .short held hne
      · next hwhole =>
        have hcount : count = none ∨ count = some (chunk.length : Int) := by
          by_cases hn : count = none
          · exact Or.inl hn
          · exact Or.inr (not_not.mp fun hne => hwhole ⟨hn, hne⟩)
        split at h
        · cases h
          exact .exceeded held hcount
        · cases h

theorem transferChunk_follows (size : Nat) {parsed : PayloadReference} {chunk : Bytes} {s s' : Progress H}
    {p p' : Process W} {result : Py Unit} (h : transferChunk env H parsed chunk s p = (result, s', p')) :
    ∃ n, Follows size parsed.expectedLength p p' ⟨.holding chunk, s.length⟩ ⟨Phase.after .ready result, n⟩ ∧
      (result = .ok () → n = s'.length) := by
  rcases transferChunk_cases h with ⟨e, hcheck, rfl, -⟩ | ⟨q, answer, hcheck, hcall, hprogress⟩
  · obtain ⟨phase, hfollows, -, herror⟩ := checkCancelled_follows size parsed.expectedLength chunk s.length hcheck
    obtain rfl := herror e rfl
    exact ⟨_, hfollows, nofun⟩
  · obtain ⟨phase, hfollows, hok, -⟩ := checkCancelled_follows size parsed.expectedLength chunk s.length hcheck
    refine ⟨_, hfollows.trans (Follows.call hcall (progressOf_step size hprogress (hok rfl))), ?_⟩
    rintro rfl
    exact (length_transferChunk h).1.symm

/-- **The loop of `transfer_payload` follows the ledger.** -/
theorem transferChunks_follows {parsed : PayloadReference} {stream : StreamId} {fuel : Nat} {s s' : Progress H}
    {p p' : Process W} {result : Py Unit}
    (h : transferChunks env H parsed stream size fuel s p = some (result, s', p')) :
    ∃ n, Follows size parsed.expectedLength p p' ⟨.ready, s.length⟩ ⟨Phase.after .ended result, n⟩ := by
  refine transferChunks_induction (motive := fun _ s p result _ p' =>
    ∃ n, Follows size parsed.expectedLength p p' ⟨.ready, s.length⟩ ⟨Phase.after .ended result, n⟩) ?_ ?_ ?_ ?_ h
  · intro _ s p e p' hnext
    exact ⟨_, nextChunk_follows parsed.expectedLength s.length hnext⟩
  · intro _ s p p' hnext
    exact ⟨_, nextChunk_follows parsed.expectedLength s.length hnext⟩
  · intro _ s p chunk q e s' p' hnext hround
    have hread := nextChunk_follows parsed.expectedLength s.length hnext
    obtain ⟨n, hround', -⟩ := transferChunk_follows size hround
    exact ⟨n, hread.trans hround'⟩
  · intro _ s p chunk q t r result s' p' hnext hround ih
    have hread := nextChunk_follows parsed.expectedLength s.length hnext
    obtain ⟨n, hround', hn⟩ := transferChunk_follows size hround
    obtain rfl := hn rfl
    obtain ⟨n, hrest⟩ := ih
    exact ⟨n, (hread.trans hround').trans hrest⟩

/-! ## Contexts -/

/-- The calls made on the way from `p` to `p'` are calls on the source or its context. -/
def OnlyContext (p p' : Process W) (calls : List Action) : Prop :=
  p'.trace = p.trace ++ calls ∧ ∀ a ∈ calls, a.IsContext

theorem OnlyContext.call {α : Type} {p q p' : Process W} {f : W → α × W} {action : α → Action} {a : α}
    (h : q.call f action = (a, p')) (hq : q.trace = p.trace) (ha : (action a).IsContext) :
    OnlyContext p p' [action a] := by
  cases h
  refine ⟨?_, by simpa using ha⟩
  rw [← hq]

theorem run_context {calls : List Action} {s : Ledger} (h : ∀ a ∈ calls, a.IsContext) :
    Run (LedgerStep size limit) s calls s := by
  induction calls using List.reverseRecOn with
  | nil => exact .nil
  | append_singleton calls a ih =>
    have hcalls : ∀ b ∈ calls, b.IsContext := fun b hb => h b (List.mem_append_left _ hb)
    exact (ih hcalls).snoc (.context (h a (by simp)))

/-- Opening a payload makes calls on its source only. -/
theorem enterPayload_calls {parsed : PayloadReference} {p p' : Process W} {result : Py (SourceId × StreamId)}
    (h : enterPayload heap env parsed p = (result, p')) : ∃ calls, OnlyContext p p' calls := by
  rcases enterPayload_cases h with ⟨e, store, -, -, rfl⟩ | ⟨source, store, -, hsource⟩
  · exact ⟨[], by simp, by simp⟩
  · unfold enterSource at hsource
    split at hsource
    · cases hsource
      exact ⟨[], by simp, by simp⟩
    · split at hsource <;> next hcall =>
        cases hsource
        exact ⟨_, OnlyContext.call hcall rfl trivial⟩
    · split at hsource <;> next hcall =>
        cases hsource
        exact ⟨_, OnlyContext.call hcall rfl trivial⟩

/-- The context manager of a source of another class than the two of this package swallowed an exception. -/
def Swallowed (heap : SourceId → PayloadSource) (calls : List Action) (raised : Option PyError) : Prop :=
  ∃ source object replayable, heap source = .other object replayable ∧ .exit object raised (.ok true) ∈ calls

/-- Closing a payload makes calls on its source only; an exception is swallowed by the context manager of
a source of another class. -/
theorem exitPayload_calls {source : SourceId} {stream : StreamId} {raised : Option PyError} {p p' : Process W}
    {result : Py Bool} (h : exitPayload heap env source stream raised p = (result, p')) :
    ∃ calls, OnlyContext p p' calls ∧ (result = .ok true → Swallowed heap calls raised) := by
  unfold exitPayload at h
  split at h
  · cases h
    exact ⟨[], ⟨by simp, by simp⟩, fun he => by cases he⟩
  · cases hcall : p.call (env.close stream) (.close stream) with
    | mk answer q =>
      have hclose := OnlyContext.call hcall rfl trivial
      rw [hcall] at h
      cases answer with
      | error e =>
        cases h
        exact ⟨_, hclose, fun he => by cases he⟩
      | ok u =>
        cases h
        exact ⟨_, hclose, fun he => by cases he⟩
  · next object replayable hsource =>
    refine ⟨_, OnlyContext.call h rfl trivial, fun he => ⟨source, object, replayable, hsource, ?_⟩⟩
    rw [he]
    exact List.mem_singleton_self _

/-- The calls of a `with` block whose body follows the ledger. -/
theorem withPayload_follows {parsed : PayloadReference} {fuel : Nat} {s s' : Progress H} {p p' : Process W}
    {result : Py Unit}
    (h : withPayload heap env parsed (fun stream => transferChunks env H parsed stream size fuel) s p =
      some (result, s', p')) :
    ∃ calls l, p'.trace = p.trace ++ calls ∧ Run (LedgerStep size parsed.expectedLength) ⟨.ready, s.length⟩ calls l ∧
      ∀ e, result = .ok () → l.phase = .failed e → Swallowed heap calls (some e) := by
  rcases withPayload_cases h with ⟨e, henter, rfl, -⟩ | ⟨source, stream, q, answer, r, closed, henter, hbody, hexit, rfl⟩
  · obtain ⟨calls, ht, hcontext⟩ := enterPayload_calls henter
    exact ⟨calls, _, ht, run_context hcontext, nofun⟩
  · obtain ⟨opening, ht, hcontext⟩ := enterPayload_calls henter
    have hopen : Follows size parsed.expectedLength p q ⟨.ready, s.length⟩ ⟨.ready, s.length⟩ :=
      ⟨opening, ht, run_context hcontext⟩
    obtain ⟨n, hloop⟩ := transferChunks_follows hbody
    obtain ⟨calls, ht, hrun⟩ := hopen.trans hloop
    obtain ⟨closing, ⟨ht', hcontext'⟩, hswallow⟩ := exitPayload_calls hexit
    refine ⟨calls ++ closing, _, by rw [ht', ht, List.append_assoc], hrun.append (run_context hcontext'),
      fun e hok he => ?_⟩
    cases answer with
    | ok u => cases he
    | error e' =>
      obtain rfl : e' = e := Phase.failed.inj he
      have hclosed : closed = .ok true := by
        rcases closed with e' | (_ | _)
        · cases hok
        · cases hok
        · rfl
      obtain ⟨source, object, replayable, hsource, hmem⟩ := hswallow hclosed
      exact ⟨source, object, replayable, hsource, List.mem_append_right _ hmem⟩

/-- **The calls of `transfer_payload` are a run of the ledger**, and an identity is returned after a
failure only if the context manager of the source swallowed it. -/
theorem transferPayload_follows {parsed : PayloadReference} {reference : PayloadReferenceValue} {fuel : Nat}
    {chunkSize : Json} {p p' : Process W} {result : Py ContentIdentity}
    (hparsed : parsePayloadReference reference = .ok parsed) (hsize : chunkSizeOf chunkSize = .ok size)
    (h : transferPayload heap env H fuel reference chunkSize p = some (result, p')) :
    ∃ calls l, p'.trace = p.trace ++ calls ∧ Run (LedgerStep size parsed.expectedLength) {} calls l ∧
      ∀ e i, result = .ok i → l.phase = .failed e → Swallowed heap calls (some e) := by
  have hbody : transferStream env H fuel parsed chunkSize =
      fun stream => transferChunks env H parsed stream size fuel := by
    funext stream s p
    simp only [transferStream, hsize]
  rw [transferPayload, hparsed] at h
  dsimp only at h
  rw [hbody] at h
  obtain ⟨⟨answer, s, q⟩, hwith, hresult⟩ := Option.map_eq_some_iff.mp h
  obtain ⟨calls, l, ht, hrun, hfail⟩ := withPayload_follows hwith
  cases answer with
  | error e =>
    cases hresult
    exact ⟨calls, l, ht, hrun, fun e i he => by cases he⟩
  | ok u =>
    cases hresult
    exact ⟨calls, l, ht, hrun, fun e i _ he => hfail e rfl he⟩

/-! ## Termination -/

/-- The loop ends: every round hands over at least one byte, and none goes on past the declared length. -/
theorem exists_transferChunks {parsed : PayloadReference} {l : Nat} (hl : parsed.expectedLength = some l)
    {stream : StreamId} {fuel : Nat} {s : Progress H} (p : Process W) (hs : s.length ≤ l)
    (hfuel : l < s.length + fuel) : ∃ r, transferChunks env H parsed stream size fuel s p = some r := by
  obtain ⟨fuel, rfl⟩ : ∃ n, fuel = n + 1 := Nat.exists_eq_add_one.mpr (by omega)
  refine transferChunks_ends (fun s _ => s.length) l ?_ (by omega)
  intro s p chunk q t r hnext hround
  obtain ⟨hlen, hle⟩ := length_transferChunk hround
  have hpos := List.length_pos_iff.mpr (nextChunk_nonempty hnext)
  exact ⟨by omega, hle l hl⟩

/-- **A transfer with a declared length ends**: it takes at most one round more than that length. -/
theorem exists_transferPayload {parsed : PayloadReference} {reference : PayloadReferenceValue} {fuel l : Nat}
    {chunkSize : Json} (p : Process W) (hparsed : parsePayloadReference reference = .ok parsed)
    (hsize : chunkSizeOf chunkSize = .ok size) (hl : parsed.expectedLength = some l) (hfuel : l < fuel) :
    ∃ result p', transferPayload heap env H fuel reference chunkSize p = some (result, p') := by
  rw [transferPayload, hparsed]
  dsimp only
  have hwith : ∃ r, withPayload heap env parsed (transferStream env H fuel parsed chunkSize) ⟨H.new, 0⟩ p = some r := by
    unfold withPayload
    split
    · exact ⟨_, rfl⟩
    · next source stream q _ =>
      have hbody : ∃ r, transferStream env H fuel parsed chunkSize stream ⟨H.new, 0⟩ q = some r := by
        unfold transferStream
        rw [hsize]
        exact exists_transferChunks hl q (Nat.zero_le l) (by omega)
      obtain ⟨r, hr⟩ := hbody
      rw [hr]
      exact ⟨_, rfl⟩
  obtain ⟨⟨answer, s, q⟩, hr⟩ := hwith
  rw [hr]
  cases answer with
  | error e => exact ⟨_, _, rfl⟩
  | ok u => exact ⟨_, _, rfl⟩

/-! ## Hostile streams and sinks -/

theorem LedgerInvariant.isPrefix_handed {calls : List Action} {s : Ledger}
    (h : LedgerInvariant size limit calls s) : handed calls <+: taken calls := by
  have hb := h.balances
  cases hp : s.phase with
  | ready =>
    rw [hp] at hb
    exact (show taken calls = handed calls from hb) ▸ List.prefix_rfl
  | holding raw =>
    rw [hp] at hb
    exact ⟨[raw], hb.symm⟩
  | polled raw =>
    rw [hp] at hb
    exact ⟨[raw], hb.symm⟩
  | ended =>
    rw [hp] at hb
    exact hb
  | failed e =>
    rw [hp] at hb
    exact hb

theorem LedgerInvariant.reads_le {calls : List Action} {s : Ledger} {l : Nat}
    (h : LedgerInvariant size (some l) calls s) : calls.countP Action.isRead ≤ l + 1 := by
  have hr := h.reads
  have hw := h.within l rfl
  cases hp : s.phase with
  | ready =>
    rw [hp] at hr hw
    have hr : calls.countP Action.isRead = (handed calls).length := hr
    have := h.chunks_le (show s.length ≤ l from hw)
    omega
  | holding raw =>
    rw [hp] at hr hw
    have hr : calls.countP Action.isRead = (handed calls).length + 1 := hr
    have := h.chunks_le (show s.length ≤ l from hw)
    omega
  | polled raw =>
    rw [hp] at hr hw
    have hr : calls.countP Action.isRead = (handed calls).length + 1 := hr
    have := h.chunks_le (show s.length ≤ l from hw)
    omega
  | ended =>
    rw [hp] at hr
    exact hr l rfl
  | failed e =>
    rw [hp] at hr
    exact hr l rfl

theorem LedgerInvariant.length_le {calls : List Action} {s : Ledger} {l : Nat}
    (h : LedgerInvariant size (some l) calls s) : (handed calls).flatten.length ≤ l + size := by
  have hw := h.within l rfl
  have ha : s.phase.allowance size l ≤ l + size := by
    unfold Phase.allowance
    split
    · exact Nat.le_refl _
    · exact Nat.le_add_right _ _
  rw [h.length]
  exact hw.trans ha

/-- A transfer that has failed hands nothing over. -/
theorem run_failed {e : PyError} {n : Nat} {calls : List Action} {s : Ledger}
    (h : Run (LedgerStep size limit) ⟨.failed e, n⟩ calls s) : s = ⟨.failed e, n⟩ ∧ handed calls = [] := by
  refine h.invariant (P := fun calls s => s = ⟨.failed e, n⟩ ∧ handed calls = []) ⟨rfl, rfl⟩ ?_
  rintro calls s a s' ⟨rfl, hnone⟩ hstep
  cases hstep with
  | accepted held => simp at held
  | short held => simp at held
  | unwritten held => simp at held
  | exceeded held => simp at held
  | context ha =>
    refine ⟨rfl, ?_⟩
    have hquiet : handed [a] = [] := handed_context (by simpa using ha)
    rw [handed_append, hnone, hquiet, List.append_nil]

/-- What holds of the calls of a transfer with the declared length `length`, read in chunks of at most
`size` bytes. -/
structure HostileBounds (length size : Nat) (calls : List Action) : Prop where
  reads : calls.countP Action.isRead ≤ length + 1
  handed : (handed calls).flatten.length ≤ length + size
  /-- At every point, the bytes handed over are the first of those read. -/
  inOrder : ∀ before, before <+: calls → (ObjectCommon.handed before).flatten <+: (taken before).flatten
  /-- Cancelled before a chunk, exactly the chunks before it are handed over. -/
  cancelled : ∀ before after, calls = before ++ .cancelled (.ok true) :: after →
    ∃ k, (taken before).length = k + 1 ∧ ObjectCommon.handed calls = (taken before).take k
  /-- After a count that is not that of its chunk, nothing is handed over. -/
  short : ∀ before a after, calls = before ++ a :: after → a.IsShort → ObjectCommon.handed after = []

theorem HostileBounds.of_run {l : Nat} {calls : List Action} {s : Ledger}
    (h : Run (LedgerStep size (some l)) {} calls s) : HostileBounds l size calls where
  reads := (LedgerInvariant.run h).reads_le
  handed := (LedgerInvariant.run h).length_le
  inOrder := by
    rintro before ⟨after, rfl⟩
    obtain ⟨s₁, h₁⟩ := h.of_append
    exact List.IsPrefix.flatten (LedgerInvariant.run h₁).isPrefix_handed
  cancelled := by
    rintro before after rfl
    obtain ⟨s₁, s₂, h₁, hstep, h₂⟩ := h.split
    generalize ha : Action.cancelled (.ok true) = a at hstep
    cases hstep with
    | @stopped n raw result e stop =>
      have hb : taken before = ObjectCommon.handed before ++ [raw] := (LedgerInvariant.run h₁).balances
      refine ⟨(ObjectCommon.handed before).length, by simp [hb], ?_⟩
      rw [hb, List.take_left', handed_append, handed_cons, (run_failed h₂).2]
      · simp [Action.handed?]
      · rfl
    | polled => cases ha
    | context hc =>
      subst ha
      exact hc.elim
    | _ => cases ha
  short := by
    rintro before a after rfl hshort
    obtain ⟨s₁, s₂, h₁, hstep, h₂⟩ := h.split
    have hphase : s₂.phase = .failed partialWrite :=
      ((LedgerInvariant.run h₁).step hstep).short a (by simp) hshort
    obtain ⟨phase, n⟩ := s₂
    obtain rfl : phase = .failed partialWrite := hphase
    exact (run_failed h₂).2

/-- No identity is returned after a count that is not that of its chunk. -/
def DeniesShort (calls : List Action) (result : Py ContentIdentity) : Prop :=
  ∀ a ∈ calls, a.IsShort → ∀ i, result ≠ .ok i

/-- **A declared length bounds a transfer**, whatever the stream, the sink and the callback do: it ends,
its calls keep to `HostileBounds`, and after a short count it returns an identity only if the source's own
context manager swallowed the error. -/
theorem transferPayload_bounded {parsed : PayloadReference} {reference : PayloadReferenceValue} {l c fuel : Nat}
    (p : Process W) (hparsed : parsePayloadReference reference = .ok parsed) (hl : parsed.expectedLength = some l)
    (hpos : 0 < c) (hc : c ≤ maxChunkSize) (hfuel : l < fuel) :
    ∃ result p' calls, transferPayload heap env H fuel reference (.int c) p = some (result, p') ∧
      p'.trace = p.trace ++ calls ∧ HostileBounds l c calls ∧
      (DeniesShort calls result ∨ Swallowed heap calls (some partialWrite)) := by
  have hsize : chunkSizeOf (.int c) = .ok c := chunkSizeOf_eq_ok.mpr ⟨rfl, hpos, hc⟩
  obtain ⟨result, p', h⟩ : ∃ result p', transferPayload heap env H fuel reference (.int c) p = some (result, p') :=
    exists_transferPayload p hparsed hsize hl hfuel
  obtain ⟨calls, s, ht, hrun, hfailed⟩ := transferPayload_follows hparsed hsize h
  have hinv := LedgerInvariant.run hrun
  refine ⟨result, p', calls, h, ht, HostileBounds.of_run (hl ▸ hrun), ?_⟩
  by_cases hshort : ∃ a ∈ calls, a.IsShort
  · obtain ⟨a, ha, hs⟩ := hshort
    cases result with
    | ok i => exact Or.inr (hfailed partialWrite i rfl (hinv.short a ha hs))
    | error e => exact Or.inl fun _ _ _ i hi => by cases hi
  · exact Or.inl fun a ha hs => absurd ⟨a, ha, hs⟩ hshort

/-- A stream that never ends, a sink that takes nothing, and a source that swallows what it exits with. -/
def swallowingEnvironment : Environment Unit where
  read _ _ _ := (.ok (.bytes [97, 98, 99]), ())
  write _ _ := (.ok (some 0), ())
  cancelled := none
  factory _ _ := (.ok none, ())
  close _ _ := (.ok (), ())
  enter _ _ := (.ok 0, ())
  exit _ _ _ := (.ok true, ())

def swallowingSource : SourceId → PayloadSource := fun _ => .other 0 true

def emptyPayload : PayloadReference := ⟨exampleToken, some 0, none, true, ⟨_, rfl⟩⟩

def emptyPayloadStore : PayloadStore := { sources := [(str "p_a", 0)] }

theorem transferPayload_bounded_swallowing :
    ∃ result p' calls, transferPayload swallowingSource swallowingEnvironment exampleHasher 1
        (.reference emptyPayload) (.int 4) ⟨emptyPayloadStore, (), []⟩ = some (result, p') ∧
      p'.trace = [] ++ calls ∧ HostileBounds 0 4 calls ∧
      (DeniesShort calls result ∨ Swallowed swallowingSource calls (some partialWrite)) :=
  transferPayload_bounded ⟨emptyPayloadStore, (), []⟩ rfl rfl (by decide) (by decide) (by decide)

/-- A sink that took no byte of a chunk, and the identity of the empty content. -/
theorem not_deniesShort_swallowing :
    ¬ ∃ result p', transferPayload swallowingSource swallowingEnvironment exampleHasher 1
        (.reference emptyPayload) (.int 4) ⟨emptyPayloadStore, (), []⟩ = some (result, p') ∧
      DeniesShort p'.trace result := by
  rintro ⟨result, p', h, hdenies⟩
  cases h
  exact hdenies (.write [97, 98, 99] (.ok (some 0))) (by simp) (show (0 : Int) ≠ 3 by decide) _ rfl

end ObjectCommon
