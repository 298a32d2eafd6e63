import ObjectCommon.Metadata
import ObjectCommon.Payloads.Registry

/-!
# Streaming a payload to a sink

The streams, the sink, the factories and the cancellation callback are the caller's: `Environment` says
what each call of them does to the world outside, and `Process.trace` is the list of these calls.

* `withPayload` : `with registry.open(parsed) as stream`, whose body may raise;
* `transferChunks` : the loop over the chunks of the stream; `fuel` bounds its rounds, and a result is
  what the loop ends with however many are allowed;
* `transferPayload` : `transfer_payload`;
* `transferPayload_declared` : an identity that it returns is the one declared.
-/

namespace ObjectCommon

open Outcome PyError

def defaultChunkSize : Nat := 1024 * 1024

def maxChunkSize : Nat := 16 * 1024 * 1024

/-! ## The world outside -/

/-- What `stream.read` returns: a bytes-like object with its content, or another object and whether it
compares equal to `b""`. -/
inductive Chunk where
  | bytes (raw : Bytes)
  | other (equalsEmpty : Bool)

/-- What the caller's objects do. A factory's result is its stream, or an object without `read`; a count
that `write` returns is the value or `None`. The context manager of another source enters with a stream,
and may swallow the exception it exits with. -/
structure Environment (W : Type) where
  read : StreamId → Nat → W → Py Chunk × W
  write : Bytes → W → Py (Option Int) × W
  cancelled : Option (W → Py Bool × W)
  factory : FactoryId → W → Py (Option StreamId) × W
  close : StreamId → W → Py Unit × W
  enter : Nat → W → Py StreamId × W
  exit : Nat → Option PyError → W → Py Bool × W

/-- A call of one of the caller's objects, with what it returned or raised. -/
inductive Action where
  | read (stream : StreamId) (size : Nat) (result : Py Chunk)
  | write (chunk : Bytes) (result : Py (Option Int))
  | cancelled (result : Py Bool)
  | factory (factory : FactoryId) (result : Py (Option StreamId))
  | close (stream : StreamId) (result : Py Unit)
  | enter (object : Nat) (result : Py StreamId)
  | exit (object : Nat) (raised : Option PyError) (result : Py Bool)

/-- What the locks protect, the world outside, and the calls made. -/
structure Process (W : Type) where
  store : PayloadStore
  world : W
  trace : List Action := []

variable {W : Type}

/-- Call an object of the caller. -/
def Process.call {α : Type} (p : Process W) (f : W → α × W) (action : α → Action) : α × Process W :=
  let (result, world) := f p.world
  (result, { p with world := world, trace := p.trace ++ [action result] })

/-- `hashlib.sha256` -/
structure Hasher where
  State : Type
  new : State
  update : State → Bytes → State
  hexdigest : State → Str

/-- The `hasher` and the `length` of `transfer_payload`. -/
structure Progress (H : Hasher) where
  hasher : H.State
  length : Nat

variable (heap : SourceId → PayloadSource) (env : Environment W) (H : Hasher)

/-! ## Opening and closing -/

/-- Enter `registry.open(parsed)`: the source opened, and its stream. -/
def enterPayload (parsed : PayloadReference) (p : Process W) : Py (SourceId × StreamId) × Process W :=
  let (opened, store) := openSection heap p.store parsed
  let p := { p with store := store }
  match opened with
  | .error e => (.error e, p)
  | .ok source =>
    let (result, store) := sourceSection heap p.store source
    let p := { p with store := store }
    match result with
    | .error e => (.error e, p)
    | .ok () =>
      match heap source with
      | .stream stream => (.ok (source, stream), p)
      | .factory factory _ =>
        match p.call (env.factory factory) (.factory factory) with
        | (.error e, p) => (.error e, p)
        | (.ok none, p) => (.error (typeError "payload factory must return a binary stream"), p)
        | (.ok (some stream), p) => (.ok (source, stream), p)
      | .other object _ =>
        match p.call (env.enter object) (.enter object) with
        | (.error e, p) => (.error e, p)
        | (.ok stream, p) => (.ok (source, stream), p)

/-- Exit the payload's context, with the exception of its body if any: whether that exception is
swallowed. A stream that the caller owns stays open. -/
def exitPayload (source : SourceId) (stream : StreamId) (raised : Option PyError) (p : Process W) :
    Py Bool × Process W :=
  match heap source with
  | .stream _ => (.ok false, p)
  | .factory _ _ =>
    match p.call (env.close stream) (.close stream) with
    | (.error e, p) => (.error e, p)
    | (.ok (), p) => (.ok false, p)
  | .other object _ => p.call (env.exit object raised) (.exit object raised)

/-- `with registry.open(parsed) as stream: body`; `σ` are the local variables that the body assigns. -/
def withPayload {σ : Type} (parsed : PayloadReference)
    (body : StreamId → σ → Process W → Option (Py Unit × σ × Process W)) (s : σ) (p : Process W) :
    Option (Py Unit × σ × Process W) :=
  match enterPayload heap env parsed p with
  | (.error e, p) => some (.error e, s, p)
  | (.ok (source, stream), p) =>
    (body stream s p).map fun
      | (.ok (), s, p) =>
        match exitPayload heap env source stream none p with
        | (.error e, p) => (.error e, s, p)
        | (.ok _, p) => (.ok (), s, p)
      | (.error e, s, p) =>
        match exitPayload heap env source stream (some e) p with
        | (.error e', p) => (.error e', s, p)
        | (.ok true, p) => (.ok (), s, p)
        | (.ok false, p) => (.error e, s, p)

/-! ## Chunks -/

/-- The checked `chunk_size` of `iter_payload_chunks`. -/
def chunkSizeOf (chunkSize : Json) : Py Nat := do
  let size ← positiveInt chunkSize "chunk size"
  raiseIf (maxChunkSize < size.val) (ObjectInvalidRequest "chunk size exceeds the 16777216-byte safety bound")
  return size.val

theorem chunkSizeOf_eq_ok {chunkSize : Json} {size : Nat} :
    chunkSizeOf chunkSize = .ok size ↔ chunkSize = .int size ∧ 0 < size ∧ size ≤ maxChunkSize := by
  simp only [chunkSizeOf, bind_eq_ok, positiveInt_eq_ok, exists_unit, raiseIf_eq_ok, pure_eq_ok, not_lt]
  constructor
  · rintro ⟨n, rfl, hle, rfl⟩
    exact ⟨rfl, n.property, hle⟩
  · rintro ⟨rfl, hpos, hle⟩
    exact ⟨⟨size, hpos⟩, rfl, hle, rfl⟩

/-- One round of `iter_payload_chunks`: the next chunk, none at the end of the stream. -/
def nextChunk (stream : StreamId) (size : Nat) (p : Process W) : Py (Option Bytes) × Process W :=
  match p.call (env.read stream size) (.read stream size) with
  | (.error e, p) => (.error e, p)
  | (.ok (.other true), p) => (.ok none, p)
  | (.ok (.other false), p) =>
    (.error (typeError "binary payload streams must return bytes-like chunks"), p)
  | (.ok (.bytes raw), p) =>
    if raw = [] then (.ok none, p)
    else if size < raw.length then
      (.error (ObjectInvalidRequest "payload stream returned more bytes than requested"), p)
    else (.ok (some raw), p)

/-- `if cancelled is not None and cancelled(): raise TransferCancelled()` -/
def checkCancelled (p : Process W) : Py Unit × Process W :=
  match env.cancelled with
  | none => (.ok (), p)
  | some cancelled =>
    match p.call cancelled .cancelled with
    | (.error e, p) => (.error e, p)
    | (.ok true, p) => (.error TransferCancelled, p)
    | (.ok false, p) => (.ok (), p)

/-- The body of the loop of `transfer_payload`. -/
def transferChunk (parsed : PayloadReference) (chunk : Bytes) (s : Progress H) (p : Process W) :
    Py Unit × Progress H × Process W :=
  match checkCancelled env p with
  | (.error e, p) => (.error e, s, p)
  | (.ok (), p) =>
    match p.call (env.write chunk) (.write chunk) with
    | (.error e, p) => (.error e, s, p)
    | (.ok written, p) =>
      if written ≠ none ∧ written ≠ some (chunk.length : Int) then
        (.error (IncompleteUpload "the payload sink accepted only part of a chunk"), s, p)
      else
        let s : Progress H := ⟨H.update s.hasher chunk, s.length + chunk.length⟩
        if ∃ n ∈ parsed.expectedLength, n < s.length then
          (.error (IncompleteUpload "the upload exceeded its declared length"), s, p)
        else (.ok (), s, p)

/-- `for chunk in iter_payload_chunks(stream, chunk_size=chunk_size): ...` -/
def transferChunks (parsed : PayloadReference) (stream : StreamId) (size : Nat) :
    Nat → Progress H → Process W → Option (Py Unit × Progress H × Process W)
  | 0, _, _ => none
  | fuel + 1, s, p =>
    match nextChunk env stream size p with
    | (.error e, p) => some (.error e, s, p)
    | (.ok none, p) => some (.ok (), s, p)
    | (.ok (some chunk), p) =>
      match transferChunk env H parsed chunk s p with
      | (.error e, s, p) => some (.error e, s, p)
      | (.ok (), s, p) => transferChunks parsed stream size fuel s p

/-- The body of the `with` of `transfer_payload`. -/
def transferStream (fuel : Nat) (parsed : PayloadReference) (chunkSize : Json) (stream : StreamId)
    (s : Progress H) (p : Process W) : Option (Py Unit × Progress H × Process W) :=
  match chunkSizeOf chunkSize with
  | .error e => some (.error e, s, p)
  | .ok size => transferChunks env H parsed stream size fuel s p

/-! ## Transfer -/

/-- The identity of what was transferred, if it is the one declared. -/
def verifyTransfer (parsed : PayloadReference) (s : Progress H) : Py ContentIdentity := do
  raiseIf (∃ n ∈ parsed.expectedLength, s.length ≠ n) (IncompleteUpload)
  let observed := str "sha256:" ++ H.hexdigest s.hasher
  raiseIf (∃ d ∈ parsed.expectedDigest, observed ≠ d.val) DigestMismatch
  ContentIdentity.new (.str observed) (.int s.length)

/-- `transfer_payload` -/
def transferPayload (fuel : Nat) (reference : PayloadReferenceValue) (chunkSize : Json) (p : Process W) :
    Option (Py ContentIdentity × Process W) :=
  match parsePayloadReference reference with
  | .error e => some (.error e, p)
  | .ok parsed =>
    (withPayload heap env parsed (transferStream env H fuel parsed chunkSize) ⟨H.new, 0⟩ p).map fun
      | (.error e, _, p) => (.error e, p)
      | (.ok (), s, p) => (verifyTransfer H parsed s, p)

/-! ## Declared integrity inputs -/

variable {heap env H}

theorem verifyTransfer_eq_ok {parsed : PayloadReference} {s : Progress H} {i : ContentIdentity} :
    verifyTransfer H parsed s = .ok i ↔
      (∀ n ∈ parsed.expectedLength, i.byteLength = n) ∧ (∀ d ∈ parsed.expectedDigest, i.digest = d) ∧
        i.digest.val = str "sha256:" ++ H.hexdigest s.hasher ∧ i.byteLength = s.length := by
  simp only [verifyTransfer, bind_eq_ok, exists_unit, raiseIf_eq_ok, not_exists, not_and, not_not,
    ContentIdentity.new_eq_ok, Json.str.injEq, Json.int.injEq, Nat.cast_inj]
  constructor
  · rintro ⟨hn, hd, ho, hl⟩
    exact ⟨fun n h => hl.symm.trans (hn n h), fun d h => Subtype.ext (ho.symm.trans (hd d h)), ho.symm, hl.symm⟩
  · rintro ⟨hn, hd, ho, hl⟩
    refine ⟨fun n h => hl.symm.trans (hn n h), fun d h => ?_, ho.symm, hl.symm⟩
    rw [← ho, hd d h]

/-- **An identity that `transfer_payload` returns is the one declared**, whatever the registry, the
stream, the chunk size and the sink do. -/
theorem transferPayload_declared {fuel : Nat} {reference : PayloadReferenceValue} {chunkSize : Json}
    {p p' : Process W} {i : ContentIdentity}
    (h : transferPayload heap env H fuel reference chunkSize p = some (.ok i, p')) {parsed : PayloadReference}
    (hparsed : parsePayloadReference reference = .ok parsed) :
    (∀ d ∈ parsed.expectedDigest, i.digest = d) ∧ ∀ n ∈ parsed.expectedLength, i.byteLength = n := by
  rw [transferPayload, hparsed] at h
  obtain ⟨⟨result, s, q⟩, -, hres⟩ := Option.map_eq_some_iff.mp h
  cases result with
  | error e => cases hres
  | ok u =>
    obtain ⟨hn, hd, -⟩ := verifyTransfer_eq_ok.mp (Prod.mk.inj hres).1
    exact ⟨hd, hn⟩

end ObjectCommon
