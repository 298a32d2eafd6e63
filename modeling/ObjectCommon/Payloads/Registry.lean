import ObjectCommon.Payloads.Reference

/-!
# Payload sources and their registry

A source object is an identity in `heap`, which gives its class and its constant attributes; what the
locks protect is in `PayloadStore`. Each section that holds a lock is one function here.

* `PayloadSource` : the two source classes, and any other object with the source contract;
* `PayloadStore` : the registered sources, and the sources whose one-shot flag is set;
* `registerSection`, `openSection`, `releaseSection` : the sections of `PayloadRegistry`;
* `sourceSection` : the section of a source's `open`.
-/

namespace ObjectCommon

open Outcome PyError

abbrev StreamId := Nat

abbrev FactoryId := Nat

abbrev SourceId := Nat

/-- A payload source: `StreamPayloadSource`, `FactoryPayloadSource` or another class. -/
inductive PayloadSource where
  | stream (stream : StreamId)
  | factory (factory : FactoryId) (replayable : Bool)
  | other (object : Nat) (replayable : Bool)
  deriving DecidableEq

namespace PayloadSource

/-- `source.replayable` -/
def replayable : PayloadSource → Bool
  | .stream _ => false
  | .factory _ replayable => replayable
  | .other _ replayable => replayable

/-- A source that this package opens once. -/
def OneShot : PayloadSource → Prop
  | .stream _ => True
  | .factory _ replayable => replayable = false
  | .other _ _ => False

end PayloadSource

/-- What the locks protect: `_sources` of the registry, and the sources whose `_consumed` or `_opened`
flag is set. -/
structure PayloadStore where
  sources : Dict Str SourceId := []
  opened : List SourceId := []

/-- What `PayloadRegistry.open` and `transfer_payload` are given. -/
inductive PayloadReferenceValue where
  | reference (r : PayloadReference)
  | document (value : Object)

/-- `reference if isinstance(reference, PayloadReference) else PayloadReference.from_mapping(reference)` -/
def parsePayloadReference : PayloadReferenceValue → Py PayloadReference
  | .reference r => .ok r
  | .document value => PayloadReference.fromMapping value

variable (heap : SourceId → PayloadSource)

/-! ## Registration -/

/-- The reference that `register` returns; `generated` is what `secrets.token_urlsafe(32)` returns. -/
def registerReference (source : SourceId) (generated : Str) (expectedLength expectedDigest : Json) :
    Py PayloadReference :=
  PayloadReference.new (.str (str "p_" ++ generated)) expectedLength expectedDigest
    (.bool (heap source).replayable)

/-- `self._sources[reference.token] = source` -/
def registerSection (store : PayloadStore) (reference : PayloadReference) (source : SourceId) : PayloadStore :=
  { store with sources := Dict.set store.sources reference.token.val source }

/-! ## Opening -/

/-- The locked section of `PayloadRegistry.open`. -/
def openSection (store : PayloadStore) (parsed : PayloadReference) : Py SourceId × PayloadStore :=
  match Dict.get? store.sources parsed.token.val with
  | none => (.error PayloadUnavailable, store)
  | some source =>
    if (heap source).replayable ≠ parsed.replayable then
      (.error (PayloadUnavailable "payload reference replayability does not match its source"), store)
    else if (heap source).replayable = false then
      (.ok source, { store with sources := Dict.pop store.sources parsed.token.val })
    else (.ok source, store)

/-- The locked section of a source's `open`. -/
def sourceSection (store : PayloadStore) (source : SourceId) : Py Unit × PayloadStore :=
  match heap source with
  | .stream _ =>
    if source ∈ store.opened then
      (.error (PayloadUnavailable "the non-replayable payload was already opened"), store)
    else (.ok (), { store with opened := source :: store.opened })
  | .factory _ replayable =>
    if replayable = false ∧ source ∈ store.opened then
      (.error (PayloadUnavailable "the non-replayable payload factory was already opened"), store)
    else (.ok (), { store with opened := source :: store.opened })
  | .other _ _ => (.ok (), store)

/-! ## Release -/

/-- `self._sources.pop(selected, None) is not None` -/
def releaseSection (store : PayloadStore) (selected : Token) : Bool × PayloadStore :=
  ((Dict.get? store.sources selected.val).isSome, { store with sources := Dict.pop store.sources selected.val })

/-- The token that `release` is given, as a reference or as a string. -/
def releaseToken : PayloadReference ⊕ Json → Py Token
  | .inl reference => token (.str reference.token.val) "payload token"
  | .inr selected => token selected "payload token"

end ObjectCommon
