import ObjectCommon.ClientContracts
import ObjectCommon.Testing.Runner

/-!
# A target that answers from a script

* `bytesStreams` : factories that open a new `BytesIO` on a content;
* `scriptedTarget` : a target whose answer depends on how often it was called;
* `fixtureHarness` : a run against the answers that an Object store gives for the fixture.
-/

namespace ObjectCommon

open Outcome PyError

/-! ## Streams and answers -/

/-- How often the target was called, and what the streams that were opened still give. -/
structure ScriptedWorld where
  executed : Nat := 0
  streams : List Bytes := []

/-- `lambda: BytesIO(content)` for the content of each factory -/
def bytesStreams (content : FactoryId → Bytes) : StreamEnvironment ScriptedWorld where
  read stream size w :=
    let rest := w.streams.getD stream []
    (.ok (.bytes (rest.take size)), { w with streams := w.streams.set stream (rest.drop size) })
  factory factory w := (.ok (some w.streams.length), { w with streams := w.streams ++ [content factory] })
  close _ w := (.ok (), w)
  enter _ w := (.error (.builtin .attributeError "no context manager"), w)
  exit _ _ w := (.ok false, w)

/-- An answer for each call, with the payloads it registers. -/
abbrev Script := Nat → PayloadStore → Py JsonMapping × PayloadStore

/-- A target that answers from a script. -/
def scriptedTarget (script : Script) : ConformanceTarget ScriptedWorld where
  targetId w := ("scripted-target/1.0", w)
  reset w := { w with executed := 0 }
  execute _ store w :=
    let (answer, store) := script w.executed store
    (answer, store, { w with executed := w.executed + 1 })

/-! ## The fixture in a store -/

/-- Bytes 2 to 9 of the fixture. -/
def rangePayload : Bytes := (fixturePayload.take 10).drop 2

def fixtureHex : Str := "233983621d50dc1e8e17cc5726db525036170687d14970341ce4c0bd0e8e1e5c"

/-- The SHA-256 digests of the fixture, of its range, and of its first 20 and its other bytes. -/
def fixtureHexdigests : List (Bytes × Str) :=
  [(fixturePayload, fixtureHex), (rangePayload, "8bd130297ccf180d130a4626488b45890c516265bf1278225b0ed7c1dab57cc9"),
    (fixturePayload.take 20, "10d8a385705371fb39a3d46d9a0f013d4ffe85267ad2ffbc50503b023d9cdd8b"),
    (fixturePayload.drop 20, "12604d3782f62946bbd028dbab1bff3c8b0629f08dbb4fec8fc34bcae6943c61")]

theorem digestRe_fixtureHexdigests : ∀ entry ∈ fixtureHexdigests, digestRe (str "sha256:" ++ entry.2) = true := by
  decide +kernel

def fixtureDigest : Digest := ⟨str "sha256:" ++ fixtureHex, by decide +kernel⟩

open Contracts in
/-- The metadata of the stored fixture. -/
def fixtureMetadata : Metadata where
  objectRef := ⟨
    { namespaceName := ⟨"conformance", by decide⟩
      name := fixture.name
      objectId := ⟨fixtureObjectId, by decide, ⟨18, by decide, by decide⟩, by decide⟩
      digest := some fixtureDigest }, rfl⟩
  digest := fixtureDigest
  byteLength := fixturePayload.length
  mediaType := "application/octet-stream"
  createdAt := "2026-08-25T00:00:00.000000Z"
  creationContext := []
  userMetadata := ⟨[("fixture", .str "v1")], by simp [Json.str?]⟩
  mutability := ⟨"immutable", List.mem_cons_self⟩
  provenance := []

def fixtureDocument : Json := .obj (Contracts.metadataToDict fixtureMetadata)

theorem fixtureDocument_wellFormed : fixtureDocument.WellFormed := by
  have hempty : Json.WellFormed (.obj []) := .obj (by simp) (by simp)
  have hstrings : Json.WellFormed (.obj [("fixture", .str "v1")]) := .obj (by simp) (by simp [Json.WellFormed.str])
  have hreference := Contracts.referenceToDict_wellFormed fixtureMetadata.objectRef.val
  refine .obj (by simp [Contracts.metadataToDict]) ?_
  simp only [Contracts.metadataToDict, List.forall_mem_cons, List.not_mem_nil, false_imp_iff, implies_true, and_true]
  exact ⟨.str _, hreference, .str _, .int _, .str _, .str _, hempty, hstrings, .str _, hempty⟩

/-- The payload of a get. -/
def getReference : PayloadReference :=
  ⟨⟨"p_get", by decide⟩, some fixturePayload.length, some fixtureDigest, true, ⟨_, rfl⟩⟩

/-- The payload of a range read. -/
def rangeReference : PayloadReference := ⟨⟨"p_range", by decide⟩, some rangePayload.length, none, true, ⟨_, rfl⟩⟩

def resolvedFixtureRange : Object :=
  [("start", .int 2), ("end", .int 9), ("length", .int rangePayload.length),
    ("totalLength", .int fixturePayload.length)]

theorem resolvedFixtureRange_wellFormed : Json.WellFormed (.obj resolvedFixtureRange) :=
  .obj (by simp [resolvedFixtureRange]) (by simp [resolvedFixtureRange, Json.WellFormed.int])

def metadataAnswer : JsonMapping :=
  ⟨[("metadata", fixtureDocument)], .obj (by simp) (by simpa using fixtureDocument_wellFormed)⟩

def getAnswer : JsonMapping :=
  ⟨[("metadata", fixtureDocument), ("payload", .obj getReference.toDict)], .obj (by simp) (by
    simpa using ⟨fixtureDocument_wellFormed, getReference.toDict_wellFormed⟩)⟩

def rangeAnswer : JsonMapping :=
  ⟨[("metadata", fixtureDocument), ("payload", .obj rangeReference.toDict), ("range", .obj resolvedFixtureRange)],
    .obj (by simp) (by
      simpa using ⟨fixtureDocument_wellFormed, rangeReference.toDict_wellFormed, resolvedFixtureRange_wellFormed⟩)⟩

def listAnswer : JsonMapping :=
  ⟨[("items", .arr [fixtureDocument]), ("cursor", .null)], .obj (by simp) (by
    simpa [Json.WellFormed.null] using Json.WellFormed.arr (by simpa using fixtureDocument_wellFormed))⟩

def deleteAnswer : JsonMapping := ⟨[("deleted", .bool true)], .obj (by simp) (by simp [Json.WellFormed.bool])⟩

/-- The answers of a store that holds the fixture until it is deleted. -/
def fixtureScript : Script
  | 0, store => (.ok metadataAnswer, store)
  | 1, store => (.ok metadataAnswer, store)
  | 2, store => (.ok getAnswer, registerSection store getReference 0)
  | 3, store => (.ok rangeAnswer, registerSection store rangeReference 1)
  | 4, store => (.ok listAnswer, store)
  | 5, store => (.error (.meridian .conditionalConflict "the Object precondition did not match" none), store)
  | 6, store => (.error DigestMismatch, store)
  | 7, store => (.ok deleteAnswer, store)
  | _, store => (.error (.meridian .notFound "the logical Object was not found" none), store)

/-- A run against the script: source 1 gives the range, the others the whole fixture. -/
def fixtureHarness : Harness ScriptedWorld where
  target := scriptedTarget fixtureScript
  heap source := .factory source true
  streams := bytesStreams fun factory => if factory = 1 then rangePayload else fixturePayload
  hasher := .retaining (listedDigest fixtureHexdigests)
  bufferLimit := 64
  fixtureSource n := n + 2
  fixtureSource_factory n := ⟨n + 2, rfl⟩
  generated n := str "fixture" ++ List.replicate n (codePoint 'x')

end ObjectCommon
