import ObjectCommon.Payloads.Transfer

/-!
# Incremental SHA-256 content identity

* `Hasher.Sha256` : what is relied on of `hashlib.sha256` : updates take the chunks of a content in any
  split, and a hexadecimal digest has 64 digits;
* `Hasher.identity` : the identity of a content;
* `Sha256Accumulator` : the accumulator with its `update` and its `finish`;
* `finish_updates` : the identity it computes is the content's, whatever the chunks;
* `Hasher.retaining`, `listedDigest` : hashers that digest what they were given.
-/

namespace ObjectCommon

open Outcome PyError

namespace Hasher

/-- `hashlib.sha256(content).hexdigest()` -/
def sha256 (H : Hasher) (content : Bytes) : Str := H.hexdigest (H.update H.new content)

structure Sha256 (H : Hasher) : Prop where
  /-- Repeated updates are one update with the concatenation. -/
  incremental : ∀ chunks : List Bytes, H.hexdigest (chunks.foldl H.update H.new) = H.sha256 chunks.flatten
  hexdigest : ∀ s, digestRe (str "sha256:" ++ H.hexdigest s) = true

/-- The identity of a content. -/
def identity {H : Hasher} (hH : H.Sha256) (content : Bytes) : ContentIdentity :=
  ⟨⟨str "sha256:" ++ H.sha256 content, hH.hexdigest _⟩, content.length⟩

/-- The identity that `ContentIdentity` is given after updates with the chunks of a content. -/
theorem new_eq_identity {H : Hasher} (hH : H.Sha256) (chunks : List Bytes) :
    ContentIdentity.new (.str (str "sha256:" ++ H.hexdigest (chunks.foldl H.update H.new)))
      (.int chunks.flatten.length) = .ok (identity hH chunks.flatten) := by
  rw [hH.incremental]
  exact ContentIdentity.new_eq_ok.mpr ⟨rfl, rfl⟩

end Hasher

structure Sha256Accumulator (H : Hasher) where
  hasher : H.State
  length : Nat
  finished : Bool

namespace Sha256Accumulator

variable {H : Hasher}

def new : Sha256Accumulator H := ⟨H.new, 0, false⟩

/-- `RuntimeError("content identity accumulator is already finalized")` -/
def finalizedError : PyError := .builtin .runtimeError "content identity accumulator is already finalized"

def update (a : Sha256Accumulator H) (chunk : Bytes) : Py (Sha256Accumulator H) := do
  raiseIf a.finished finalizedError
  return { a with hasher := H.update a.hasher chunk, length := a.length + chunk.length }

/-- The accumulator stays finished, also when the digest is not the expected one. -/
def finish (a : Sha256Accumulator H) (expectedDigest : Option Str := none) :
    Py ContentIdentity × Sha256Accumulator H :=
  if a.finished then (.error finalizedError, a)
  else
    let result : Py ContentIdentity := do
      let identity ← ContentIdentity.new (.str (str "sha256:" ++ H.hexdigest a.hasher)) (.int a.length)
      raiseIf (∃ d ∈ expectedDigest, identity.digest.val ≠ d) DigestMismatch
      return identity
    (result, { a with finished := true })

/-- The accumulator after updates with some chunks. -/
theorem updates {chunks : List Bytes} {a : Sha256Accumulator H} (ha : a.finished = false) :
    chunks.foldlM update a = .ok ⟨chunks.foldl H.update a.hasher, a.length + chunks.flatten.length, false⟩ := by
  induction chunks generalizing a with
  | nil =>
    obtain ⟨s, n, b⟩ := a
    obtain rfl : b = false := ha
    rfl
  | cons chunk chunks ih =>
    have hupdate : a.update chunk = .ok { a with hasher := H.update a.hasher chunk, length := a.length + chunk.length } := by
      simp only [update, bind_eq_ok, exists_unit, raiseIf_eq_ok, pure_eq_ok, ha, Bool.false_eq_true, not_false_eq_true,
        and_self]
    rw [List.foldlM_cons, hupdate]
    refine (ih (a := { a with hasher := H.update a.hasher chunk, length := a.length + chunk.length }) ha).trans ?_
    simp [Nat.add_assoc]

/-- **The accumulator computes the identity of the content**, whatever chunks it comes in. -/
theorem finish_updates (hH : H.Sha256) (chunks : List Bytes) :
    ∃ a, chunks.foldlM update (new : Sha256Accumulator H) = .ok a ∧
      (a.finish).1 = .ok (Hasher.identity hH chunks.flatten) := by
  refine ⟨_, updates rfl, ?_⟩
  have hnew := Hasher.new_eq_identity hH chunks
  simp only [finish, new, Bool.false_eq_true, if_false, Nat.zero_add]
  rw [hnew]
  rfl

end Sha256Accumulator

/-! ## Hashers that retain their content -/

/-- A hasher that retains what it is given, and digests it at the end. -/
def Hasher.retaining (digest : Bytes → Str) : Hasher := ⟨Bytes, [], fun content chunk => content ++ chunk, digest⟩

theorem Hasher.retaining_sha256 {digest : Bytes → Str}
    (h : ∀ content, digestRe (str "sha256:" ++ digest content) = true) : (retaining digest).Sha256 where
  incremental chunks := by
    have hfold : chunks.foldl (retaining digest).update [] = [] ++ chunks.flatMap id :=
      List.foldl_append_eq_append (f := id)
    rw [List.flatMap_id] at hfold
    exact congrArg digest hfold
  hexdigest := h

/-- The digest of `abc`, or else that of the empty content. -/
def exampleDigest (content : Bytes) : Str :=
  if content = [97, 98, 99] then str "ba7816bf8f01cfea414140de5dae2223b00361a396177a9cb410ff61f20015ad"
  else str "e3b0c44298fc1c149afbf4c8996fb92427ae41e4649b934ca495991b7852b855"

theorem digestRe_exampleDigest (content : Bytes) : digestRe (str "sha256:" ++ exampleDigest content) = true := by
  unfold exampleDigest
  split <;> decide +kernel

/-- The digests of contents that are listed, and else that of the empty content. -/
def listedDigest (listed : List (Bytes × Str)) (content : Bytes) : Str :=
  (listed.lookup content).getD (exampleDigest [])

theorem digestRe_listedDigest {listed : List (Bytes × Str)}
    (h : ∀ entry ∈ listed, digestRe (str "sha256:" ++ entry.2) = true) (content : Bytes) :
    digestRe (str "sha256:" ++ listedDigest listed content) = true := by
  unfold listedDigest
  cases hlookup : listed.lookup content with
  | none => exact digestRe_exampleDigest []
  | some hex =>
    obtain ⟨before, after, hsplit, -⟩ := List.lookup_eq_some_iff.mp hlookup
    exact h (content, hex) (by rw [hsplit]; simp)

def exampleHasher : Hasher := .retaining exampleDigest

theorem exampleHasher_sha256 : exampleHasher.Sha256 := Hasher.retaining_sha256 digestRe_exampleDigest

end ObjectCommon
