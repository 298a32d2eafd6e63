import ObjectCommon.Codec.Digest
import ObjectCommon.Library.Runs

/-!
# The life of a content identity accumulator

An accumulator is updated and finished in any order.

* `Call`, `call`, `Calls` : a call, and the steps of an accumulator;
* `received`, `finalized` : the chunks that were taken before the first finish, and whether there was one;
* `answer` : what a call is answered after others;
* `accumulator_exact` : the answers of every run.
-/

namespace ObjectCommon

open Outcome PyError

namespace Sha256Accumulator

variable {H : Hasher} {hH : H.Sha256} {a a' : Sha256Accumulator H}

/-! ## Calls -/

inductive Call where
  | update (chunk : Bytes)
  | finish (expectedDigest : Option Str)

/-- A call, with what it returns or raises. -/
def call (a : Sha256Accumulator H) : Call → Py (Option ContentIdentity) × Sha256Accumulator H
  | .update chunk =>
    match a.update chunk with
    | .ok a' => (.ok none, a')
    | .error e => (.error e, a)
  | .finish expectedDigest =>
    let (result, a') := a.finish expectedDigest
    (result.map some, a')

/-- The steps of an accumulator. -/
def Calls (a : Sha256Accumulator H) (e : Call × Py (Option ContentIdentity)) (a' : Sha256Accumulator H) : Prop :=
  a.call e.1 = (e.2, a')

theorem call_finished (h : a.finished = true) (c : Call) : a.call c = (.error finalizedError, a) := by
  cases c with
  | update chunk =>
    unfold call update
    dsimp only
    rw [h]
    rfl
  | finish expectedDigest =>
    unfold call finish
    dsimp only
    rw [h]
    rfl

theorem call_update (h : a.finished = false) (chunk : Bytes) :
    a.call (.update chunk) = (.ok none, ⟨H.update a.hasher chunk, a.length + chunk.length, false⟩) := by
  obtain ⟨hasher, length, finished⟩ := a
  obtain rfl : finished = false := h
  rfl

theorem call_finish (h : a.finished = false) (expectedDigest : Option Str) :
    a.call (.finish expectedDigest) = ((do
      let identity ← ContentIdentity.new (.str (str "sha256:" ++ H.hexdigest a.hasher)) (.int a.length)
      raiseIf (∃ d ∈ expectedDigest, identity.digest.val ≠ d) DigestMismatch
      return identity : Py ContentIdentity).map some, { a with finished := true }) := by
  unfold call finish
  dsimp only
  rw [h]
  rfl

/-! ## Histories -/

/-- The chunks taken before the first finish. -/
def received : List Call → List Bytes
  | .update chunk :: calls => chunk :: received calls
  | _ => []

/-- A finish is among the calls. -/
def finalized : List Call → Bool
  | .update _ :: calls => finalized calls
  | .finish _ :: _ => true
  | [] => false

theorem finalized_append (calls calls' : List Call) : finalized (calls ++ calls') = (finalized calls || finalized calls') := by
  induction calls with
  | nil => rfl
  | cons c calls ih =>
    cases c with
    | update chunk => exact ih
    | finish d => rfl

/-- What comes after a finish is not taken. -/
theorem received_append (calls calls' : List Call) :
    received (calls ++ calls') = received calls ++ if finalized calls then [] else received calls' := by
  induction calls with
  | nil => rfl
  | cons c calls ih =>
    cases c with
    | update chunk => exact congrArg (chunk :: ·) ih
    | finish d => rfl

variable (hH) in
/-- **What a call is answered after others.** -/
def answer (calls : List Call) (c : Call) : Py (Option ContentIdentity) :=
  if finalized calls then .error finalizedError
  else
    match c with
    | .update _ => .ok none
    | .finish expectedDigest =>
      let identity := Hasher.identity hH (received calls).flatten
      if ∃ d ∈ expectedDigest, identity.digest.val ≠ d then .error DigestMismatch else .ok (some identity)

/-- The accumulator holds what it took. -/
structure Holds (calls : List Call) (a : Sha256Accumulator H) : Prop where
  hasher : a.hasher = (received calls).foldl H.update H.new
  length : a.length = (received calls).flatten.length
  finished : a.finished = finalized calls

theorem Holds.step {calls : List Call} (hH : H.Sha256) (h : Holds calls a) (c : Call) :
    ∃ a', a.call c = (answer hH calls c, a') ∧ Holds (calls ++ [c]) a' := by
  have hreceived := received_append calls [c]
  have hfinalized := finalized_append calls [c]
  cases hf : finalized calls with
  | true =>
    rw [hf, if_pos rfl, List.append_nil] at hreceived
    rw [hf, Bool.true_or] at hfinalized
    refine ⟨a, ?_, by rw [h.hasher, hreceived], by rw [h.length, hreceived], by rw [h.finished, hf, hfinalized]⟩
    unfold answer
    rw [if_pos hf]
    exact call_finished (h.finished.trans hf) c
  | false =>
    have hopen := h.finished.trans hf
    rw [hf, if_neg Bool.false_ne_true] at hreceived
    rw [hf, Bool.false_or] at hfinalized
    unfold answer
    rw [if_neg (by rw [hf]; exact Bool.false_ne_true)]
    cases c with
    | update chunk =>
      refine ⟨_, call_update hopen chunk, ?_, ?_, hfinalized.symm⟩
      · rw [hreceived, List.foldl_append, h.hasher]
        rfl
      · rw [hreceived, List.flatten_append, List.length_append, h.length]
        simp [received]
    | finish d =>
      refine ⟨{ a with finished := true }, ?_, ?_, ?_, hfinalized.symm⟩
      · rw [call_finish hopen, h.hasher, h.length, Hasher.new_eq_identity hH, ok_bind]
        dsimp only
        unfold raiseIf
        split
        · rfl
        · rfl
      · rw [hreceived, h.hasher]
        exact congrArg _ (List.append_nil _).symm
      · rw [hreceived, h.length]
        exact congrArg _ (congrArg _ (List.append_nil _).symm)

/-! ## Runs -/

theorem run_holds (hH : H.Sha256) {es : List (Call × Py (Option ContentIdentity))} (h : Runs.Run Calls new es a) :
    Holds (es.map Prod.fst) a := by
  induction h with
  | nil => exact ⟨rfl, rfl, rfl⟩
  | @snoc es a e a' run last ih =>
    obtain ⟨a'', hcall, hholds⟩ := ih.step hH e.1
    obtain ⟨-, rfl⟩ := Prod.mk.inj (hcall.symm.trans last)
    rw [List.map_append]
    exact hholds

/-- The call returned an identity. -/
def identifies (e : Call × Py (Option ContentIdentity)) : Bool :=
  match e.2 with
  | .ok (some _) => true
  | _ => false

/-- **An accumulator computes one identity, of what it took before.** In every run of calls, each call is answered
from those before it: an update is taken and the first finish returns the identity of the content taken, or
`DigestMismatch` if another digest was expected; every later call raises and changes nothing. The length is that of
the content taken, and no two calls return an identity. -/
theorem accumulator_exact (hH : H.Sha256) {es : List (Call × Py (Option ContentIdentity))}
    (h : Runs.Run Calls new es a) :
    (∀ before c result after, es = before ++ (c, result) :: after → result = answer hH (before.map Prod.fst) c) ∧
      a.length = (received (es.map Prod.fst)).flatten.length ∧ es.countP identifies ≤ 1 := by
  refine ⟨?_, (run_holds hH h).length, ?_⟩
  · rintro before c result after rfl
    obtain ⟨a₁, a₂, hbefore, hcall, -⟩ := h.split
    obtain ⟨a', hanswer, -⟩ := (run_holds hH hbefore).step hH c
    exact (Prod.mk.inj (hcall.symm.trans hanswer)).1
  · refine h.countP_le_one (I := fun _ => True) (S := fun a => a.finished = true) (fun _ _ _ _ _ => trivial) ?_ ?_ trivial
    · rintro a ⟨c, result⟩ a' - hcall hidentity
      cases hf : a.finished with
      | true =>
        obtain ⟨rfl, -⟩ := Prod.mk.inj ((call_finished hf c).symm.trans hcall)
        cases hidentity
      | false =>
        cases c with
        | update chunk =>
          obtain ⟨rfl, -⟩ := Prod.mk.inj ((call_update hf chunk).symm.trans hcall)
          cases hidentity
        | finish d =>
          obtain ⟨-, rfl⟩ := Prod.mk.inj ((call_finish hf d).symm.trans hcall)
          rfl
    · rintro a ⟨c, result⟩ a' hfinished hcall
      obtain ⟨rfl, rfl⟩ := Prod.mk.inj ((call_finished hfinished c).symm.trans hcall)
      exact ⟨hfinished, rfl⟩

/-- A run goes on with any call. -/
theorem run_call {es : List (Call × Py (Option ContentIdentity))} (h : Runs.Run Calls (new : Sha256Accumulator H) es a)
    (c : Call) : Runs.Run Calls new (es ++ [(c, (a.call c).1)]) (a.call c).2 := h.snoc rfl

/-- The content `abc` in two chunks, and a call too many. -/
theorem accumulator_exact_abc : ∃ (a : Sha256Accumulator exampleHasher) (result : Py (Option ContentIdentity)),
    Runs.Run Calls new [(.update [97, 98], .ok none), (.update [99], .ok none), (.finish none, result),
      (.update [100], .error finalizedError)] a ∧
    result = .ok (some (Hasher.identity exampleHasher_sha256 [97, 98, 99])) := by
  have htaken := run_call (run_call (H := exampleHasher) .nil (.update [97, 98])) (.update [99])
  have hrun := run_call (run_call htaken (.finish none)) (.update [100])
  have hanswers := (accumulator_exact exampleHasher_sha256 hrun).1
  exact ⟨_, _, hrun, hanswers [(.update [97, 98], _), (.update [99], _)] _ _ _ rfl⟩

end Sha256Accumulator

end ObjectCommon
