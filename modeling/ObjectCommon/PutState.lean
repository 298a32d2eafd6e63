import ObjectCommon.Errors
import ObjectCommon.Library.Runs
import Mathlib.Data.List.Chain

/-!
# The put state machine

Any number of threads call `transition` and `fail`. A call reads the requested state before it takes
the lock; the section under the lock is one event.

* `PutStateMachine`, `transitionSection` : the machine and what a call does under its lock;
* `PutStep` : the events of the threads;
* `Path` : the histories that the allowed transitions permit;
* `path_run` : in every run the history is a path to the current state;
* `putStateMachine_safe` : what holds in every run.
-/

namespace ObjectCommon

open Outcome PyError Runs

/-! ## The machine -/

inductive PutState where
  | new
  | uploading
  | verifying
  | committed
  | aborted
  | orphanCandidate
  deriving DecidableEq

namespace PutState

def value : PutState → Str
  | .new => "NEW"
  | .uploading => "UPLOADING"
  | .verifying => "VERIFYING"
  | .committed => "COMMITTED"
  | .aborted => "ABORTED"
  | .orphanCandidate => "ORPHAN_CANDIDATE"

def all : List PutState := [.new, .uploading, .verifying, .committed, .aborted, .orphanCandidate]

/-- `_TRANSITIONS[state]` -/
def transitions : PutState → List PutState
  | .new => [.uploading, .aborted]
  | .uploading => [.verifying, .aborted, .orphanCandidate]
  | .verifying => [.committed, .aborted, .orphanCandidate]
  | .committed => []
  | .aborted => []
  | .orphanCandidate => []

/-- No transition leaves the state. -/
def Terminal (s : PutState) : Prop := s = .committed ∨ s = .aborted ∨ s = .orphanCandidate

end PutState

/-- What `transition` is given: a state, or any string. -/
inductive RequestedState where
  | state (s : PutState)
  | text (s : Str)

/-- `PutState(state)` -/
def putState : RequestedState → Py PutState
  | .state s => .ok s
  | .text text =>
    match PutState.all.find? fun s => s.value = text with
    | some s => .ok s
    | none => .error (valueError [.repr text, .text " is not a valid PutState"])

structure PutStateMachine where
  state : PutState := .new
  history : List PutState := [.new]

/-- `transition` under the lock. -/
def transitionSection (m : PutStateMachine) (requested : PutState) : Py PutState × PutStateMachine :=
  if requested ∉ m.state.transitions then
    (.error (ObjectInvalidRequest
      [.text (str "invalid Object put transition " ++ m.state.value ++ str "->" ++ requested.value)]
      (some "meridian.object.put")), m)
  else (.ok requested, { state := requested, history := m.history ++ [requested] })

/-- The state that `fail` requests. -/
def failTarget (physicalCommitPossible : Bool) : PutState :=
  if physicalCommitPossible then .orphanCandidate else .aborted

inductive PutCall where
  | transition (state : RequestedState)
  | fail (physicalCommitPossible : Bool)

def PutCall.requested : PutCall → RequestedState
  | .transition state => state
  | .fail physicalCommitPossible => .state (failTarget physicalCommitPossible)

/-! ## Runs -/

/-- A call that asks for no state, a call that has read its state and waits for the lock, and the
section under the lock, with what the call returns or raises. -/
inductive PutEvent where
  | rejected (thread : Nat) (call : PutCall) (error : PyError)
  | waiting (thread : Nat) (call : PutCall)
  | locked (thread : Nat) (result : Py PutState)

/-- What a call that ends in the event returns or raises. -/
def PutEvent.result? : PutEvent → Option (Py PutState)
  | .rejected _ _ error => some (.error error)
  | .waiting _ _ => none
  | .locked _ result => some result

/-- The machine, and for each thread the state that its call is about to ask for. -/
structure PutThreads where
  machine : PutStateMachine := {}
  pending : Nat → Option PutState := fun _ => none

inductive PutStep : PutThreads → PutEvent → PutThreads → Prop
  | rejected {s : PutThreads} {thread : Nat} {call : PutCall} {error : PyError} (idle : s.pending thread = none)
      (raised : putState call.requested = .error error) : PutStep s (.rejected thread call error) s
  | waiting {s : PutThreads} {thread : Nat} {call : PutCall} {requested : PutState} (idle : s.pending thread = none)
      (read : putState call.requested = .ok requested) :
      PutStep s (.waiting thread call) { s with pending := Function.update s.pending thread (some requested) }
  | locked {s : PutThreads} {thread : Nat} {requested : PutState} (next : s.pending thread = some requested) :
      PutStep s (.locked thread (transitionSection s.machine requested).1)
        { machine := (transitionSection s.machine requested).2, pending := Function.update s.pending thread none }

/-- What an event does to the machine: nothing, or an allowed transition that the call returns. -/
theorem PutStep.cases_machine {s s' : PutThreads} {e : PutEvent} (h : PutStep s e s') :
    (s'.machine = s.machine ∧ ∀ t, e.result? ≠ some (.ok t)) ∨
      ∃ t ∈ s.machine.state.transitions, e.result? = some (.ok t) ∧
        s'.machine = { state := t, history := s.machine.history ++ [t] } := by
  cases h with
  | rejected idle raised => exact Or.inl ⟨rfl, by simp [PutEvent.result?]⟩
  | waiting idle read => exact Or.inl ⟨rfl, by simp [PutEvent.result?]⟩
  | @locked thread requested next =>
    unfold transitionSection
    by_cases ht : requested ∈ s.machine.state.transitions
    · right
      refine ⟨requested, ht, ?_⟩
      rw [if_neg (not_not.mpr ht)]
      exact ⟨rfl, rfl⟩
    · left
      rw [if_pos ht]
      exact ⟨rfl, by simp [PutEvent.result?]⟩

/-! ## Paths -/

/-- The histories that the allowed transitions permit, and the states they end in. -/
inductive Path : List PutState → PutState → Prop
  | new : Path [.new] .new
  | step {l : List PutState} {s t : PutState} (path : Path l s) (allowed : t ∈ s.transitions) : Path (l ++ [t]) t

namespace Path

variable {l : List PutState} {s t : PutState}

theorem head (h : Path l s) : l.head? = some .new := by
  induction h with
  | new => rfl
  | step path allowed ih => rw [List.head?_append, ih, Option.some_or]

theorem last (h : Path l s) : l.getLast? = some s := by
  cases h with
  | new => rfl
  | step path allowed => exact List.getLast?_concat

theorem chain (h : Path l s) : l.IsChain fun a b => b ∈ a.transitions := by
  induction h with
  | new => exact List.IsChain.singleton _
  | @step l s t path allowed ih =>
    refine ih.append (List.IsChain.singleton _) fun a ha b hb => ?_
    rw [path.last, Option.mem_some_iff] at ha
    rw [List.head?_cons, Option.mem_some_iff] at hb
    subst ha hb
    exact allowed

theorem of_new (h : Path l .new) : l = [.new] := by
  cases h with
  | new => rfl
  | @step l s _ path allowed => cases s <;> simp [PutState.transitions] at allowed

theorem of_uploading (h : Path l .uploading) : l = [.new, .uploading] := by
  cases h with
  | @step l s _ path allowed =>
    cases s <;> simp [PutState.transitions] at allowed
    rw [path.of_new]
    rfl

theorem of_verifying (h : Path l .verifying) : l = [.new, .uploading, .verifying] := by
  cases h with
  | @step l s _ path allowed =>
    cases s <;> simp [PutState.transitions] at allowed
    rw [path.of_uploading]
    rfl

/-- An Object is committed only after its upload was verified. -/
theorem of_committed (h : Path l .committed) : l = [.new, .uploading, .verifying, .committed] := by
  cases h with
  | @step l s _ path allowed =>
    cases s <;> simp [PutState.transitions] at allowed
    rw [path.of_verifying]
    rfl

/-- The orphan state is entered from an upload. -/
theorem orphan_of_append (h : Path l s) {before after : List PutState}
    (hl : l = before ++ .orphanCandidate :: after) : PutState.uploading ∈ before := by
  induction h generalizing after with
  | new => simp [List.cons_eq_append_iff] at hl
  | @step l s t path allowed ih =>
    rcases List.eq_nil_or_concat after with rfl | ⟨after', x, rfl⟩
    · obtain ⟨rfl, ht⟩ := List.append_inj' hl rfl
      obtain rfl : t = .orphanCandidate := by simpa using ht
      cases s with
      | uploading => simp [path.of_uploading]
      | verifying => simp [path.of_verifying]
      | _ => simp [PutState.transitions] at allowed
    · rw [List.concat_eq_append, ← List.cons_append, ← List.append_assoc] at hl
      exact ih (List.append_inj' hl rfl).1

end Path

/-- How far a put has come. -/
def PutState.rank : PutState → Nat
  | .new => 0
  | .uploading => 1
  | .verifying => 2
  | .committed => 3
  | .aborted => 3
  | .orphanCandidate => 3

theorem PutState.rank_lt {s t : PutState} (h : t ∈ s.transitions) : s.rank < t.rank := by
  cases s <;> cases t <;> simp [PutState.transitions, PutState.rank] at h ⊢

theorem Path.rank_le {l : List PutState} {s : PutState} (h : Path l s) : ∀ x ∈ l, x.rank ≤ s.rank := by
  induction h with
  | new => simp
  | step path allowed ih =>
    intro x hx
    rcases List.mem_append.mp hx with hx | hx
    · exact (ih x hx).trans (PutState.rank_lt allowed).le
    · rw [List.mem_singleton.mp hx]

/-- No state is entered twice. -/
theorem Path.nodup {l : List PutState} {s : PutState} (h : Path l s) : l.Nodup := by
  induction h with
  | new => exact List.nodup_singleton _
  | step path allowed ih =>
    refine List.nodup_append.mpr ⟨ih, List.nodup_singleton _, fun a ha b hb => ?_⟩
    have hle := path.rank_le a ha
    have hlt := PutState.rank_lt allowed
    rintro rfl
    rw [List.mem_singleton.mp hb] at hle
    omega

/-! ## Safety -/

/-- The history of a put. -/
structure PutStateMachine.Safe (m : PutStateMachine) : Prop where
  starts : m.history.head? = some .new
  allowed : m.history.IsChain fun a b => b ∈ a.transitions
  current : m.history.getLast? = some m.state
  nodup : m.history.Nodup
  committed : m.state = .committed → m.history = [.new, .uploading, .verifying, .committed]
  orphan : ∀ before after, m.history = before ++ .orphanCandidate :: after → PutState.uploading ∈ before

/-- Every event takes a path to the current state to another. -/
theorem PutStep.path {s s' : PutThreads} {e : PutEvent} (h : Path s.machine.history s.machine.state)
    (hstep : PutStep s e s') : Path s'.machine.history s'.machine.state := by
  rcases hstep.cases_machine with ⟨hm, -⟩ | ⟨t, ht, -, hm⟩
  · rw [hm]
    exact h
  · rw [hm]
    exact h.step ht

theorem path_run {es : List PutEvent} {s : PutThreads} (run : Run PutStep {} es s) :
    Path s.machine.history s.machine.state :=
  run.keep (I := fun s => Path s.machine.history s.machine.state) (fun _ _ _ h hstep => hstep.path h) .new

theorem Path.safe {m : PutStateMachine} (h : Path m.history m.state) : m.Safe where
  starts := h.head
  allowed := h.chain
  current := h.last
  nodup := h.nodup
  committed hm := by
    rw [hm] at h
    exact h.of_committed
  orphan _ _ hl := h.orphan_of_append hl

/-- In a terminal state every call raises, and the state stays. -/
theorem PutStep.terminal {s s' : PutThreads} {e : PutEvent} (h : s.machine.state.Terminal) (hstep : PutStep s e s') :
    s'.machine = s.machine ∧ ∀ t, e.result? ≠ some (.ok t) := by
  rcases hstep.cases_machine with hm | ⟨t, ht, -, -⟩
  · exact hm
  · rcases h with h | h | h <;> simp [h, PutState.transitions] at ht

theorem terminal_run {es : List PutEvent} {s s' : PutThreads} (h : s.machine.state.Terminal)
    (run : Run PutStep s es s') : s'.machine = s.machine ∧ ∀ e ∈ es, ∀ t, e.result? ≠ some (.ok t) := by
  refine run.invariant (P := fun es s' => s'.machine = s.machine ∧ ∀ e ∈ es, ∀ t, e.result? ≠ some (.ok t))
    ⟨rfl, by simp⟩ ?_
  rintro es x e y ⟨hx, hes⟩ hstep
  obtain ⟨hy, he⟩ := hstep.terminal (hx ▸ h)
  exact ⟨hy.trans hx, List.forall_mem_append.mpr ⟨hes, by simpa using he⟩⟩

/-- **The put state machine is safe over whole runs**: its history is safe, no call after a terminal state
returns, and a call that raises changes nothing. -/
theorem putStateMachine_safe {es : List PutEvent} {s : PutThreads} (run : Run PutStep {} es s) :
    s.machine.Safe ∧
      (∀ es' s', s.machine.state.Terminal → Run PutStep s es' s' → s'.machine = s.machine ∧
        ∀ e ∈ es', ∀ result, e.result? = some result → ∃ error, result = .error error) ∧
      ∀ e s' error, PutStep s e s' → e.result? = some (.error error) → s'.machine = s.machine := by
  refine ⟨(path_run run).safe, fun es' s' h run' => ?_, fun e s' error hstep he => ?_⟩
  · obtain ⟨hm, hes⟩ := terminal_run h run'
    refine ⟨hm, fun e hmem result hresult => ?_⟩
    cases result with
    | error error => exact ⟨error, rfl⟩
    | ok t => exact absurd hresult (hes e hmem t)
  · rcases hstep.cases_machine with ⟨hm, -⟩ | ⟨t, -, ht, -⟩
    · exact hm
    · rw [he] at ht
      cases ht

/-- A call that reads its state and takes the lock. -/
theorem run_call {es : List PutEvent} {s : PutThreads} {requested : PutState} (t : Nat) (c : PutCall)
    (run : Run PutStep {} es s) (idle : s.pending t = none) (read : putState c.requested = .ok requested) :
    Run PutStep {} (es ++ [.waiting t c] ++ [.locked t (transitionSection s.machine requested).1])
      { machine := (transitionSection s.machine requested).2
        pending := Function.update (Function.update s.pending t (some requested)) t none } :=
  (run.snoc (.waiting idle read)).snoc (.locked (Function.update_self _ _ _))

/-- Two threads take a put to its commit. -/
theorem committed_run : ∃ es s, Run PutStep {} es s ∧ s.machine.state = .committed := by
  have h₁ := run_call 0 (.transition (.text "UPLOADING")) .nil rfl rfl
  have h₂ := run_call 1 (.transition (.state .verifying)) h₁ rfl rfl
  have h₃ := run_call 0 (.transition (.text "COMMITTED")) h₂ rfl rfl
  exact ⟨_, _, h₃, rfl⟩

theorem putStateMachine_safe_committed :
    ∃ es s, Run PutStep {} es s ∧ s.machine.history = [.new, .uploading, .verifying, .committed] := by
  obtain ⟨es, s, run, hs⟩ := committed_run
  exact ⟨es, s, run, (putStateMachine_safe run).1.committed hs⟩

end ObjectCommon
