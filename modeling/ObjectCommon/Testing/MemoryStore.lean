import ObjectCommon.Library.KeyedStore
import ObjectCommon.Testing.MemorySteps

/-!
# The in-memory target as a store

A client sees executions with their answers. Between them it may do anything to the registry and to its own world.

* `Execution`, `TargetEvent`, `TargetStep` : a request with its answer, and the steps of a target;
* `Execution.change` : what an answered request makes of a store of metadata by key;
* `Execution.Allowed` : what a store may answer that holds the metadata given, which is the specification;
* `Consistent` : every Object stored is intact;
* `Serves`, `execution_serves` : an execution keeps this, makes its change, and answers what is allowed;
* `run_contents` : after every run the target holds what the answers so far make of an empty store;
* `run_serves` : every answer is one that this store may give.
-/

namespace ObjectCommon

open Outcome PyError Routine KeyedStore MemoryObjectTarget

variable {T : StorePackages} {W : Type}

/-! ## Runs -/

/-- A request that was executed, with its answer. -/
structure Execution (T : StorePackages) where
  operation : Operation
  method : Str
  resource : ResourceRef
  request : Request T.toPackages
  asks : Asks operation method resource request
  answer : Py JsonMapping

inductive TargetEvent (T : StorePackages) where
  | executed (x : Execution T)
  | outside

/-- The steps of a target: it executes a request, or the client acts on the registry and on its own world. -/
inductive TargetStep (host : MemoryHost W) : TargetState T W → TargetEvent T → TargetState T W → Prop
  | executed {s s' : TargetState T W} {x : Execution T} {fuel : Nat}
      (h : execute T host fuel x.operation s = some (x.answer, s')) : TargetStep host s (.executed x) s'
  | outside {s s' : TargetState T W} (h : s'.world.held = s.world.held) : TargetStep host s .outside s'

/-! ## The specification -/

/-- The key of an Object that a reference names. -/
def Execution.referencedKey (x : Execution T) (reference : LogicalReference T.toPackages) : ObjectKey :=
  key x.resource (T.objectId reference.objectRef)

/-- What an answered request makes of a store of metadata by key. -/
def Execution.change (x : Execution T) : Change ObjectKey T.ObjectMetadata :=
  match x.request, x.answer with
  | .put p, .ok result =>
    match metadataResult T.toClientPackages result with
    | .ok m => .write (key x.resource p.objectId.val) m
    | .error _ => .keep
  | .delete reference, .ok _ => .erase (x.referencedKey reference)
  | _, _ => .keep

def TargetEvent.change : TargetEvent T → Change ObjectKey T.ObjectMetadata
  | .executed x => x.change
  | .outside => .keep

/-- The metadata that a reference of an exact version, or of any, finds. -/
def foundMetadata (held : Option T.ObjectMetadata) (digest : Option Str) : Py T.ObjectMetadata :=
  match held with
  | none => .error ObjectNotFound
  | some m => if digest ≠ none ∧ digest ≠ some (T.metadataDigest m) then .error ObjectNotFound else .ok m

namespace Execution

variable (x : Execution T) (held : ObjectKey → Option T.ObjectMetadata)

/-- What a reference finds in a store. -/
def finds (reference : LogicalReference T.toPackages) : Py T.ObjectMetadata :=
  foundMetadata (held (x.referencedKey reference)) (T.digest reference.objectRef)

/-- A put of a key that is taken is refused if it may only create; its result is metadata of an exact version, whose
reference names the Resource and the normal form of the id. -/
def AllowedPut (p : PutRequest) : Prop :=
  (p.createOnly = true → held (key x.resource p.objectId.val) ≠ none → x.answer = .error ConditionalConflict) ∧
    ∀ result, x.answer = .ok result → ∃ m, result = metadataMember T m ∧
      referenceKey (T.metadataObjectRef m) = key x.resource (T.normalObjectId p.objectId.val) ∧
      T.digest (T.metadataObjectRef m) = some (T.metadataDigest m)

/-- A get returns the metadata found, and a payload of its digest and length. -/
def AllowedGet (reference : LogicalReference T.toPackages) : Prop :=
  match x.finds held reference with
  | .error e => x.answer = .error e
  | .ok m => ∃ payload, x.answer = .ok (getMembers T m payload) ∧
      payload.expectedLength = some (T.metadataByteLength m) ∧
      payload.expectedDigest.map Subtype.val = some (T.metadataDigest m)

/-- A range read returns the metadata found, the range resolved in its length, and a payload of that length. -/
def AllowedRange (reference : LogicalReference T.toPackages) (range : ByteRange) : Prop :=
  match x.finds held reference with
  | .error e => x.answer = .error e
  | .ok m =>
    match range.resolve (.int (T.metadataByteLength m)) with
    | .error e => x.answer = .error e
    | .ok resolved => ∃ payload, x.answer = .ok (rangeMembers T m payload resolved) ∧
        payload.expectedLength = some resolved.length

/-- A list returns the first of the Objects of the Resource under the prefix, in the order of their keys. -/
def AllowedList (limit : Positive) : Prop :=
  ∃ (first : Str) (entries : List (ObjectKey × T.ObjectMetadata)),
    Dict.get? x.operation.input "prefix" = some (.str first) ∧ entries.Pairwise (fun a b => a.1 < b.1) ∧
    (∀ k m, (k, m) ∈ entries ↔ held k = some m ∧ matchesKey x.resource first k = true) ∧
    x.answer = .ok (listMembers T ((entries.take limit.val).map Prod.snd))

/-- **What a store may answer** that holds this metadata. -/
def Allowed : Prop :=
  match x.request with
  | .put p => x.AllowedPut held p
  | .read reference =>
    if x.method = str "stat" then x.answer = (x.finds held reference).map (metadataMember T)
    else x.AllowedGet held reference
  | .readRange reference range => x.AllowedRange held reference range
  | .list limit => x.AllowedList held limit
  | .delete reference => x.answer = (x.finds held reference).map fun _ => deletedMember
  | .publishSchema => ∃ message, x.answer = .error (.builtin .assertionError message)
  | .createResource _ _ => ∃ message, x.answer = .error (.builtin .assertionError message)

end Execution

/-! ## The invariant -/

/-- Every Object stored is intact, and no two have one key. -/
structure Consistent {H : Hasher} (hH : H.Sha256) (s : TargetState T W) : Prop where
  nodup : (Dict.keys s.world.objects).Nodup
  intact : ∀ k o, Dict.get? s.world.objects k = some o → o.Intact hH k

/-- The metadata that a target holds. -/
def TargetState.metadata (s : TargetState T W) (k : ObjectKey) : Option T.ObjectMetadata :=
  (Dict.get? s.world.objects k).map StoredObject.metadata

variable {host : MemoryHost W} {fuel : Nat} {s s' : TargetState T W} {x : Execution T}

theorem found_map (object? : Option (StoredObject T)) (digest : Option Str) :
    (found T object? digest).map StoredObject.metadata = foundMetadata (object?.map StoredObject.metadata) digest := by
  cases object? with
  | none => rfl
  | some o =>
    unfold found foundMetadata
    dsimp only [Option.map_some]
    split
    · rfl
    · rfl

/-- A lookup finds the metadata that the specification finds. -/
theorem lookedUp_map (s : TargetState T W) (x : Execution T) (reference : LogicalReference T.toPackages) :
    (lookedUp s x.resource reference).map StoredObject.metadata = x.finds s.metadata reference := found_map _ _

theorem Consistent.of_objects {H : Hasher} {hH : H.Sha256} (h : Consistent hH s)
    (hobjects : s'.world.objects = s.world.objects) : Consistent hH s' where
  nodup := by
    rw [hobjects]
    exact h.nodup
  intact k o ho := by
    rw [hobjects] at ho
    exact h.intact k o ho

/-- An execution from a consistent state: it stays one, captures what it registers beside what was captured, makes
the change of the answer, and answers what it may. -/
structure Serves {H : Hasher} (hH : H.Sha256) (s : TargetState T W) (x : Execution T) (s' : TargetState T W) : Prop where
  consistent : Consistent hH s'
  captured : s.world.captured <+: s'.world.captured
  metadata : s'.metadata = x.change.apply s.metadata
  allowed : x.Allowed s.metadata

theorem metadata_of_objects (h : s'.world.objects = s.world.objects) : s'.metadata = s.metadata := by
  unfold TargetState.metadata
  rw [h]

/-- An Object found is the one stored under the key referenced. -/
theorem Consistent.lookedUp {H : Hasher} {hH : H.Sha256} (h : Consistent hH s)
    {reference : LogicalReference T.toPackages} {resource : ResourceRef} {o : StoredObject T}
    (ho : lookedUp s resource reference = .ok o) :
    Dict.get? s.world.objects (key resource (T.objectId reference.objectRef)) = some o ∧
      o.Intact hH (key resource (T.objectId reference.objectRef)) := by
  have hget := (found_eq_ok.mp ho).1
  exact ⟨hget, h.intact _ _ hget⟩

/-- What the specification finds, where an Object is looked up. -/
theorem finds_ok {o : StoredObject T} {reference : LogicalReference T.toPackages}
    (h : lookedUp s x.resource reference = .ok o) : x.finds s.metadata reference = .ok o.metadata := by
  rw [← lookedUp_map, h]
  rfl

theorem finds_error {e : PyError} {reference : LogicalReference T.toPackages}
    (h : lookedUp s x.resource reference = .error e) : x.finds s.metadata reference = .error e := by
  rw [← lookedUp_map, h]
  rfl

/-! ## Reads -/

variable {H : Hasher} {hH : H.Sha256} {operation : Operation} {method : Str} {resource : ResourceRef}
  {answer : Py JsonMapping} {reference : LogicalReference T.toPackages}

theorem serves_stat (hs : Consistent hH s) (hasks : Asks operation "stat" resource (.read reference))
    (h : execute T host fuel operation s = some (answer, s')) :
    Serves hH s ⟨operation, "stat", resource, .read reference, hasks, answer⟩ s' := by
  rw [execute_stat host fuel hasks] at h
  cases h
  refine ⟨hs, List.prefix_refl _, rfl, ?_⟩
  unfold Execution.Allowed
  dsimp only
  rw [if_pos rfl, ← lookedUp_map]
  dsimp only
  cases lookedUp s resource reference with
  | error e => rfl
  | ok o => rfl

/-- The digest of an intact Object, as a checked digest. -/
theorem StoredObject.Intact.exists_digest {k : ObjectKey} {o : StoredObject T} (h : o.Intact hH k) :
    ∃ d : Digest, T.metadataDigest o.metadata = d.val := ⟨_, h.digest⟩

theorem serves_get (hs : Consistent hH s) (hasks : Asks operation "get" resource (.read reference))
    (h : execute T host fuel operation s = some (answer, s')) :
    Serves hH s ⟨operation, "get", resource, .read reference, hasks, answer⟩ s' := by
  have hne : str "get" ≠ str "stat" := by decide
  obtain ⟨e, he, hexec⟩ | ⟨o, ho, hexec⟩ := execute_get host fuel hasks s
  · cases hexec.symm.trans h
    refine ⟨hs, List.prefix_refl _, rfl, ?_⟩
    unfold Execution.Allowed Execution.AllowedGet
    dsimp only
    rw [if_neg hne, finds_error he]
  · obtain ⟨-, hintact⟩ := hs.lookedUp ho
    obtain ⟨d, hd⟩ := hintact.exists_digest
    cases (hexec d hd).symm.trans h
    refine ⟨hs.of_objects rfl, List.prefix_append _ _, metadata_of_objects rfl, ?_⟩
    unfold Execution.Allowed Execution.AllowedGet
    dsimp only
    rw [if_neg hne, finds_ok ho]
    refine ⟨_, rfl, congrArg some hintact.byteLength.symm, congrArg some hd.symm⟩

theorem serves_readRange (hs : Consistent hH s) {range : ByteRange}
    (hasks : Asks operation "read_range" resource (.readRange reference range))
    (h : execute T host fuel operation s = some (answer, s')) :
    Serves hH s ⟨operation, "read_range", resource, .readRange reference range, hasks, answer⟩ s' := by
  obtain ⟨e, he, hexec⟩ | ⟨o, ho, hexec⟩ := execute_readRange host fuel hasks s
  · cases hexec.symm.trans h
    refine ⟨hs, List.prefix_refl _, rfl, ?_⟩
    unfold Execution.Allowed Execution.AllowedRange
    dsimp only
    rw [finds_error he]
  obtain ⟨-, hintact⟩ := hs.lookedUp ho
  obtain ⟨e, he, hexec⟩ | ⟨resolved, hresolved, hexec⟩ := hexec
  · cases hexec.symm.trans h
    refine ⟨hs, List.prefix_refl _, rfl, ?_⟩
    unfold Execution.Allowed Execution.AllowedRange
    dsimp only
    rw [finds_ok ho]
    dsimp only
    rw [hintact.byteLength, he]
  · cases hexec.symm.trans h
    refine ⟨hs.of_objects rfl, List.prefix_append _ _, metadata_of_objects rfl, ?_⟩
    obtain ⟨-, -, -, hslice⟩ := ByteRange.resolve_positions hresolved
    unfold Execution.Allowed Execution.AllowedRange
    dsimp only
    rw [finds_ok ho]
    dsimp only
    rw [hintact.byteLength, hresolved]
    exact ⟨_, rfl, congrArg some (hslice UInt8 o.data rfl).2⟩

/-! ## Lists -/

theorem sortedObjects_perm (objects : Dict ObjectKey (StoredObject T)) : (sortedObjects T objects).Perm objects :=
  List.perm_insertionSort _ _

/-- Distinct keys, sorted, are in strict order. -/
theorem sortedObjects_pairwise {objects : Dict ObjectKey (StoredObject T)} (h : (Dict.keys objects).Nodup) :
    (sortedObjects T objects).Pairwise fun a b => a.1 < b.1 := by
  have hle : (sortedObjects T objects).Pairwise fun a b => a.1 ≤ b.1 := by
    have htotal : Std.Total fun a b : ObjectKey × StoredObject T => a.1 ≤ b.1 := ⟨fun a b => le_total a.1 b.1⟩
    have htrans : IsTrans (ObjectKey × StoredObject T) fun a b => a.1 ≤ b.1 := ⟨fun a b c => le_trans⟩
    exact List.pairwise_insertionSort _ _
  have hperm : (Dict.keys (sortedObjects T objects)).Perm (Dict.keys objects) := (sortedObjects_perm objects).map _
  have hne : (sortedObjects T objects).Pairwise fun a b => a.1 ≠ b.1 := List.pairwise_map.mp (hperm.nodup_iff.mpr h)
  exact hle.imp₂ (fun a b hle hne => lt_of_le_of_ne hle hne) hne

theorem serves_list (hs : Consistent hH s) {limit : Positive}
    (hasks : Asks (P := T.toPackages) operation "list" resource (.list limit))
    (h : execute T host fuel operation s = some (answer, s')) :
    Serves hH s ⟨operation, "list", resource, .list limit, hasks, answer⟩ s' := by
  obtain ⟨first, hfirst, hexec⟩ := execute_list host fuel hasks
  cases (hexec s).symm.trans h
  refine ⟨hs, List.prefix_refl _, rfl, first,
    (matching s.world.objects resource first).map fun entry => (entry.1, entry.2.metadata), hfirst, ?_, ?_, ?_⟩
  · exact List.pairwise_map.mpr ((sortedObjects_pairwise hs.nodup).filter _)
  · intro k m
    have hmem : ∀ o, (k, o) ∈ sortedObjects T s.world.objects ↔ Dict.get? s.world.objects k = some o := fun o =>
      (sortedObjects_perm s.world.objects).mem_iff.trans (Dict.mem_iff_get? hs.nodup)
    unfold TargetState.metadata matching
    simp only [List.mem_map, List.mem_filter, Prod.exists, Prod.mk.injEq, Option.map_eq_some_iff]
    constructor
    · rintro ⟨k', o, ⟨hin, hmatch⟩, rfl, rfl⟩
      exact ⟨⟨o, (hmem o).mp hin, rfl⟩, hmatch⟩
    · rintro ⟨⟨o, ho, rfl⟩, hmatch⟩
      exact ⟨k, o, ⟨(hmem o).mpr ho, hmatch⟩, rfl, rfl⟩
  · rw [← List.map_take, List.map_map]
    rfl

/-! ## Writes -/

theorem metadataResult_member (hT : T.Documented) (m : T.ObjectMetadata) :
    metadataResult T.toClientPackages (metadataMember T m) = .ok m := hT.readsMetadata.parseObjectMetadata m

/-- An Object stored shows as its metadata written. -/
theorem metadata_set {k : ObjectKey} {o : StoredObject T} (h : s'.world.objects = Dict.set s.world.objects k o) :
    s'.metadata = (Change.write k o.metadata).apply s.metadata := by
  funext k'
  show (Dict.get? s'.world.objects k').map StoredObject.metadata = Function.update s.metadata k (some o.metadata) k'
  rw [h, Dict.get?_set, Function.update_apply]
  split
  · rfl
  · rfl

/-- An Object removed shows as its key erased. -/
theorem metadata_removed (s : TargetState T W) (k : ObjectKey) :
    (removed s k).metadata = (Change.erase k).apply s.metadata := by
  funext k'
  show (Dict.get? (Dict.pop s.world.objects k) k').map StoredObject.metadata = Function.update s.metadata k none k'
  by_cases hk : k' = k
  · rw [hk, Dict.get?_pop_self, Function.update_self]
    rfl
  · rw [Dict.get?_pop_ne _ hk, Function.update_of_ne hk]
    rfl

theorem Consistent.set (hs : Consistent hH s) {k : ObjectKey} {o : StoredObject T} (ho : o.Intact hH k)
    (h : s'.world.objects = Dict.set s.world.objects k o) : Consistent hH s' where
  nodup := by
    rw [h]
    exact Dict.nodup_set _ _ hs.nodup
  intact k' o' ho' := by
    rw [h, Dict.get?_set] at ho'
    split at ho'
    · next hk =>
      obtain rfl := Option.some.inj ho'
      rwa [hk]
    · exact hs.intact k' o' ho'

theorem Consistent.removed (hs : Consistent hH s) (k : ObjectKey) : Consistent hH (removed s k) where
  nodup := hs.nodup.sublist ((List.filter_sublist).map Prod.fst)
  intact k' o ho := by
    by_cases hk : k' = k
    · rw [hk] at ho
      cases (Dict.get?_pop_self s.world.objects k).symm.trans ho
    · exact hs.intact k' o ((Dict.get?_pop_ne s.world.objects hk).symm.trans ho)

theorem serves_put (hT : T.Documented) (hH : host.hasher.Sha256) (hs : Consistent hH s) {p : PutRequest}
    (hasks : Asks (P := T.toPackages) operation "put" resource (.put p))
    (h : execute T host fuel operation s = some (answer, s')) :
    Serves hH s ⟨operation, "put", resource, .put p, hasks, answer⟩ s' := by
  obtain ⟨-, hvalue, hp⟩ := hasks.reads
  have hconflict : p.createOnly = true → s.metadata (key resource p.objectId.val) ≠ none →
      (prepare T host fuel operation).Raises s ConditionalConflict s := by
    intro hc htaken
    exact prepare_conflict hasks.resources hp hc fun hnone => htaken (congrArg (Option.map StoredObject.metadata) hnone)
  obtain ⟨e, rfl, hraises, hheld⟩ | ⟨k, o, t, hreturns, rfl, hobjects, hcaptured⟩ := execute_put hasks h
  · obtain ⟨hobjects, hcaptured⟩ := Prod.mk.inj hheld
    refine ⟨hs.of_objects hobjects, by rw [hcaptured], metadata_of_objects hobjects, fun hc htaken => ?_,
      fun result hresult => nomatch hresult⟩
    cases (hconflict hc htaken).symm.trans hraises
    rfl
  · obtain ⟨rfl, hintact, -⟩ := prepare_returns hT hH hasks.resources hvalue hp hreturns
    have hchange : (⟨operation, "put", resource, .put p, hasks, .ok (metadataMember T o.metadata)⟩ : Execution T).change =
        .write (key resource p.objectId.val) o.metadata := by
      unfold Execution.change
      dsimp only
      rw [metadataResult_member hT]
    refine ⟨hs.set hintact hobjects, by rw [hcaptured], ?_, fun hc htaken => ?_, fun result hresult => ?_⟩
    · rw [hchange]
      exact metadata_set hobjects
    · cases (hconflict hc htaken).symm.trans hreturns
    · cases hresult
      exact ⟨_, rfl, hintact.key, hintact.version⟩

theorem serves_delete (hT : T.Documented) (hs : Consistent hH s)
    (hasks : Asks operation "delete" resource (.delete reference)) (h : execute T host fuel operation s = some (answer, s')) :
    Serves hH s ⟨operation, "delete", resource, .delete reference, hasks, answer⟩ s' := by
  obtain ⟨e, he, hexec⟩ | ⟨o, ho, hexec⟩ := execute_delete host fuel hasks s
  · cases hexec.symm.trans h
    refine ⟨hs, List.prefix_refl _, rfl, ?_⟩
    unfold Execution.Allowed
    dsimp only
    rw [finds_error he]
    rfl
  · obtain ⟨-, hintact⟩ := hs.lookedUp ho
    cases (hexec (hintact.objectId_of_reference hT)).symm.trans h
    refine ⟨hs.removed _, List.prefix_refl _, metadata_removed _ _, ?_⟩
    unfold Execution.Allowed
    dsimp only
    rw [finds_ok ho]
    rfl

/-! ## Every execution -/

/-- **An execution serves its request**: it keeps the store consistent, makes the change that its answer shows, and
answers what a store may. -/
theorem execution_serves (hT : T.Documented) (hH : host.hasher.Sha256) (hs : Consistent hH s) (x : Execution T)
    (h : execute T host fuel x.operation s = some (x.answer, s')) : Serves hH s x s' := by
  obtain ⟨operation, method, resource, request, hasks, answer⟩ := x
  cases request with
  | publishSchema =>
    obtain ⟨rfl, -⟩ := hasks.reads
    cases (execute_other host _ hasks (Or.inl rfl) s).symm.trans h
    exact ⟨hs, List.prefix_refl _, rfl, _, rfl⟩
  | createResource profile options =>
    obtain ⟨rfl, -⟩ := hasks.reads
    cases (execute_other host _ hasks (Or.inr rfl) s).symm.trans h
    exact ⟨hs, List.prefix_refl _, rfl, _, rfl⟩
  | put p =>
    obtain ⟨rfl, -⟩ := hasks.reads
    exact serves_put hT hH hs hasks h
  | read reference =>
    obtain ⟨rfl | rfl, -⟩ := hasks.reads
    · exact serves_get hs hasks h
    · exact serves_stat hs hasks h
  | readRange reference range =>
    obtain ⟨rfl, -⟩ := hasks.reads
    exact serves_readRange hs hasks h
  | list limit =>
    obtain ⟨rfl, -⟩ := hasks.reads
    exact serves_list hs hasks h
  | delete reference =>
    obtain ⟨rfl, -⟩ := hasks.reads
    exact serves_delete hT hs hasks h

/-! ## Whole runs -/

theorem step_consistent (hT : T.Documented) (hH : host.hasher.Sha256) {e : TargetEvent T} (hs : Consistent hH s)
    (h : TargetStep host s e s') : Consistent hH s' := by
  cases h with
  | executed h => exact (execution_serves hT hH hs _ h).consistent
  | outside h => exact hs.of_objects (Prod.mk.inj h).1

theorem step_metadata (hT : T.Documented) (hH : host.hasher.Sha256) {e : TargetEvent T} (hs : Consistent hH s)
    (h : TargetStep host s e s') : s'.metadata = e.change.apply s.metadata := by
  cases h with
  | executed h => exact (execution_serves hT hH hs _ h).metadata
  | outside h => exact metadata_of_objects (Prod.mk.inj h).1

/-- What was captured stays captured. -/
theorem step_captured (hT : T.Documented) (hH : host.hasher.Sha256) {e : TargetEvent T} (hs : Consistent hH s)
    (h : TargetStep host s e s') : s.world.captured <+: s'.world.captured := by
  cases h with
  | executed h => exact (execution_serves hT hH hs _ h).captured
  | outside h => exact by rw [(Prod.mk.inj h).2]

variable {s₀ : TargetState T W} {es : List (TargetEvent T)}

/-- A target that is new or was reset. -/
theorem consistent_of_empty {H : Hasher} (hH : H.Sha256) (h : s₀.world.objects = []) : Consistent hH s₀ where
  nodup := by
    rw [h]
    exact List.nodup_nil
  intact k o ho := by
    rw [h] at ho
    cases ho

theorem run_consistent (hT : T.Documented) (hH : host.hasher.Sha256) (hempty : s₀.world.objects = [])
    (h : Runs.Run (TargetStep host) s₀ es s) : Consistent hH s :=
  h.keep (fun _ _ _ hs hstep => step_consistent hT hH hs hstep) (consistent_of_empty hH hempty)

/-- **The target holds what the answers so far make of an empty store.** -/
theorem run_contents (hT : T.Documented) (hH : host.hasher.Sha256) (hempty : s₀.world.objects = [])
    (h : Runs.Run (TargetStep host) s₀ es s) : s.metadata = contents (es.map TargetEvent.change) := by
  have hI : ∀ s e s', Consistent hH s → TargetStep host s e s' → Consistent hH s' :=
    fun _ _ _ hs hstep => step_consistent hT hH hs hstep
  refine h.contents hI (fun _ _ _ hs hstep => step_metadata hT hH hs hstep) (consistent_of_empty hH hempty) ?_
  funext k
  unfold TargetState.metadata
  rw [hempty]
  rfl

/-- An execution of a run, and the states around it. -/
theorem run_serves (hT : T.Documented) (hH : host.hasher.Sha256) (hempty : s₀.world.objects = [])
    {after : List (TargetEvent T)} (h : Runs.Run (TargetStep host) s₀ (es ++ .executed x :: after) s) :
    x.Allowed (contents (es.map TargetEvent.change)) := by
  obtain ⟨s₁, s₂, hbefore, hstep, -⟩ := h.split
  rw [← run_contents hT hH hempty hbefore]
  cases hstep with
  | executed hexec => exact (execution_serves hT hH (run_consistent hT hH hempty hbefore) x hexec).allowed

end ObjectCommon
