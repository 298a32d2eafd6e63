import ObjectCommon.Schemas.Results
import ObjectCommon.Testing.MemoryHistory

/-!
# The results of the in-memory target in the published contract

* `StorePackages.WritesMetadata` : Semantics writes metadata as the result schema describes it;
* `resultRecord` : the alternative of the schema that a method answers with;
* `allowed_in_contract` : what a store may answer is in the contract, by the alternative of its method;
* `results_in_contract` : so is every result of a run;
* `Contracts.writesMetadata` : metadata as the schemas describe it.
-/

namespace ObjectCommon

open Outcome PyError KeyedStore Schema MemoryObjectTarget

variable {T : StorePackages} {W : Type} {host : MemoryHost W} {s s₀ : TargetState T W} {es : List (TargetEvent T)}
  {x : Execution T} {k : ObjectKey} {m : T.ObjectMetadata}

/-- Metadata of an exact version is written as the schema describes it. -/
structure StorePackages.WritesMetadata (T : StorePackages) : Prop where
  metadataToDict : ∀ m d, T.digest (T.metadataObjectRef m) = some d → metadataSchema (.obj (T.metadataToDict m)) = true

/-- The alternative of the result schema that a method answers with. -/
def resultRecord (method : Str) : List (String × Schema) :=
  if method = str "get" then payloadRecord
  else if method = str "read_range" then rangeRecord
  else if method = str "list" then listRecord
  else if method = str "delete" then deleteRecord
  else metadataRecord

theorem resultRecord_mem (method : Str) : resultRecord method ∈ resultRecords := by
  unfold resultRecord
  split
  · simp [resultRecords]
  split
  · simp [resultRecords]
  split
  · simp [resultRecords]
  split
  · simp [resultRecords]
  · simp [resultRecords]

/-! ## Members -/

theorem payloadReferenceSchema_toDict (r : PayloadReference) : payloadReferenceSchema (.obj r.toDict) = true :=
  payloadReferenceSchema_iff.mpr ⟨r, r.fromMapping_toDict⟩

theorem resultRangeSchema_toDict (r : ResolvedByteRange) : resultRangeSchema (.obj r.toDict) = true := by
  refine exactRecord_of_members rfl ?_
  simp only [List.forall_mem_cons, List.not_mem_nil, false_imp_iff, implies_true, and_true]
  exact ⟨⟨_, rfl, rfl⟩, ⟨_, rfl, rfl⟩, ⟨_, rfl, rfl⟩, ⟨_, rfl, rfl⟩⟩

theorem metadataMember_in_contract (hm : metadataSchema (.obj (T.metadataToDict m)) = true) :
    exactRecord metadataRecord (.obj (metadataMember T m).val) = true := by
  refine exactRecord_of_members rfl ?_
  simp only [metadataRecord, List.forall_mem_cons, List.not_mem_nil, false_imp_iff, implies_true, and_true]
  exact ⟨_, rfl, hm⟩

theorem getMembers_in_contract (hm : metadataSchema (.obj (T.metadataToDict m)) = true) (payload : PayloadReference) :
    exactRecord payloadRecord (.obj (getMembers T m payload).val) = true := by
  refine exactRecord_of_members rfl ?_
  simp only [payloadRecord, List.forall_mem_cons, List.not_mem_nil, false_imp_iff, implies_true, and_true]
  exact ⟨⟨_, rfl, hm⟩, ⟨_, rfl, payloadReferenceSchema_toDict payload⟩⟩

theorem rangeMembers_in_contract (hm : metadataSchema (.obj (T.metadataToDict m)) = true) (payload : PayloadReference)
    (range : ResolvedByteRange) : exactRecord rangeRecord (.obj (rangeMembers T m payload range).val) = true := by
  refine exactRecord_of_members rfl ?_
  simp only [rangeRecord, List.forall_mem_cons, List.not_mem_nil, false_imp_iff, implies_true, and_true]
  exact ⟨⟨_, rfl, hm⟩, ⟨_, rfl, payloadReferenceSchema_toDict payload⟩, ⟨_, rfl, resultRangeSchema_toDict range⟩⟩

theorem listMembers_in_contract {page : List T.ObjectMetadata}
    (hpage : ∀ m ∈ page, metadataSchema (.obj (T.metadataToDict m)) = true) :
    exactRecord listRecord (.obj (listMembers T page).val) = true := by
  have hitems : allOf [types [.array], items metadataSchema]
      (.arr (page.map fun m => .obj (T.metadataToDict m))) = true := by
    simpa [typeOf, Schema.items] using hpage
  refine exactRecord_of_members rfl ?_
  simp only [listRecord, List.forall_mem_cons, List.not_mem_nil, false_imp_iff, implies_true, and_true]
  exact ⟨⟨_, rfl, hitems⟩, ⟨_, rfl, rfl⟩⟩

theorem deletedMember_in_contract : exactRecord deleteRecord (.obj deletedMember.val) = true := by
  refine exactRecord_of_members rfl ?_
  simp only [deleteRecord, List.forall_mem_cons, List.not_mem_nil, false_imp_iff, implies_true, and_true]
  exact ⟨_, rfl, rfl⟩

/-! ## Answers -/

/-- **What a store may answer is in the contract**, by the alternative of its method. -/
theorem allowed_in_contract {held : ObjectKey → Option T.ObjectMetadata}
    (hheld : ∀ k m, held k = some m → metadataSchema (.obj (T.metadataToDict m)) = true) (hW : T.WritesMetadata)
    (hx : x.Allowed held) {result : JsonMapping} (hanswer : x.answer = .ok result) :
    exactRecord (resultRecord x.method) (.obj result.val) = true := by
  have hfound : ∀ {reference m}, x.finds held reference = .ok m → metadataSchema (.obj (T.metadataToDict m)) = true :=
    fun hfinds => hheld _ _ (foundMetadata_eq_ok.mp hfinds).1
  obtain ⟨operation, method, resource, request, hasks, answer⟩ := x
  dsimp only at hanswer
  subst hanswer
  unfold Execution.Allowed at hx
  cases request with
  | publishSchema =>
    obtain ⟨message, hmessage⟩ := hx
    cases hmessage
  | createResource profile options =>
    obtain ⟨message, hmessage⟩ := hx
    cases hmessage
  | put p =>
    obtain ⟨rfl, -⟩ := hasks.reads
    obtain ⟨m, rfl, -, hversion⟩ := hx.2 result rfl
    exact metadataMember_in_contract (hW.metadataToDict m _ hversion)
  | list limit =>
    obtain ⟨rfl, -⟩ := hasks.reads
    obtain ⟨first, entries, -, -, hentries, hlist⟩ := hx
    cases hlist
    refine listMembers_in_contract fun m hm => ?_
    obtain ⟨⟨k, m'⟩, hmem, rfl⟩ := List.mem_map.mp hm
    exact hheld k m' ((hentries k m').mp (List.mem_of_mem_take hmem)).1
  | delete reference =>
    obtain ⟨rfl, -⟩ := hasks.reads
    dsimp only at hx
    obtain ⟨m, -, rfl⟩ := map_eq_ok.mp hx.symm
    exact deletedMember_in_contract
  | read reference =>
    obtain ⟨rfl | rfl, -⟩ := hasks.reads
    · change Execution.AllowedGet _ held reference at hx
      unfold Execution.AllowedGet at hx
      split at hx
      · cases hx
      · next m hfinds =>
        obtain ⟨payload, hget, -, -⟩ := hx
        cases hget
        exact getMembers_in_contract (hfound hfinds) payload
    · obtain ⟨m, hfinds, rfl⟩ := map_eq_ok.mp (Eq.symm hx)
      exact metadataMember_in_contract (hfound hfinds)
  | readRange reference range =>
    obtain ⟨rfl, -⟩ := hasks.reads
    change Execution.AllowedRange _ held reference range at hx
    unfold Execution.AllowedRange at hx
    split at hx
    · cases hx
    · next m hfinds =>
      split at hx
      · cases hx
      · next resolved hresolved =>
        obtain ⟨payload, hrange, -⟩ := hx
        cases hrange
        exact rangeMembers_in_contract (hfound hfinds) payload resolved

/-- **Every result of a run is in the published contract**, by the alternative of its method. -/
theorem results_in_contract (hT : T.Documented) (hW : T.WritesMetadata) (hH : host.hasher.Sha256)
    (hempty : s₀.world.objects = []) (h : Runs.Run (TargetStep host) s₀ es s) (hx : .executed x ∈ es)
    {result : JsonMapping} (hanswer : x.answer = .ok result) :
    resultSchema (.obj result.val) = true ∧ exactRecord (resultRecord x.method) (.obj result.val) = true := by
  obtain ⟨before, after, rfl⟩ := List.append_of_mem hx
  obtain ⟨s₁, hbefore⟩ := h.of_append
  have hheld : ∀ k m, contents (before.map TargetEvent.change) k = some m →
      metadataSchema (.obj (T.metadataToDict m)) = true := by
    intro k m hm
    rw [← run_contents hT hH hempty hbefore] at hm
    obtain ⟨o, ho, rfl⟩ := Option.map_eq_some_iff.mp hm
    exact hW.metadataToDict _ _ ((run_consistent hT hH hempty hbefore).intact k o ho).version
  have hin := allowed_in_contract hheld hW (run_serves hT hH hempty h) hanswer
  exact ⟨resultSchema_iff.mpr ⟨_, resultRecord_mem _, hin⟩, hin⟩

/-! ## Metadata as the schema describes it -/

namespace Contracts

theorem resultObjectRefSchema_toDict (r : {r : Reference // r.digest.isSome}) :
    resultObjectRefSchema (.obj (referenceToDict r.val)) = true := by
  obtain ⟨d, hd⟩ := Option.isSome_iff_exists.mp r.2
  have hresource : resultResourceRefSchema
      (.obj (resourceToDict "object" r.val.namespaceName.val r.val.name.val)) = true := by
    refine exactRecord_of_members rfl ?_
    simp only [List.forall_mem_cons, List.not_mem_nil, false_imp_iff, implies_true, and_true]
    exact ⟨⟨_, rfl, constant_iff.mpr rfl⟩, ⟨_, rfl, rfl⟩, ⟨_, rfl, rfl⟩⟩
  have hdocument : referenceToDict r.val =
      [(str "resourceRef", .obj (resourceToDict "object" r.val.namespaceName.val r.val.name.val)),
        (str "objectId", .str r.val.objectId.val), (str "digest", .str d.val)] := by
    unfold referenceToDict Reference.digestText
    rw [hd]
    rfl
  rw [hdocument]
  refine exactRecord_of_members rfl ?_
  simp only [List.forall_mem_cons, List.not_mem_nil, false_imp_iff, implies_true, and_true]
  exact ⟨⟨_, rfl, hresource⟩, ⟨_, rfl, rfl⟩, ⟨_, rfl, digestSchema_iff.mpr ⟨d, rfl⟩⟩⟩

theorem metadataSchema_toDict (m : Metadata) : metadataSchema (.obj (metadataToDict m)) = true := by
  have hlength : allOf [types [.integer], minimum 0] (.int m.byteLength) = true := by simp [typeOf, minimum]
  have huser : allOf [types [.object], additionalProperties [] (types [.string])] (.obj m.userMetadata.val) = true := by
    have hstrings : ∀ e ∈ m.userMetadata.val, typeOf e.2 = .string := by
      intro e he
      obtain ⟨text, htext⟩ := Option.isSome_iff_exists.mp (m.userMetadata.2 e he)
      cases hvalue : e.2 <;> simp [hvalue, Json.str?] at htext
      rfl
    simpa [typeOf, additionalProperties] using fun k v he => hstrings (k, v) he
  have hmutability : enum ["immutable", "mutable"] (.str m.mutability.val) = true := enum_iff.mpr ⟨_, m.mutability.2, rfl⟩
  refine exactRecord_of_members rfl ?_
  simp only [List.forall_mem_cons, List.not_mem_nil, false_imp_iff, implies_true, and_true]
  exact ⟨⟨_, rfl, constant_iff.mpr rfl⟩, ⟨_, rfl, resultObjectRefSchema_toDict m.objectRef⟩,
    ⟨_, rfl, digestSchema_iff.mpr ⟨m.digest, rfl⟩⟩, ⟨_, rfl, hlength⟩, ⟨_, rfl, rfl⟩, ⟨_, rfl, rfl⟩, ⟨_, rfl, rfl⟩,
    ⟨_, rfl, huser⟩, ⟨_, rfl, hmutability⟩, ⟨_, rfl, rfl⟩⟩

theorem writesMetadata : storeContracts.WritesMetadata where
  metadataToDict m _ _ := metadataSchema_toDict m.val

end Contracts

theorem results_in_contract_session : ∃ (x : Execution storeContracts) (result : JsonMapping), x.answer = .ok result ∧
    resultSchema (.obj result.val) = true := by
  obtain ⟨x₁, x₂, x₃, x₄, x₅, s, run, -, -, ⟨reference, result, -, -, hanswer⟩, -⟩ := session_run
  obtain ⟨hresult, -⟩ := results_in_contract Contracts.store_documented Contracts.writesMetadata memoryFixture_sha256 rfl run
    (x := x₂) (by simp) hanswer
  exact ⟨x₂, result, hanswer, hresult⟩

end ObjectCommon
