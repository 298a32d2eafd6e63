import ObjectCommon.Schemas.Agreement

/-!
# The published result schema

`meridian-object-result.v1.schema.json`; each of its alternatives is an object that requires all its properties.

* `metadataSchema`, `resultSchema` : the schemas of the same name;
* `resultRecords` : the properties of each alternative (`resultRecords_disjoint`);
* `resultSchema_iff` : a value is a result by one alternative, and then by no other.
-/

namespace ObjectCommon

open Outcome Schema

/-- `const` of a flag -/
def Schema.constantBool (b : Bool) : Schema
  | .bool c => c = b
  | _ => false

/-! ## Metadata -/

/-- The `resourceRef` of the result schema. -/
def resultResourceRefSchema : Schema :=
  record ["catalog", "namespace", "name"]
    [("catalog", constant "object"), ("namespace", types [.string]), ("name", types [.string])]

/-- The `objectRef` of the result schema. -/
def resultObjectRefSchema : Schema :=
  record ["resourceRef", "objectId", "digest"]
    [("resourceRef", resultResourceRefSchema), ("objectId", types [.string]), ("digest", digestSchema)]

def metadataSchema : Schema :=
  record ["formatVersion", "objectRef", "digest", "byteLength", "mediaType", "createdAt", "creationContext",
      "userMetadata", "mutability", "provenance"]
    [("formatVersion", constant "meridian.object.v1"), ("objectRef", resultObjectRefSchema), ("digest", digestSchema),
      ("byteLength", allOf [types [.integer], minimum 0]), ("mediaType", types [.string]), ("createdAt", types [.string]),
      ("creationContext", types [.object]),
      ("userMetadata", allOf [types [.object], additionalProperties [] (types [.string])]),
      ("mutability", enum ["immutable", "mutable"]), ("provenance", types [.object])]

/-! ## Results -/

def resultRangeSchema : Schema :=
  record ["start", "end", "length", "totalLength"]
    [("start", types [.integer]), ("end", types [.integer]), ("length", types [.integer]),
      ("totalLength", types [.integer])]

/-- `metadataResult` -/
def metadataRecord : List (String × Schema) := [("metadata", metadataSchema)]

/-- `payloadResult` -/
def payloadRecord : List (String × Schema) := [("metadata", metadataSchema), ("payload", payloadReferenceSchema)]

/-- `rangeResult` -/
def rangeRecord : List (String × Schema) :=
  [("metadata", metadataSchema), ("payload", payloadReferenceSchema), ("range", resultRangeSchema)]

/-- `listResult` -/
def listRecord : List (String × Schema) :=
  [("items", allOf [types [.array], items metadataSchema]), ("cursor", types [.string, .null])]

/-- `deleteResult` -/
def deleteRecord : List (String × Schema) := [("deleted", constantBool true)]

/-- An object with exactly these properties. -/
def exactRecord (l : List (String × Schema)) : Schema := record (l.map Prod.fst) l

def resultRecords : List (List (String × Schema)) :=
  [metadataRecord, payloadRecord, rangeRecord, listRecord, deleteRecord]

def resultSchema : Schema := oneOf (resultRecords.map exactRecord)

/-! ## Alternatives -/

/-- An object of exact properties has these fields and no others. -/
theorem mem_keys_of_exactRecord {l : List (String × Schema)} {d : Object} (h : exactRecord l (.obj d) = true) {k : String} :
    str k ∈ Dict.keys d ↔ k ∈ l.map Prod.fst := by
  obtain ⟨hfields, -⟩ := record_required_iff.mp h
  obtain ⟨hrequired, hknown⟩ := exactFields_eq_ok.mp hfields
  refine ⟨fun hk => ?_, hrequired k⟩
  obtain ⟨k', hk', heq⟩ := List.mem_map.mp ((hknown _ hk).resolve_right (by simp))
  rwa [← str_inj.mp heq]

/-- The alternatives have different fields. -/
theorem resultRecords_disjoint : resultRecords.Pairwise fun a b =>
    ∃ k ∈ a.map Prod.fst ++ b.map Prod.fst, ¬ (k ∈ a.map Prod.fst ↔ k ∈ b.map Prod.fst) := by
  have hfields : (resultRecords.map (List.map Prod.fst)).Pairwise fun a b => ∃ k ∈ a ++ b, ¬ (k ∈ a ↔ k ∈ b) := by
    show [["metadata"], ["metadata", "payload"], ["metadata", "payload", "range"], ["items", "cursor"],
      ["deleted"]].Pairwise _
    decide
  exact List.pairwise_map.mp hfields

/-- **A value is a result by one of the alternatives.** -/
theorem resultSchema_iff {d : Object} :
    resultSchema (.obj d) = true ↔ ∃ l ∈ resultRecords, exactRecord l (.obj d) = true := by
  have hdisjoint : (resultRecords.map exactRecord).Pairwise fun S T => S (.obj d) = true → T (.obj d) = false := by
    refine List.pairwise_map.mpr (resultRecords_disjoint.imp fun {a b} hab ha => ?_)
    obtain ⟨k, -, hk⟩ := hab
    refine Bool.eq_false_iff.mpr fun hb => hk ?_
    rw [← mem_keys_of_exactRecord ha, mem_keys_of_exactRecord hb]
  rw [resultSchema, oneOf_iff hdisjoint]
  simp

/-- The members of an object whose fields are those of a record, in its order. -/
theorem exactRecord_of_members {l : List (String × Schema)} {d : Object} (hkeys : Dict.keys d = (l.map Prod.fst).map str)
    (hmembers : ∀ p ∈ l, ∃ v, Dict.get? d (str p.1) = some v ∧ p.2 v = true) : exactRecord l (.obj d) = true := by
  refine record_required_iff.mpr ⟨exactFields_eq_ok.mpr ⟨fun k hk => ?_, fun k hk => ?_⟩, hmembers⟩
  · rw [hkeys]
    exact List.mem_map_of_mem hk
  · rw [hkeys] at hk
    exact Or.inl hk

end ObjectCommon
