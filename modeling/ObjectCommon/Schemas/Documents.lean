import ObjectCommon.Schemas.Keywords

/-!
# The published schemas

`contracts/object`: each definition is the schema of the same name, `$ref` by name.

* `payloadReferenceSchema` : `meridian-object-payload-reference.v1.schema.json`;
* `signedReferenceSchema` : `meridian-object-signed-reference.v1.schema.json`;
* `expressionSchema` : `meridian-object-expression.v1.schema.json`, by `argumentsSchema` of the method.
-/

namespace ObjectCommon

open Schema

/-! ## Patterns -/

/-- `[A-Za-z]` -/
def isAlpha (c : CodePoint) : Bool := isUpper c || isLower c

/-- `[A-Za-z0-9_.-]` -/
def isNameChar (c : CodePoint) : Bool := isAlnum c || c ∈ str "_.-"

/-- `^[A-Za-z](?:[A-Za-z0-9_.-]{0,253}[A-Za-z0-9])?$` -/
def logicalNameRe : Str → Bool
  | [] => false
  | c :: rest =>
    isAlpha c && (rest.isEmpty ||
      (rest.dropLast.length ≤ 253 && rest.dropLast.all isNameChar && rest.getLast?.any isAlnum))

theorem isNameChar_ascii {c : CodePoint} (h : isNameChar c = true) : 32 ≤ c.val ∧ c.val < 127 := by
  rw [isNameChar, Bool.or_eq_true, decide_eq_true_eq] at h
  rcases h with h | h
  · exact isAlnum_ascii h
  · obtain ⟨d, hd, rfl⟩ := List.mem_map.mp h
    have hall : ("_.-".toList.all fun d => decide (32 ≤ d.toNat ∧ d.toNat < 127)) = true := by decide
    exact of_decide_eq_true (List.all_eq_true.mp hall d hd)

/-- A logical name is printable ASCII. -/
theorem logicalNameRe_ascii {s : Str} (h : logicalNameRe s = true) : ∀ c ∈ s, 32 ≤ c.val ∧ c.val < 127 := by
  cases s with
  | nil => cases h
  | cons c rest =>
    rw [logicalNameRe, Bool.and_eq_true] at h
    obtain ⟨hc, h⟩ := h
    have hc : isAlnum c = true := by
      rw [isAlpha] at hc
      rw [isAlnum, hc, Bool.true_or]
    refine List.forall_mem_cons.mpr ⟨isAlnum_ascii hc, ?_⟩
    cases hr : rest.isEmpty with
    | true =>
      rw [List.isEmpty_iff] at hr
      subst hr
      simp
    | false =>
      rw [hr, Bool.false_or, Bool.and_eq_true, Bool.and_eq_true] at h
      obtain ⟨⟨-, hmid⟩, hlast⟩ := h
      refine forall_mem_of_dropLast (fun d hd => isNameChar_ascii (List.all_eq_true.mp hmid d hd)) fun d hd => ?_
      rw [hd, Option.any_some] at hlast
      exact isAlnum_ascii hlast

/-- `^NAME\.NAME$` for logical names -/
def qualifiedNameRe (s : Str) : Bool :=
  (List.range s.length).any fun i =>
    s[i]? == some (codePoint '.') && logicalNameRe (s.take i) && logicalNameRe (s.drop (i + 1))

/-- `^(?:object:)?NAME\.NAME$`; a logical name has no colon. -/
def resourceTextRe (s : Str) : Bool :=
  qualifiedNameRe s || (s.take 7 == str "object:" && qualifiedNameRe (s.drop 7))

/-- `^[^/ ]+/[^/ ]+$` -/
def mediaTypePattern (s : Str) : Bool :=
  match s.dropWhile (· != codePoint '/') with
  | [] => false
  | _ :: subtype =>
    let type := s.takeWhile (· != codePoint '/')
    !type.isEmpty && type.all (· != codePoint ' ') &&
      !subtype.isEmpty && subtype.all fun c => c != codePoint '/' && c != codePoint ' '

/-- `^[A-Za-z0-9_-]+$` -/
def signatureRe (s : Str) : Bool := !s.isEmpty && s.all fun c => isAlnum c || c ∈ str "_-"

/-! ## References -/

def logicalNameSchema : Schema := text [pattern logicalNameRe]

def digestSchema : Schema := text [pattern digestRe]

def tokenSchema : Schema := text [pattern tokenRe]

def timestampSchema : Schema := text [pattern timestampRe]

def naturalOrNull : Schema := allOf [types [.integer, .null], minimum 0]

def resourceRefSchema : Schema :=
  record ["catalog", "namespace", "name"]
    [("catalog", constant "object"), ("namespace", logicalNameSchema), ("name", logicalNameSchema)]

def objectIdSchema : Schema := text [minLength 1, maxLength 1024]

def objectRefSchema : Schema :=
  record ["resourceRef", "objectId"]
    [("resourceRef", resourceRefSchema), ("objectId", objectIdSchema), ("digest", digestSchema)]

/-- The `objectRef` of the signed reference schema. -/
def exactObjectRefSchema : Schema :=
  record ["resourceRef", "objectId", "digest"]
    [("resourceRef", resourceRefSchema), ("objectId", objectIdSchema), ("digest", digestSchema)]

def payloadReferenceSchema : Schema :=
  record ["formatVersion", "token", "expectedLength", "expectedDigest", "replayable"]
    [("formatVersion", constant "meridian.object.payload-reference.v1"), ("token", tokenSchema),
      ("expectedLength", naturalOrNull), ("expectedDigest", nullable digestSchema), ("replayable", types [.boolean])]

def signedReferenceSchema : Schema :=
  record ["formatVersion", "objectRef", "allowedOperations", "expiresAt", "audience", "nonce", "keyId", "algorithm",
      "signature"]
    [("formatVersion", constant "meridian.object.signed-reference.v1"), ("objectRef", exactObjectRefSchema),
      ("allowedOperations",
        allOf [types [.array], minItems 1, uniqueItems, items (enum ["get", "read_range", "stat"])]),
      ("expiresAt", timestampSchema), ("audience", text [minLength 1, maxLength 256]), ("nonce", tokenSchema),
      ("keyId", tokenSchema), ("algorithm", tokenSchema),
      ("signature", text [pattern signatureRe, maxLength 2048])]

/-! ## Expressions -/

def resourceSchema : Schema := oneOf [text [pattern resourceTextRe], resourceRefSchema]

def referenceSchema : Schema := oneOf [objectRefSchema, signedReferenceSchema]

def profileSchema : Schema :=
  record ["kind", "profile", "mutability", "rangeReads", "conditionalCreate", "boundedPrefixList", "metadata"]
    [("kind", enum ["object", "artifact", "media"]), ("profile", enum ["object", "artifact", "media"]),
      ("mutability", enum ["immutable", "mutable"]), ("rangeReads", types [.boolean]),
      ("conditionalCreate", types [.boolean]), ("boundedPrefixList", types [.boolean]), ("metadata", types [.object])]

def immutabilitySchema : Schema :=
  record ["mutability", "publishOnce"]
    [("mutability", enum ["immutable", "mutable"]), ("publishOnce", types [.boolean])]

def retentionSchema : Schema :=
  allOf
    [record ["retainUntil", "policy", "requireEnforcement"]
      [("retainUntil", allOf [types [.string, .null], pattern timestampRe]),
        ("policy", allOf [types [.string, .null], minLength 1, maxLength 256]),
        ("requireEnforcement", types [.boolean])],
      anyOf [properties [("retainUntil", types [.string])], properties [("policy", types [.string])]]]

def publishSchemaSchema : Schema :=
  record ["namespace", "name", "version", "definition", "allowBreaking", "expectedRegistryRevision"]
    [("namespace", logicalNameSchema), ("name", logicalNameSchema),
      ("version", text [minLength 1, maxLength 64]), ("definition", types [.object]),
      ("allowBreaking", types [.boolean]), ("expectedRegistryRevision", naturalOrNull)]

def createResourceSchema : Schema :=
  record ["namespace", "name", "profile", "options"]
    [("namespace", logicalNameSchema), ("name", logicalNameSchema), ("profile", profileSchema),
      ("options", types [.object])]

def putSchema : Schema :=
  record ["resource", "objectId", "payload", "mediaType", "expectedDigest", "expectedLength", "userMetadata",
      "creationContext", "provenance", "immutability", "retention", "createOnly"]
    [("resource", resourceSchema), ("objectId", objectIdSchema), ("payload", payloadReferenceSchema),
      ("mediaType", text [pattern mediaTypePattern]), ("expectedDigest", nullable digestSchema),
      ("expectedLength", naturalOrNull),
      ("userMetadata", allOf [types [.object], maxProperties 128, additionalProperties [] (text [maxLength 2048])]),
      ("creationContext", types [.object]), ("provenance", types [.object]),
      ("immutability", nullable immutabilitySchema), ("retention", nullable retentionSchema),
      ("createOnly", types [.boolean])]

def referenceOperationSchema : Schema :=
  record ["resource", "reference"] [("resource", resourceSchema), ("reference", referenceSchema)]

def rangeSchema : Schema :=
  oneOf
    [record ["start"] [("start", allOf [types [.integer], minimum 0]), ("end", allOf [types [.integer], minimum 0])],
      record ["suffixLength"] [("suffixLength", allOf [types [.integer], minimum 1])]]

def rangeOperationSchema : Schema :=
  record ["resource", "reference", "range"]
    [("resource", resourceSchema), ("reference", referenceSchema), ("range", rangeSchema)]

def listOperationSchema : Schema :=
  record ["resource", "prefix", "limit", "cursor", "purpose"]
    [("resource", resourceSchema), ("prefix", text [maxLength 1024]),
      ("limit", allOf [types [.integer], minimum 1, maximum 1000]),
      ("cursor", allOf [types [.string, .null], maxLength 2048]), ("purpose", constant "maintenance")]

def deleteOperationSchema : Schema :=
  record ["resource", "reference", "reason"]
    [("resource", resourceSchema), ("reference", objectRefSchema),
      ("reason", allOf [types [.string, .null], maxLength 1024])]

/-- The alternatives of the Expression schema: a method and the schema of its arguments. -/
def expressionAlternatives : List (List Str × Schema) :=
  [(["publish_schema"], publishSchemaSchema), (["create_resource"], createResourceSchema), (["put"], putSchema),
    (["get", "stat"], referenceOperationSchema), (["read_range"], rangeOperationSchema),
    (["list"], listOperationSchema), (["delete"], deleteOperationSchema)]

def expressionSchema : Schema :=
  allOf
    [record ["formatVersion", "catalog", "method", "arguments"]
      [("formatVersion", constant "meridian-expression.v1"), ("catalog", constant "object"),
        ("method", enum ["create_resource", "delete", "get", "list", "publish_schema", "put", "read_range", "stat"]),
        ("arguments", types [.object])],
      oneOf (expressionAlternatives.map fun a => properties [("method", enum a.1), ("arguments", a.2)])]

end ObjectCommon
