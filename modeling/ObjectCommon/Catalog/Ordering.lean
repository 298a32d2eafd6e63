import ObjectCommon.Catalog.Requirements

/-!
# The order of a requirement's guarantees

The tuple of a set is in the order in which one run of the interpreter iterates over it.

* `Packages.withOrder P order` : the packages in a run with a given order;
* `requirementCalls P e` : the calls of the constructor of a requirement in a run;
* `OrderDetermined P e` : every run passes the same tuples;
* `orderDetermined_iff` : this is so exactly when the request calls for at most one guarantee.
-/

namespace ObjectCommon

open Outcome PyError

/-! ## Runs -/

/-- The order in which a run iterates over the sets of distinct strings. -/
abbrev SetOrder := {order : List Str → List Str // ∀ l : List Str, l.Nodup → (order l).Perm l}

/-- The order in which the strings were added. -/
def insertionOrder : SetOrder := ⟨id, fun _ _ => .refl _⟩

def reverseOrder : SetOrder := ⟨List.reverse, fun l _ => l.reverse_perm⟩

/-- The packages in a run with the given order. -/
def Packages.withOrder (P : Packages) (order : SetOrder) : Packages :=
  { P with tupleOfSet := order.val, tupleOfSet_perm := order.property }

/-- The calls of the constructor of a requirement in a run: none, or one. -/
def requirementCalls (P : Packages) (e : Expression) : List CapabilityRequirement :=
  match normalizeArguments P e.method e.arguments with
  | .ok (_, _, demands) => requirementsOf P e.method demands
  | .error _ => []

/-- Every run passes the same tuples of guarantees. -/
def OrderDetermined (P : Packages) (e : Expression) : Prop :=
  ∀ order order' : SetOrder, (requirementCalls (P.withOrder order) e).map (·.guarantees) =
    (requirementCalls (P.withOrder order') e).map (·.guarantees)

variable {P : Packages}

/-- The calls are those of the requirements that an Operation has. -/
theorem requirements_eq_calls {e : Expression} {o : Operation} (h : normalize P e = .ok o) :
    o.requirements = requirementCalls P e := by
  obtain ⟨contract, resource, r, hacc, rfl⟩ := normalize_eq_ok.mp h
  have hargs : normalizeArguments P e.method e.arguments =
      .ok (Dict.update e.arguments r.updates, resource, r.demands) :=
    normalizeArguments_eq_ok.mpr ⟨hacc.noPrivateKey, r, hacc.reads, rfl, rfl⟩
  rw [requirementCalls, hargs]
  rfl

/-! ### Reading does not depend on the order -/

section WithOrder

variable (order : SetOrder)

def SignedObjectReference.withOrder (s : SignedObjectReference P) : SignedObjectReference (P.withOrder order) :=
  ⟨s.objectRef, s.allowedOperations, s.expiresAt, s.audience, s.nonce, s.keyId, s.algorithm, s.signature,
    s.formatVersion, s.exact, s.operations_valid⟩

def LogicalReference.withOrder : LogicalReference P → LogicalReference (P.withOrder order)
  | .object r => .object r
  | .signed s => .signed (s.withOrder order)

def Request.withOrder : Request P → Request (P.withOrder order)
  | .publishSchema => .publishSchema
  | .createResource profile options => .createResource profile options
  | .put p => .put p
  | .read reference => .read (reference.withOrder order)
  | .readRange reference range => .readRange (reference.withOrder order) range
  | .list limit => .list limit
  | .delete reference => .delete (reference.withOrder order)

theorem fromMapping_withOrder {value : Object} {s : SignedObjectReference P}
    (h : SignedObjectReference.fromMapping P value = .ok s) :
    SignedObjectReference.fromMapping (P.withOrder order) value = .ok (s.withOrder order) := by
  simp only [SignedObjectReference.fromMapping, bind_eq_ok, SignedObjectReference.new_eq_ok, parseObjectReference_eq_ok,
    readObjectReference] at h ⊢
  exact h

theorem parseLogicalReference_withOrder {value : Object} {reference : LogicalReference P}
    (h : parseLogicalReference P value = .ok reference) :
    parseLogicalReference (P.withOrder order) value = .ok (reference.withOrder order) := by
  cases reference with
  | object r =>
    obtain ⟨hformat, hread⟩ := parseLogicalReference_object_eq_ok.mp h
    exact parseLogicalReference_object_eq_ok.mpr ⟨hformat, hread⟩
  | signed s =>
    obtain ⟨hformat, hread⟩ := parseLogicalReference_signed_eq_ok.mp h
    exact parseLogicalReference_signed_eq_ok.mpr ⟨hformat, fromMapping_withOrder order hread⟩

theorem ReadsReference.withOrder {value : Object} {resource : ResourceRef} {method : Str} {requireDigest : Bool}
    {reference : LogicalReference P} (h : ReadsReference value resource method requireDigest reference) :
    ReadsReference value resource method requireDigest (reference.withOrder order) := by
  obtain ⟨⟨raw, hraw, hparse⟩, hpermits, hsame⟩ := h
  have hdocument := parseLogicalReference_withOrder order hparse
  cases reference with
  | object r => exact ⟨⟨raw, hraw, hdocument⟩, hpermits, hsame⟩
  | signed s => exact ⟨⟨raw, hraw, hdocument⟩, hpermits, hsame⟩

theorem Request.Reads.withOrder {r : Request P} {method : Str} {value : Object} {resource : ResourceRef}
    (h : r.Reads method value resource) : (r.withOrder order).Reads method value resource := by
  cases r with
  | publishSchema =>
    obtain ⟨hmethod, hresource, hreads⟩ := h
    exact ⟨hmethod, hresource, hreads.fields, hreads.names, hreads.definition, hreads.allowBreaking,
      hreads.expectedRegistryRevision⟩
  | createResource profile options =>
    obtain ⟨hmethod, hresource, hreads⟩ := h
    obtain ⟨raw, hraw, hprofile⟩ := hreads.profile
    have hparsed := parseObjectProfile_eq_ok.mp hprofile
    have hprofile' : parseObjectProfile (P.withOrder order) raw = .ok profile := parseObjectProfile_eq_ok.mpr hparsed
    exact ⟨hmethod, hresource, hreads.fields, hreads.names, ⟨raw, hraw, hprofile'⟩, hreads.options⟩
  | put p =>
    obtain ⟨hmethod, hresource, hreads⟩ := h
    exact ⟨hmethod, hresource, hreads.fields, hreads.integrity, ⟨hreads.identity.mediaType, hreads.identity.objectId,
      hreads.identity.reference⟩, hreads.metadata, hreads.intents, hreads.createOnly⟩
  | read reference =>
    obtain ⟨hmethod, hresource, hfields, hreference⟩ := h
    exact ⟨hmethod, hresource, hfields, hreference.withOrder order⟩
  | readRange reference range =>
    obtain ⟨hmethod, hresource, hfields, hreference, hrange⟩ := h
    exact ⟨hmethod, hresource, hfields, hreference.withOrder order, hrange⟩
  | list limit => exact h
  | delete reference =>
    obtain ⟨hmethod, hresource, hfields, hreference, hreason⟩ := h
    exact ⟨hmethod, hresource, hfields, hreference.withOrder order, hreason⟩

theorem Request.demands_withOrder (r : Request P) : (r.withOrder order).demands = r.demands := by
  cases r with
  | read reference => cases reference <;> rfl
  | readRange reference range => cases reference <;> rfl
  | _ => rfl

/-- The arguments that one run accepts every run accepts, with the same demands. -/
theorem normalizeArguments_withOrder {method : Str} {arguments v : Object} {resource : ResourceRef} {demands : Demands}
    (h : normalizeArguments P method arguments = .ok (v, resource, demands)) :
    ∃ v', normalizeArguments (P.withOrder order) method arguments = .ok (v', resource, demands) := by
  obtain ⟨hprivate, r, hreads, -, rfl⟩ := normalizeArguments_eq_ok.mp h
  exact ⟨_, normalizeArguments_eq_ok.mpr ⟨hprivate, r.withOrder order, hreads.withOrder order, rfl,
    (r.demands_withOrder order).symm⟩⟩

end WithOrder

/-- The tuple of each call is the order's tuple of the guarantees demanded. -/
theorem guarantees_requirementCalls {e : Expression} {v : Object} {resource : ResourceRef} {demands : Demands}
    (h : normalizeArguments P e.method e.arguments = .ok (v, resource, demands)) (order : SetOrder) :
    (requirementCalls (P.withOrder order) e).map (·.guarantees) =
      if demands.guarantees ≠ [] ∨ demands.limits ≠ [] then [order.val demands.guarantees] else [] := by
  obtain ⟨v', h'⟩ := normalizeArguments_withOrder order h
  rw [requirementCalls, h']
  show (requirementsOf (P.withOrder order) e.method demands).map (·.guarantees) = _
  unfold requirementsOf
  split <;> rfl

/-! ## One guarantee at most -/

theorem length_le_one_iff {α : Type} {l : List α} (h : l.Nodup) : l.length ≤ 1 ↔ ∀ a ∈ l, ∀ b ∈ l, a = b := by
  match l with
  | [] => simp
  | [a] => simp
  | a :: b :: l =>
    refine iff_of_false (by simp) fun heq => ?_
    have hab := heq a (by simp) b (by simp)
    rw [hab] at h
    exact (List.nodup_cons.mp h).1 List.mem_cons_self

theorem reverse_ne_self {α : Type} {l : List α} (h : l.Nodup) (hlength : ¬ l.length ≤ 1) : l.reverse ≠ l := by
  match l with
  | [] => simp at hlength
  | [a] => simp at hlength
  | a :: b :: l =>
    intro heq
    -- the last element would be the first
    have hhead := congrArg List.head? heq
    rw [List.head?_reverse, List.getLast?_cons_cons, List.head?_cons] at hhead
    exact (List.nodup_cons.mp h).1 (List.mem_of_getLast? hhead)

theorem eq_of_perm_of_length_le_one {α : Type} {l l' : List α} (h : l'.Perm l) (hlength : l.length ≤ 1) : l' = l := by
  match l with
  | [] => exact h.eq_nil
  | [a] => exact List.perm_singleton.mp h
  | a :: b :: l => simp at hlength

/-- At most one guarantee is called for. -/
def CallsForOne (arguments : Object) : Prop :=
  ∀ g g', NeedsGuarantee arguments g → NeedsGuarantee arguments g' → g = g'

/-- **The tuples are the same in every run exactly when the request calls for at most one guarantee.** They are those of
the requirements that the Operation has. -/
theorem orderDetermined_iff {e : Expression} {o : Operation} (h : normalize P e = .ok o) :
    o.requirements = requirementCalls P e ∧ (OrderDetermined P e ↔ CallsForOne e.arguments) := by
  refine ⟨requirements_eq_calls h, ?_⟩
  obtain ⟨contract, resource, r, hacc, rfl⟩ := normalize_eq_ok.mp h
  have hargs : normalizeArguments P e.method e.arguments =
      .ok (Dict.update e.arguments r.updates, resource, r.demands) :=
    normalizeArguments_eq_ok.mpr ⟨hacc.noPrivateKey, r, hacc.reads, rfl, rfl⟩
  have hone : CallsForOne e.arguments ↔ r.demands.guarantees.length ≤ 1 := by
    rw [length_le_one_iff r.guarantees_nodup]
    simp only [CallsForOne, Request.mem_guarantees_iff hacc.reads]
    exact ⟨fun hc a ha b hb => hc a b ha hb, fun hc a b ha hb => hc a ha b hb⟩
  rw [hone]
  constructor
  · intro hdet
    by_contra hlength
    have hne : r.demands.guarantees ≠ [] := by
      intro hnil
      rw [hnil] at hlength
      exact hlength (Nat.zero_le 1)
    have hruns := hdet reverseOrder insertionOrder
    rw [guarantees_requirementCalls hargs, guarantees_requirementCalls hargs, if_pos (Or.inl hne), if_pos (Or.inl hne)] at hruns
    exact reverse_ne_self r.guarantees_nodup hlength (List.cons.inj hruns).1
  · intro hlength order order'
    have hsame : ∀ order : SetOrder, order.val r.demands.guarantees = r.demands.guarantees := fun order =>
      eq_of_perm_of_length_le_one (order.property _ r.guarantees_nodup) hlength
    rw [guarantees_requirementCalls hargs, guarantees_requirementCalls hargs, hsame order, hsame order']

/-- A create-only put calls for one guarantee. -/
theorem orderDetermined_iff_putFixture : ∃ o, normalize contracts Contracts.putFixture = .ok o ∧
    o.requirements = requirementCalls contracts Contracts.putFixture ∧ OrderDetermined contracts Contracts.putFixture := by
  obtain ⟨o, ho⟩ := normalize_putFixture
  obtain ⟨hcalls, hiff⟩ := orderDetermined_iff ho
  exact ⟨o, ho, hcalls,
    hiff.mpr fun g g' hg hg' => (needsGuarantee_putFixture hg).trans (needsGuarantee_putFixture hg').symm⟩

/-! ## Two guarantees -/

/-- A put that is create-only and asks for immutable bytes. -/
def immutablePut : Expression where
  catalog := "object"
  method := "put"
  arguments := Dict.set Contracts.putFixture.arguments "immutability"
    (.obj [("mutability", .str "immutable"), ("publishOnce", .bool true)])
  wellFormed := Contracts.putFixture.wellFormed.set (by
    exact .obj (by decide) (by simp [Json.WellFormed.str, Json.WellFormed.bool]))

/-- Two runs pass the guarantees of a put in different orders. -/
theorem not_orderDetermined_immutablePut :
    ¬ ∀ (P : Packages) (e : Expression) (o : Operation), normalize P e = .ok o → OrderDetermined P e := by
  intro h
  obtain ⟨o, ho⟩ := exists_ok_of_isOk (x := normalize contracts immutablePut) (by decide +kernel)
  have hruns := h contracts immutablePut o ho insertionOrder reverseOrder
  revert hruns
  decide +kernel

end ObjectCommon
