import ObjectCommon.Catalog.Canonical
import ObjectCommon.Python.Reorder

/-!
# Normalization does not see the order of entries

* `Packages.IgnoresOrder` : neither do the constructors and parsers of Core and Semantics;
* `Request.Reordered` : two requests that differ in the order of their free-form parts;
* `Request.Reads.sameValue` : arguments in another order denote such a request;
* `Operation.Reordered`, `normalize_reordered` : Expressions in another order are accepted alike, as
  Operations that differ in the order of their input.
-/

namespace ObjectCommon

open Outcome PyError

open Json (SameValue)

/-- What Core and Semantics construct and parse does not depend on the order of entries. -/
structure Packages.IgnoresOrder (P : Packages) : Prop where
  newResourceRef : ∀ {c n n' m m' r}, SameValue n n' → SameValue m m' → P.newResourceRef c n m = .ok r →
    P.newResourceRef c n' m' = .ok r
  parseResourceRef : ∀ {c v w r}, SameValue v w → P.parseResourceRef v c = .ok r →
    P.parseResourceRef w c = .ok r
  newSchemaRef : ∀ {c n n' m m' v v' r}, SameValue n n' → SameValue m m' → SameValue v v' →
    P.newSchemaRef c n m v = .ok r → P.newSchemaRef c n' m' v' = .ok r
  parseResourceReference : ∀ {a b r}, SameValue (.obj a) (.obj b) → P.parseResourceReference a = .ok r →
    P.parseResourceReference b = .ok r
  newObjectReference : ∀ {resource o o' d d' r}, SameValue o o' → SameValue d d' →
    P.newObjectReference resource o d = .ok r → P.newObjectReference resource o' d' = .ok r
  profileFromMapping : ∀ {a b q p}, SameValue (.obj a) (.obj b) → P.profileFromMapping a = .ok q →
    P.asObjectProfile q = some p → ∃ q' p', P.profileFromMapping b = .ok q' ∧ P.asObjectProfile q' = some p' ∧
      SameValue (.obj (P.profileToDict p)) (.obj (P.profileToDict p'))
  checkOperation : ∀ {o input}, SameValue (.obj o.input) (.obj input) → P.checkOperation o = .ok () →
    P.checkOperation { o with input := input } = .ok ()

variable {P : Packages} {a b : Object}

/-! ## Documents -/

theorem exactFields_sameValue (h : SameValue (.obj a) (.obj b)) {required optional : List String}
    (hf : exactFields a required optional = .ok ()) : exactFields b required optional = .ok () := by
  obtain ⟨hrequired, hknown⟩ := exactFields_eq_ok.mp hf
  exact exactFields_eq_ok.mpr ⟨fun k hk => (h.mem_keys _).mp (hrequired k hk),
    fun k hk => hknown k ((h.mem_keys k).mpr hk)⟩

theorem HasPrivateKey.sameValue {v w : Json} (h : SameValue v w) (hv : HasPrivateKey v) : HasPrivateKey w := by
  obtain ⟨k, hk, hp⟩ := hv
  exact ⟨k, h.reordered.hasKey hk, hp⟩

theorem readObjectReference_sameValue (hP : P.IgnoresOrder) (h : SameValue (.obj a) (.obj b))
    {r : P.ObjectReference} (hr : readObjectReference P (.document a) = .ok r) :
    readObjectReference P (.document b) = .ok r := by
  obtain ⟨hf, raw, resource, objectId, hraw, hresource, hid, hnew⟩ := readObjectReference_document_eq_ok.mp hr
  obtain ⟨raw', hraw', hsame⟩ := h.object hraw
  obtain ⟨objectId', hid', hsameId⟩ := h.member hid
  exact readObjectReference_document_eq_ok.mpr ⟨exactFields_sameValue h hf, raw', resource, objectId', hraw',
    hP.parseResourceReference hsame hresource, hid', hP.newObjectReference hsameId (h.getD _) hnew⟩

theorem SignedObjectReference.fromMapping_sameValue (hP : P.IgnoresOrder) (h : SameValue (.obj a) (.obj b))
    {x : SignedObjectReference P} (hx : fromMapping P a = .ok x) : fromMapping P b = .ok x := by
  simp only [fromMapping, bind_eq_ok, exists_unit, getItem_eq_ok, asMapping_eq_ok, asSequence_eq_ok,
    new_eq_ok, utcTimestamp_json_eq_ok, parseObjectReference_eq_ok] at hx ⊢
  obtain ⟨hf, _, hr, _, ho, raw, rfl, _, rfl, r, ⟨hread, hdigest⟩, _, ht, _, ha, _, hn, _, hk, _, hg, _, hs, _, hv,
    hself, ⟨l, rfl, hl⟩, ⟨rfl, hts⟩, rfl, rfl, rfl, rfl, rfl, rfl⟩ := hx
  obtain ⟨raw', hr', hsame⟩ := h.object hr
  have hstr : ∀ {k s}, Dict.get? a k = some (.str s) → Dict.get? b k = some (.str s) :=
    fun hk => h.rigid (Json.rigid_str _) hk
  exact ⟨exactFields_sameValue h hf, _, hr', _, h.rigid (Json.rigid_strings l) ho, raw', rfl, _, rfl, r,
    ⟨readObjectReference_sameValue hP hsame hread, hdigest⟩, _, hstr ht, _, hstr ha, _, hstr hn, _, hstr hk, _,
    hstr hg, _, hstr hs, _, hstr hv, hself, ⟨l, rfl, hl⟩, ⟨rfl, hts⟩, rfl, rfl, rfl, rfl, rfl, rfl⟩

theorem HasSignedFormat.sameValue (h : SameValue (.obj a) (.obj b)) (hf : HasSignedFormat a) : HasSignedFormat b :=
  h.rigid (Json.rigid_str _) hf

/-- A reference is read from its document in any order. -/
theorem parseLogicalReference_sameValue (hP : P.IgnoresOrder) (h : SameValue (.obj a) (.obj b))
    {reference : LogicalReference P} (hr : parseLogicalReference P a = .ok reference) :
    parseLogicalReference P b = .ok reference := by
  cases reference with
  | object r =>
    obtain ⟨hformat, hread⟩ := parseLogicalReference_object_eq_ok.mp hr
    exact parseLogicalReference_object_eq_ok.mpr
      ⟨fun hb => hformat (hb.sameValue h.symm), readObjectReference_sameValue hP h hread⟩
  | signed s =>
    obtain ⟨hformat, hread⟩ := parseLogicalReference_signed_eq_ok.mp hr
    exact parseLogicalReference_signed_eq_ok.mpr
      ⟨hformat.sameValue h, SignedObjectReference.fromMapping_sameValue hP h hread⟩

theorem parseObjectProfile_sameValue (hP : P.IgnoresOrder) (h : SameValue (.obj a) (.obj b))
    {profile : P.ObjectProfile} (hp : parseObjectProfile P a = .ok profile) :
    ∃ profile', parseObjectProfile P b = .ok profile' ∧
      SameValue (.obj (P.profileToDict profile)) (.obj (P.profileToDict profile')) := by
  obtain ⟨q, hq, hprofile⟩ := parseObjectProfile_eq_ok.mp hp
  obtain ⟨q', profile', hq', hprofile', hsame⟩ := hP.profileFromMapping h hq hprofile
  exact ⟨profile', parseObjectProfile_eq_ok.mpr ⟨q', hq', hprofile'⟩, hsame⟩

theorem PayloadReference.fromMapping_sameValue (h : SameValue (.obj a) (.obj b)) {r : PayloadReference}
    (hr : fromMapping a = .ok r) : fromMapping b = .ok r := by
  have hl := Json.rigid_nullable (f := fun n : Nat => .int n) (fun _ => Json.rigid_int _) r.expectedLength
  have hd := Json.rigid_nullable (f := fun d : Digest => .str d.val) (fun _ => Json.rigid_str _) r.expectedDigest
  rw [fromMapping_eq_ok] at hr ⊢
  refine h.same ?_ hr
  simpa [toDict, Json.rigid_str, Json.rigid_bool] using ⟨hl, hd⟩

theorem ByteRange.fromMapping_sameValue (h : SameValue (.obj a) (.obj b)) {r : ByteRange}
    (hr : fromMapping a = .ok r) : fromMapping b = .ok r := by
  have hs := Json.rigid_nullable (f := fun n : Nat => .int n) (fun _ => Json.rigid_int _) r.start
  have hrigid : ∀ e ∈ r.toDict, Json.Rigid e.2 := by
    unfold toDict
    split <;> simp [Json.rigid_int, wireNat, hs]
  rw [fromMapping_eq_ok] at hr ⊢
  rcases hr with hr | ⟨hlength, hr⟩
  · exact Or.inl (h.same hrigid hr)
  · refine Or.inr ⟨hlength, h.same ?_ hr⟩
    intro e he
    rcases List.mem_append.mp he with he | he
    · exact hrigid e he
    · obtain rfl := List.mem_singleton.mp he
      exact Json.rigid_null

theorem ImmutabilityRequest.fromMapping_sameValue (h : SameValue (.obj a) (.obj b)) {r : ImmutabilityRequest}
    (hr : fromMapping a = .ok r) : fromMapping b = .ok r := by
  rw [fromMapping_eq_ok] at hr ⊢
  exact h.same (by simp [toDict, Json.rigid_str, Json.rigid_bool]) hr

theorem RetentionRequest.fromMapping_sameValue (h : SameValue (.obj a) (.obj b)) {r : RetentionRequest}
    (hr : fromMapping a = .ok r) : fromMapping b = .ok r := by
  have hu := Json.rigid_nullable (f := Json.str) Json.rigid_str r.retainUntil
  have hp := Json.rigid_nullable (f := fun s : BoundedString 256 => .str s.val) (fun _ => Json.rigid_str _) r.policy
  rw [fromMapping_eq_ok] at hr ⊢
  refine ⟨h.same ?_ hr.1, hr.2⟩
  simpa [toDict, Json.rigid_bool] using ⟨hu, hp⟩

/-- A member that is null or a document is read in any order. -/
theorem NullableDocument.sameValue {α : Type} {parse : Object → Py α} {k : Str} {r : Option α}
    (hparse : ∀ {a b x}, SameValue (.obj a) (.obj b) → parse a = .ok x → parse b = .ok x)
    (h : SameValue (.obj a) (.obj b)) (hr : ∃ j, Dict.get? a k = some j ∧ NullableDocument parse j r) :
    ∃ j, Dict.get? b k = some j ∧ NullableDocument parse j r := by
  obtain ⟨j, hj, hdoc⟩ := hr
  cases r with
  | none =>
    cases hdoc
    exact ⟨.null, h.rigid Json.rigid_null hj, rfl⟩
  | some x =>
    obtain ⟨raw, rfl, hx⟩ := hdoc
    obtain ⟨raw', hraw', hsame⟩ := h.object hj
    exact ⟨_, hraw', raw', rfl, hparse hsame hx⟩

/-! ## Metadata -/

instance : Std.Antisymm itemLe where
  antisymm a b h h' := by
    rcases h with h | ⟨hkey, hvalue⟩ <;> rcases h' with h' | ⟨hkey', hvalue'⟩
    · exact absurd h' h.asymm
    · exact absurd hkey' h.ne'
    · exact absurd hkey h'.ne'
    · exact Prod.ext hkey (le_antisymm hvalue hvalue')

theorem sortedItems_eq_of_perm {items items' : Dict Str Str} (h : items.Perm items') :
    sortedItems items = sortedItems items' := by
  have hperm := (sortedItems_perm items).trans (h.trans (sortedItems_perm items').symm)
  exact List.Perm.eq_of_pairwise' (List.pairwise_insertionSort itemLe items)
    (List.pairwise_insertionSort itemLe items') hperm

/-- A mapping of strings in another order is a mapping of the same strings. -/
theorem exists_wireStrings_of_perm {d : Object} {items : Dict Str Str} (h : d.Perm (wireStrings items)) :
    ∃ items', d = wireStrings items' ∧ items'.Perm items := by
  have hmap : List.Forall₂ (fun (x : Str × Json) (e : Str × Str) => x = (e.1, .str e.2)) (wireStrings items)
      items := by
    rw [wireStrings, List.forall₂_map_left_iff]
    exact List.forall₂_same.mpr fun _ _ => rfl
  obtain ⟨items', hforall, hperm⟩ := List.perm_comp_forall₂ h hmap
  refine ⟨items', ?_, hperm⟩
  rw [wireStrings, ← List.forall₂_eq_eq_eq, List.forall₂_map_right_iff]
  exact hforall

/-- Strings are returned sorted, so their order does not matter. -/
theorem stringMapping_sameValue (h : SameValue (.obj a) (.obj b)) {field : String} {me mk mv : Nat}
    {r : Dict Str Str} (hr : stringMapping (.obj a) field me mk mv = .ok r) :
    stringMapping (.obj b) field me mk mv = .ok r := by
  obtain ⟨items, rfl, hlength, hbounds, rfl⟩ := (stringMapping_eq_ok h.left.keys_nodup).mp hr
  have hrigid : ∀ e ∈ wireStrings items, Json.Rigid e.2 := by
    intro e he
    obtain ⟨x, -, rfl⟩ := List.mem_map.mp he
    exact Json.rigid_str x.2
  have hsame : Dict.Same b (wireStrings items) := h.same hrigid (Dict.Same.refl _)
  obtain ⟨items', rfl, hperm⟩ :=
    exists_wireStrings_of_perm ((Dict.same_iff_perm h.right.keys_nodup h.left.keys_nodup).mp hsame)
  exact (stringMapping_eq_ok h.right.keys_nodup).mpr ⟨items', rfl, hperm.length_eq ▸ hlength,
    fun e he => hbounds e (hperm.mem_iff.mp he), (sortedItems_eq_of_perm hperm).symm⟩

/-- The keys of a mapping of strings are returned in their order. -/
theorem keys_stringMapping_sorted {d : Object} (hn : (Dict.keys d).Nodup) {field : String} {me mk mv : Nat}
    {r : Dict Str Str} (hr : stringMapping (.obj d) field me mk mv = .ok r) :
    (Dict.keys (wireStrings r)).Pairwise (· < ·) := by
  have hnodup := keys_nodup_of_stringMapping hn hr
  obtain ⟨items, -, -, -, rfl⟩ := (stringMapping_eq_ok hn).mp hr
  rw [keys_wireStrings]
  have hle : (Dict.keys (sortedItems items)).Pairwise (· ≤ ·) := by
    refine List.pairwise_map.mpr ((List.pairwise_insertionSort itemLe items).imp ?_)
    rintro x y (h | ⟨h, -⟩)
    · exact h.le
    · exact h.le
  exact hle.imp₂ (fun _ _ h hne => lt_of_le_of_ne h hne) hnodup

/-! ## Requests -/

theorem ReadsReference.sameValue (hP : P.IgnoresOrder) (h : SameValue (.obj a) (.obj b)) {resource : ResourceRef}
    {method : Str} {requireDigest : Bool} {reference : LogicalReference P}
    (hr : ReadsReference a resource method requireDigest reference) :
    ReadsReference b resource method requireDigest reference := by
  obtain ⟨⟨raw, hraw, hparse⟩, hpermits, hresource⟩ := hr
  obtain ⟨raw', hraw', hsame⟩ := h.object hraw
  exact ⟨⟨raw', hraw', parseLogicalReference_sameValue hP hsame hparse⟩, hpermits, hresource⟩

theorem ReadsRange.sameValue (h : SameValue (.obj a) (.obj b)) {range : ByteRange} (hr : ReadsRange a range) :
    ReadsRange b range := by
  obtain ⟨raw, hraw, hparse⟩ := hr
  obtain ⟨raw', hraw', hsame⟩ := h.object hraw
  exact ⟨raw', hraw', ByteRange.fromMapping_sameValue hsame hparse⟩

theorem ReadsResource.sameValue (hP : P.IgnoresOrder) (h : SameValue (.obj a) (.obj b)) {resource : ResourceRef}
    (hr : ReadsResource P a resource) : ReadsResource P b resource := by
  simp only [ReadsResource, parseResource, mapError_eq_ok] at hr ⊢
  exact hP.parseResourceRef (h.getD _) hr

theorem rigid_wireString {maximum : Nat} (c : Option (BoundedString maximum)) : Json.Rigid (wireString c) :=
  Json.rigid_nullable (fun _ => Json.rigid_str _) c

theorem ReadsReason.sameValue (h : SameValue (.obj a) (.obj b)) (hr : ReadsReason a) : ReadsReason b := by
  obtain ⟨c, hc⟩ := hr
  exact ⟨c, h.rigid (rigid_wireString c) hc⟩

theorem ReadsList.sameValue (h : SameValue (.obj a) (.obj b)) {limit : Positive} (hr : ReadsList a limit) :
    ReadsList b limit := by
  obtain ⟨hf, ⟨s, n, hs, hn, hle, hc⟩, hpage, hlimit, ⟨c, hcursor⟩, hpurpose⟩ := hr
  exact ⟨exactFields_sameValue h hf, ⟨s, n, h.rigid (Json.rigid_str s) hs, hn, hle, hc⟩,
    h.rigid (Json.rigid_int _) hpage, hlimit, ⟨c, h.rigid (rigid_wireString c) hcursor⟩,
    h.rigid (Json.rigid_str _) hpurpose⟩

theorem ReadsPublishSchema.sameValue (hP : P.IgnoresOrder) (h : SameValue (.obj a) (.obj b))
    (hr : ReadsPublishSchema P a) : ReadsPublishSchema P b := by
  obtain ⟨hf, ⟨ns, nm, ver, ref, hns, hnm, href, hver, hschema⟩, ⟨d, hd⟩, ⟨allow, hallow⟩, ⟨n, hn⟩⟩ := hr
  obtain ⟨ns', hns', hsameNs⟩ := h.member hns
  obtain ⟨nm', hnm', hsameNm⟩ := h.member hnm
  obtain ⟨ver', hver', hsameVer⟩ := h.member hver
  obtain ⟨d', hd', -⟩ := h.object hd
  have hrevision : Json.Rigid (ByteRange.wireNat n) := Json.rigid_nullable (fun _ => Json.rigid_int _) n
  exact ⟨exactFields_sameValue h hf, ⟨ns', nm', ver', ref, hns', hnm', hP.newResourceRef hsameNs hsameNm href, hver',
    hP.newSchemaRef hsameNs hsameNm hsameVer hschema⟩, ⟨d', hd'⟩, ⟨allow, h.rigid (Json.rigid_bool _) hallow⟩,
    ⟨n, h.rigid hrevision hn⟩⟩

theorem ReadsCreateResource.sameValue (hP : P.IgnoresOrder) (h : SameValue (.obj a) (.obj b))
    {profile : P.ObjectProfile} {options : Object} (hr : ReadsCreateResource P a profile options) :
    ∃ profile' options', ReadsCreateResource P b profile' options' ∧
      SameValue (.obj (P.profileToDict profile)) (.obj (P.profileToDict profile')) ∧
      SameValue (.obj options) (.obj options') := by
  obtain ⟨hf, ⟨ns, nm, ref, hns, hnm, href⟩, ⟨raw, hraw, hparse⟩, hoptions⟩ := hr
  obtain ⟨ns', hns', hsameNs⟩ := h.member hns
  obtain ⟨nm', hnm', hsameNm⟩ := h.member hnm
  obtain ⟨raw', hraw', hsameRaw⟩ := h.object hraw
  obtain ⟨profile', hparse', hsameProfile⟩ := parseObjectProfile_sameValue hP hsameRaw hparse
  obtain ⟨options', hoptions', hsameOptions⟩ := h.object hoptions
  exact ⟨profile', options', ⟨exactFields_sameValue h hf,
    ⟨ns', nm', ref, hns', hnm', hP.newResourceRef hsameNs hsameNm href⟩, ⟨raw', hraw', hparse'⟩, hoptions'⟩,
    hsameProfile, hsameOptions⟩

namespace PutRequest

/-- A put with other free-form metadata. -/
def withContext (p : PutRequest) (creationContext provenance : Object) : PutRequest :=
  { p with creationContext := creationContext, provenance := provenance }

theorem ReadsIntegrity.sameValue {p : PutRequest} (h : SameValue (.obj a) (.obj b)) (hr : p.ReadsIntegrity a) :
    p.ReadsIntegrity b := by
  obtain ⟨⟨raw, hraw, hparse⟩, hdigest, hlength, hagrees, hagrees'⟩ := hr
  obtain ⟨raw', hraw', hsame⟩ := h.object hraw
  have hd : Json.Rigid (wireDigest p.expectedDigest) := Json.rigid_nullable (fun _ => Json.rigid_str _) _
  have hl : Json.Rigid (ByteRange.wireNat p.expectedLength) := Json.rigid_nullable (fun _ => Json.rigid_int _) _
  exact ⟨⟨raw', hraw', PayloadReference.fromMapping_sameValue hsame hparse⟩, h.rigid hd hdigest,
    h.rigid hl hlength, hagrees, hagrees'⟩

theorem ReadsIdentity.sameValue {p : PutRequest} (h : SameValue (.obj a) (.obj b)) {resource : ResourceRef}
    (hr : p.ReadsIdentity P a resource) : p.ReadsIdentity P b resource :=
  ⟨h.rigid (Json.rigid_str _) hr.mediaType, h.rigid (Json.rigid_str _) hr.objectId, hr.reference⟩

theorem ReadsIntents.sameValue {p : PutRequest} (h : SameValue (.obj a) (.obj b)) (hr : p.ReadsIntents a) :
    p.ReadsIntents b :=
  ⟨NullableDocument.sameValue (fun h hx => ImmutabilityRequest.fromMapping_sameValue h hx) h hr.immutability,
    NullableDocument.sameValue (fun h hx => RetentionRequest.fromMapping_sameValue h hx) h hr.retention⟩

theorem Reads.sameValue {p : PutRequest} (h : SameValue (.obj a) (.obj b)) {resource : ResourceRef}
    (hr : p.Reads P a resource) :
    ∃ creationContext provenance, (p.withContext creationContext provenance).Reads P b resource ∧
      SameValue (.obj p.creationContext) (.obj creationContext) ∧
      SameValue (.obj p.provenance) (.obj provenance) := by
  obtain ⟨hf, hintegrity, hidentity, ⟨⟨raw, hraw, hstrings⟩, hcontext, hprovenance⟩, hintents, hcreate⟩ := hr
  obtain ⟨raw', hraw', hsame⟩ := h.object hraw
  obtain ⟨c, hc, hsameContext⟩ := h.object hcontext
  obtain ⟨v, hv, hsameProvenance⟩ := h.object hprovenance
  have hi := hintegrity.sameValue h
  have hid := hidentity.sameValue h
  have hint := hintents.sameValue h
  refine ⟨c, v, ⟨exactFields_sameValue h hf, ⟨hi.1, hi.2, hi.3, hi.4, hi.5⟩, ⟨hid.1, hid.2, hid.3⟩,
    ⟨⟨raw', hraw', stringMapping_sameValue hsame hstrings⟩, hc, hv⟩, ⟨hint.1, hint.2⟩,
    h.rigid (Json.rigid_bool _) hcreate⟩, hsameContext, hsameProvenance⟩

end PutRequest

namespace Request

/-- Two requests that differ in the order of what is free-form in them. -/
inductive Reordered : Request P → Request P → Prop
  | publishSchema : Reordered .publishSchema .publishSchema
  | createResource {profile profile' : P.ObjectProfile} {options options' : Object}
      (hprofile : SameValue (.obj (P.profileToDict profile)) (.obj (P.profileToDict profile')))
      (hoptions : SameValue (.obj options) (.obj options')) :
      Reordered (.createResource profile options) (.createResource profile' options')
  | put (p : PutRequest) {creationContext provenance : Object}
      (hcontext : SameValue (.obj p.creationContext) (.obj creationContext))
      (hprovenance : SameValue (.obj p.provenance) (.obj provenance)) :
      Reordered (.put p) (.put (p.withContext creationContext provenance))
  | read (reference : LogicalReference P) : Reordered (.read reference) (.read reference)
  | readRange (reference : LogicalReference P) (range : ByteRange) :
      Reordered (.readRange reference range) (.readRange reference range)
  | list (limit : Positive) : Reordered (.list limit) (.list limit)
  | delete (reference : LogicalReference P) : Reordered (.delete reference) (.delete reference)

theorem Reordered.demands_eq {r r' : Request P} (h : Reordered r r') : r'.demands = r.demands := by
  cases h <;> rfl

/-- The updates of such requests have the same canonical values, at the same places. -/
theorem Reordered.canonEntries_updates {r r' : Request P} (h : Reordered r r') :
    Json.canonEntries r.updates = Json.canonEntries r'.updates := by
  cases h with
  | createResource hprofile hoptions =>
    simp only [updates, Json.canonEntries, hprofile.canon, hoptions.canon]
  | put p hcontext hprovenance =>
    simp only [updates, PutRequest.updates, PutRequest.metadataUpdates, Json.canonEntries_eq_map, List.map_append,
      List.map_cons, hcontext.canon, hprovenance.canon]
    rfl
  | _ => rfl

/-- **Arguments in another order denote the same request**, its free-form parts in another order. -/
theorem Reads.sameValue (hP : P.IgnoresOrder) (h : SameValue (.obj a) (.obj b)) {r : Request P} {method : Str}
    {resource : ResourceRef} (hr : r.Reads method a resource) :
    ∃ r', Reordered r r' ∧ r'.Reads method b resource := by
  cases r with
  | publishSchema =>
    obtain ⟨hm, hresource, hr⟩ := hr
    exact ⟨_, .publishSchema, hm, hresource, hr.sameValue hP h⟩
  | createResource profile options =>
    obtain ⟨hm, hresource, hr⟩ := hr
    obtain ⟨profile', options', hr', hprofile, hoptions⟩ := hr.sameValue hP h
    exact ⟨_, .createResource hprofile hoptions, hm, hresource, hr'⟩
  | put p =>
    obtain ⟨hm, hresource, hr⟩ := hr
    obtain ⟨creationContext, provenance, hr', hcontext, hprovenance⟩ := hr.sameValue h
    exact ⟨_, .put p hcontext hprovenance, hm, hresource.sameValue hP h, hr'⟩
  | read reference =>
    obtain ⟨hm, hresource, hf, hr⟩ := hr
    exact ⟨_, .read reference, hm, hresource.sameValue hP h, exactFields_sameValue h hf, hr.sameValue hP h⟩
  | readRange reference range =>
    obtain ⟨hm, hresource, hf, hr, hrange⟩ := hr
    exact ⟨_, .readRange reference range, hm, hresource.sameValue hP h, exactFields_sameValue h hf,
      hr.sameValue hP h, hrange.sameValue h⟩
  | list limit =>
    obtain ⟨hm, hresource, hr⟩ := hr
    exact ⟨_, .list limit, hm, hresource.sameValue hP h, hr.sameValue h⟩
  | delete reference =>
    obtain ⟨hm, hresource, hf, hr, hreason⟩ := hr
    exact ⟨_, .delete reference, hm, hresource.sameValue hP h, exactFields_sameValue h hf, hr.sameValue hP h,
      hreason.sameValue h⟩

/-- The rewritten arguments are the same value as well. -/
theorem Reordered.update_sameValue {r r' : Request P} (hreq : Reordered r r') (h : SameValue (.obj a) (.obj b))
    {method method' : Str} {resource : ResourceRef} (hr : r.Reads method a resource)
    (hr' : r'.Reads method' b resource) :
    SameValue (.obj (Dict.update a r.updates)) (.obj (Dict.update b r'.updates)) := by
  refine Json.sameValue_of_get? (wellFormed_update h.left (updates_wellFormed h.left hr))
    (wellFormed_update h.right (updates_wellFormed h.right hr')) fun k => ?_
  have hupdates : (Dict.get? r.updates k).map Json.canon = (Dict.get? r'.updates k).map Json.canon := by
    rw [← Json.get?_canonEntries, ← Json.get?_canonEntries, hreq.canonEntries_updates]
  rw [get?_update, get?_update, Option.map_or, Option.map_or, hupdates, h.get? k]

/-- Only a put has user metadata, and it is written anew. -/
theorem get?_update_userMetadata {r : Request P} {method : Str} {resource : ResourceRef}
    (hr : r.Reads method a resource) :
    Dict.get? (Dict.update a r.updates) (str "userMetadata") = Dict.get? r.updates (str "userMetadata") := by
  have hnone : ∀ {fields : List String}, "userMetadata" ∉ fields → exactFields a fields = .ok () →
      Dict.get? a (str "userMetadata") = none := by
    intro fields hfields hf
    refine Dict.get?_eq_none_iff.mpr fun hk => hfields ?_
    simpa using (exactFields_eq_ok.mp hf).2 _ hk
  rw [get?_update]
  cases r with
  | publishSchema => simp [updates, hnone (by decide) hr.2.2.fields]
  | createResource profile options => simp [updates, hnone (by decide) hr.2.2.fields]
  | put p => rfl
  | read reference => simp [updates, hnone (by decide) hr.2.2.1]
  | readRange reference range => simp [updates, hnone (by decide) hr.2.2.1]
  | list limit => simp [updates, hnone (by decide) hr.2.2.fields]
  | delete reference => simp [updates, hnone (by decide) hr.2.2.1]

/-- The user metadata that a request writes has its keys in order. -/
theorem userMetadata_sorted {r : Request P} {method : Str} {resource : ResourceRef} (hw : Json.WellFormed (.obj a))
    (hr : r.Reads method a resource) {d : Object} (hd : Dict.get? r.updates (str "userMetadata") = some (.obj d)) :
    (Dict.keys d).Pairwise (· < ·) := by
  cases r with
  | put p =>
    obtain ⟨raw, hraw, hstrings⟩ := hr.2.2.metadata.userMetadata
    have hwire : Dict.get? p.updates (str "userMetadata") = some (.obj (wireStrings p.userMetadata)) := rfl
    obtain rfl : wireStrings p.userMetadata = d := Json.obj.inj (Option.some.inj (hwire.symm.trans hd))
    exact keys_stringMapping_sorted (hw.get? hraw).keys_nodup hstrings
  | _ => simp [updates] at hd

/-- The user metadata that such requests write is the same, entry for entry. -/
theorem Reordered.get?_userMetadata {r r' : Request P} (hreq : Reordered r r') :
    Dict.get? r.updates (str "userMetadata") = Dict.get? r'.updates (str "userMetadata") := by
  cases hreq with
  | createResource _ _ => simp [updates]
  | put p _ _ => rfl
  | _ => rfl

end Request

/-! ## Normalization -/

/-- Two Operations that differ in the order of their input's entries, those of the user metadata apart. -/
structure Operation.Reordered (o o' : Operation) : Prop where
  catalog : o'.catalog = o.catalog
  operationContract : o'.operationContract = o.operationContract
  operationVersion : o'.operationVersion = o.operationVersion
  resources : o'.resources = o.resources
  requirements : o'.requirements = o.requirements
  readOnly : o'.readOnly = o.readOnly
  idempotent : o'.idempotent = o.idempotent
  input : Json.Reordered (.obj o.input) (.obj o'.input)
  userMetadata : Dict.get? o'.input "userMetadata" = Dict.get? o.input "userMetadata"
  sorted : ∀ d, Dict.get? o.input "userMetadata" = some (.obj d) → (Dict.keys d).Pairwise (· < ·)

variable {e e' : Expression} {contract : OperationContract} {resource : ResourceRef} {r r' : Request P}

theorem operationOf_reordered (hmethod : e'.method = e.method) (hreq : Request.Reordered r r') :
    operationOf P e' contract resource r' =
      { operationOf P e contract resource r with input := Dict.update e'.arguments r'.updates } := by
  simp only [operationOf, hmethod, hreq.demands_eq]

/-- What is accepted in one order is accepted in another. -/
theorem Accepts.sameValue (hP : P.IgnoresOrder) (hcatalog : e'.catalog = e.catalog) (hmethod : e'.method = e.method)
    (h : SameValue (.obj e.arguments) (.obj e'.arguments)) (ha : Accepts P e contract resource r) :
    ∃ r', Request.Reordered r r' ∧ Accepts P e' contract resource r' := by
  obtain ⟨r', hreq, hreads⟩ := ha.reads.sameValue hP h
  rw [← hmethod] at hreads
  have hinput := hreq.update_sameValue h ha.reads hreads
  have hread : ReadAs P e' contract resource r' :=
    ⟨hcatalog.trans ha.catalog, hmethod ▸ ha.method, fun hp => ha.noPrivateKey (hp.sameValue h.symm), hreads⟩
  refine ⟨r', hreq, hread, ?_, ?_⟩
  · rw [hmethod, hreq.demands_eq]
    exact ha.requirements
  · rw [operationOf_reordered hmethod hreq]
    exact hP.checkOperation hinput ha.operation

theorem normalize_sameValue (hP : P.IgnoresOrder) (hcatalog : e'.catalog = e.catalog)
    (hmethod : e'.method = e.method) (h : SameValue (.obj e.arguments) (.obj e'.arguments)) {o : Operation}
    (ho : normalize P e = .ok o) : ∃ o', normalize P e' = .ok o' ∧ o.Reordered o' := by
  obtain ⟨contract, resource, r, ha, rfl⟩ := normalize_eq_ok.mp ho
  obtain ⟨r', hreq, ha'⟩ := ha.sameValue hP hcatalog hmethod h
  refine ⟨_, normalize_eq_ok.mpr ⟨contract, resource, r', ha', rfl⟩, ?_⟩
  have hinput := hreq.update_sameValue h ha.reads ha'.reads
  have hmetadata : ∀ {e : Expression} {r : Request P}, r.Reads e.method e.arguments resource →
      Dict.get? (operationOf P e contract resource r).input (str "userMetadata") =
        Dict.get? r.updates (str "userMetadata") := fun hr => Request.get?_update_userMetadata hr
  have hrequirements : (operationOf P e' contract resource r').requirements =
      (operationOf P e contract resource r).requirements := by
    rw [operationOf_reordered hmethod hreq]
  have hidempotent : (operationOf P e' contract resource r').idempotent =
      (operationOf P e contract resource r).idempotent := by
    rw [operationOf_reordered hmethod hreq]
  refine ⟨rfl, rfl, rfl, rfl, hrequirements, rfl, hidempotent, hinput.reordered, ?_, fun d hd => ?_⟩
  · rw [hmetadata ha.reads, hmetadata ha'.reads, hreq.get?_userMetadata]
  · exact Request.userMetadata_sorted h.left ha.reads ((hmetadata ha.reads).symm.trans hd)

namespace Contracts

theorem logicalName_sameValue {v w : Json} (h : SameValue v w) {field : String} {n : LogicalName}
    (hn : logicalName v field = .ok n) : logicalName w field = .ok n := by
  obtain rfl := logicalName_eq_ok.mp hn
  rw [Json.rigid_str _ w h.canon.symm]
  exact hn

theorem boundedString_sameValue {v w : Json} (h : SameValue v w) {field : String} {maximum : Nat}
    {s : BoundedString maximum} (hs : boundedString v field maximum = .ok s) :
    boundedString w field maximum = .ok s := by
  obtain rfl := boundedString_eq_ok.mp hs
  rw [Json.rigid_str _ w h.canon.symm]
  exact hs

theorem newResourceRef_sameValue {catalog : Str} {n n' m m' : Json} {ref : ResourceRef} (hn : SameValue n n')
    (hm : SameValue m m') (h : newResourceRef catalog n m = .ok ref) : newResourceRef catalog n' m' = .ok ref := by
  simp only [newResourceRef, bind_eq_ok] at h ⊢
  obtain ⟨x, hx, y, hy, href⟩ := h
  exact ⟨x, logicalName_sameValue hn hx, y, logicalName_sameValue hm hy, href⟩

theorem resourceDocument_sameValue (h : SameValue (.obj a) (.obj b)) {catalog : Str}
    {names : LogicalName × LogicalName} (hd : resourceDocument a catalog = .ok names) :
    resourceDocument b catalog = .ok names := by
  obtain ⟨n, m⟩ := names
  rw [resourceDocument_eq_ok] at hd ⊢
  exact h.same (by simp [resourceToDict, Json.rigid_str]) hd

theorem parseResourceRef_sameValue {catalog : Str} {v w : Json} {ref : ResourceRef} (h : SameValue v w)
    (hr : parseResourceRef v catalog = .ok ref) : parseResourceRef w catalog = .ok ref := by
  cases v with
  | str s =>
    rw [Json.rigid_str _ w h.canon.symm]
    exact hr
  | obj d =>
    obtain ⟨d', rfl⟩ := Json.eq_obj_of_canon h.canon.symm
    simp only [parseResourceRef, bind_eq_ok] at hr ⊢
    obtain ⟨names, hnames, href⟩ := hr
    exact ⟨names, resourceDocument_sameValue h hnames, href⟩
  | _ => cases hr

theorem rigid_empty : Json.Rigid (.obj []) := by
  intro w h
  obtain ⟨d, rfl⟩ := Json.eq_obj_of_canon h
  cases d with
  | nil => rfl
  | cons e d =>
    have hlength := congrArg List.length (Json.obj.inj h)
    rw [(Json.sortEntries_perm _).length_eq, (Json.sortEntries_perm _).length_eq, Json.canonEntries_eq_map] at hlength
    cases hlength

/-- These Core and Semantics do not see the order of entries. -/
theorem ignoresOrder : contracts.IgnoresOrder where
  newResourceRef := newResourceRef_sameValue
  parseResourceRef := parseResourceRef_sameValue
  newSchemaRef hn hm hv h := by
    simp only [contracts, bind_eq_ok] at h ⊢
    obtain ⟨x, hx, y, hy, z, hz, hu⟩ := h
    exact ⟨x, logicalName_sameValue hn hx, y, logicalName_sameValue hm hy, z, boundedString_sameValue hv hz, hu⟩
  parseResourceReference h hr := by
    simp only [contracts, parseResourceReference, bind_eq_ok] at hr ⊢
    obtain ⟨names, hnames, hr⟩ := hr
    exact ⟨names, resourceDocument_sameValue h hnames, hr⟩
  newObjectReference {resource o o' d d' r} ho hd h := by
    obtain ⟨hresource, rfl, rfl⟩ := newObjectReference_eq_ok.mp h
    have hdigest : Json.Rigid (Json.nullable .str r.digestText) := Json.rigid_nullable Json.rigid_str _
    rw [Json.rigid_str _ o' ho.canon.symm, hdigest d' hd.canon.symm]
    exact h
  profileFromMapping {a b q p} h hq hp := by
    refine ⟨q, p, ?_, hp, .refl (profileToDict_wellFormed p)⟩
    have hrigid : ∀ e ∈ profileToDict q, Json.Rigid e.2 := by
      simp [profileToDict, Json.rigid_str, Json.rigid_bool, rigid_empty]
    exact profileFromMapping_eq_ok.mpr (h.same hrigid (profileFromMapping_eq_ok.mp hq))
  checkOperation _ _ := rfl

end Contracts

/-- **Normalization does not see the order of entries**: Expressions whose arguments differ in it are both
rejected or both accepted, and their Operations differ in the order of their input alone. -/
theorem normalize_reordered (hP : P.IgnoresOrder) {e e' : Expression} (hcatalog : e'.catalog = e.catalog)
    (hmethod : e'.method = e.method) (h : Json.Reordered (.obj e.arguments) (.obj e'.arguments)) :
    ((∃ o, normalize P e = .ok o) ↔ ∃ o', normalize P e' = .ok o') ∧
      ∀ o o', normalize P e = .ok o → normalize P e' = .ok o' → o.Reordered o' := by
  have hsame := h.sameValue e.wellFormed
  refine ⟨⟨?_, ?_⟩, ?_⟩
  · rintro ⟨o, ho⟩
    obtain ⟨o', ho', -⟩ := normalize_sameValue hP hcatalog hmethod hsame ho
    exact ⟨o', ho'⟩
  · rintro ⟨o', ho'⟩
    obtain ⟨o, ho, -⟩ := normalize_sameValue hP hcatalog.symm hmethod.symm hsame.symm ho'
    exact ⟨o, ho⟩
  · intro o o' ho ho'
    obtain ⟨o₁, ho₁, hreordered⟩ := normalize_sameValue hP hcatalog hmethod hsame ho
    obtain rfl : o₁ = o' := Except.ok.inj (ho₁.symm.trans ho')
    exact hreordered

/-- The metadata of the fixture's put, in another order. -/
def Contracts.reorderedMetadata : Json := .obj [("kind", .str "test"), ("purpose", .str "fixture")]

/-- The fixture's put with its arguments, and the entries of its user metadata, in another order. -/
def Contracts.reorderedPutFixture : Expression where
  catalog := "object"
  method := "put"
  arguments := (Dict.set putFixture.arguments "userMetadata" reorderedMetadata).reverse
  wellFormed := by
    have hmetadata : Json.WellFormed reorderedMetadata := .obj (by decide) (by simp [Json.WellFormed.str])
    have hset := putFixture.wellFormed.set (k := "userMetadata") hmetadata
    have hkeys := (List.reverse_perm (Dict.set putFixture.arguments "userMetadata" reorderedMetadata)).map Prod.fst
    exact .obj (hkeys.nodup_iff.mpr hset.keys_nodup) fun e he => hset.entry (List.mem_reverse.mp he)

theorem Contracts.reordered_putFixture :
    Json.Reordered (.obj putFixture.arguments) (.obj reorderedPutFixture.arguments) := by
  have hmetadata : Json.Reordered (.obj [("purpose", .str "fixture"), ("kind", .str "test")]) reorderedMetadata :=
    .perm (.swap _ _ _)
  have hentry : Json.Reordered
      (.obj (putFixture.arguments.take 6 ++ (str "userMetadata", _) :: putFixture.arguments.drop 7))
      (.obj (putFixture.arguments.take 6 ++ (str "userMetadata", _) :: putFixture.arguments.drop 7)) := .entry hmetadata
  exact hentry.trans (.perm (List.reverse_perm _).symm)

theorem normalize_reordered_putFixture :
    ∃ o o', normalize contracts Contracts.putFixture = .ok o ∧
      normalize contracts Contracts.reorderedPutFixture = .ok o' ∧ o.Reordered o' := by
  have hcatalog : Contracts.reorderedPutFixture.catalog = Contracts.putFixture.catalog := rfl
  have hmethod : Contracts.reorderedPutFixture.method = Contracts.putFixture.method := rfl
  obtain ⟨hiff, hreordered⟩ :=
    normalize_reordered Contracts.ignoresOrder hcatalog hmethod Contracts.reordered_putFixture
  obtain ⟨o, ho⟩ := normalize_putFixture
  obtain ⟨o', ho'⟩ := hiff.mp ⟨o, ho⟩
  exact ⟨o, o', ho, ho', hreordered o o' ho ho'⟩

end ObjectCommon
