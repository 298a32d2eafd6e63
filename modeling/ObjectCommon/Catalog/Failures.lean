import ObjectCommon.Catalog.Boundary

/-!
# Normalization fails in one way

* `ArgumentError` : what the validators raise themselves: `TypeError`, `ValueError` or `ObjectInvalidRequest`;
* `normalizeArguments_raises` : they raise nothing else but what the packages raise, and no field they read is missing;
* `normalize_stable` : `normalize` returns an Operation or raises `ObjectInvalidRequest`.
-/

namespace ObjectCommon

open Outcome PyError

variable {P : Packages}

/-- What the validators of a request raise themselves. -/
def ArgumentError (e : PyError) : Prop := IsTypeOrValueError e ∨ IsObjectInvalidRequest e

theorem HasFields.update {value : Object} {fields : List String} (h : HasFields value fields) (u : Object) :
    HasFields (Dict.update value u) fields := by
  induction u generalizing value with
  | nil => exact h
  | cons e u ih => exact ih (h.set e.1 e.2)

theorem PyError.translate_of {E : PyError → Prop} {f : PyError → PyError} {e : PyError} (he : E e) (hf : E (f e)) :
    E (translate f e) := by
  unfold translate
  split
  · exact hf
  · exact he

/-! ## References -/

section Arguments

variable {E : PyError → Prop} (hP : P.RaisesDocumented E) (hE : ∀ e, ArgumentError e → E e)

include hE

/-- What a validator raises itself is among the exceptions of `E`. -/
theorem raisesOnly_of_valueErrors {α : Type} {x : Py α} (h : RaisesValueErrors x) : RaisesOnly E x :=
  h.mono fun e he => hE e (Or.inl he)

include hP

/-- A logical reference is rejected with `TypeError`, `ValueError` or `ObjectInvalidRequest`. -/
theorem parseLogicalReference_raises (value : Object) : RaisesOnly E (parseLogicalReference P value) := by
  have hV : ∀ e, IsTypeOrValueError e → E e := fun e he => hE e (Or.inl he)
  unfold parseLogicalReference
  refine RaisesOnly.ite (fun _ => (SignedObjectReference.fromMapping_raises hP.toRaisesOfReferences hV value).map)
    fun _ => ((parseObjectReference_raises hP.toRaisesOfReferences hV _ _).mapError fun e he => ?_).map
  exact translate_of he (hE _ (Or.inr ⟨_, _, rfl⟩))

theorem normalizeReference_raises {value : Object} {fields : List String} (h : HasFields value fields)
    (hk : "reference" ∈ fields) (resource : ResourceRef) (method : Str) (requireDigest : Bool) :
    RaisesOnly E (normalizeReference P value resource method requireDigest) := by
  refine (h.getItem_raises hk).bind fun raw _ => (raisesOnly_of_valueErrors hE (asMapping_raises raw _)).bind fun raw _ =>
    (parseLogicalReference_raises hP hE raw).bind fun parsed _ => ?_
  cases parsed with
  | signed s =>
    exact (raisesOnly_of_valueErrors hE (raiseIf_raises _ _)).bind fun _ _ =>
      (raisesOnly_of_valueErrors hE (raiseIf_raises _ _)).bind fun _ _ => RaisesOnly.pure _
  | object r =>
    exact (raisesOnly_of_valueErrors hE (raiseIf_raises _ _)).bind fun _ _ =>
      (raisesOnly_of_valueErrors hE (raiseIf_raises _ _)).bind fun _ _ => RaisesOnly.pure _

theorem parseResource_raises (value : Json) : RaisesOnly E (parseResource P value) :=
  (hP.parseResourceRef value).mapError fun _ he => translate_of he (hE _ (Or.inl rfl))

end Arguments

/-- A normalized reference keeps the fields of the request. -/
theorem hasFields_normalizeReference {value v : Object} {fields : List String} {resource : ResourceRef}
    {method : Str} {requireDigest signed : Bool} (h : HasFields value fields)
    (hv : normalizeReference P value resource method requireDigest = .ok (v, signed)) : HasFields v fields := by
  obtain ⟨reference, -, rfl, -⟩ := normalizeReference_eq_ok.mp hv
  exact h.set _ _

/-! ## Registry operations -/

section Registry

variable {E : PyError → Prop} (hP : P.RaisesDocumented E) (hE : ∀ e, ArgumentError e → E e)

include hP hE

theorem validatePublishSchema_raises (value : Object) : RaisesOnly E (validatePublishSchema P value) :=
  (raisesOnly_of_valueErrors hE (exactFields_raises _ _ _)).bind fun _ hf =>
    (getItem_raises hf (by simp)).bind fun _ _ =>
    (getItem_raises hf (by simp)).bind fun _ _ =>
    (hP.newResourceRef _ _).bind fun _ _ =>
    (getItem_raises hf (by simp)).bind fun _ _ =>
    (hP.newSchemaRef _ _ _).bind fun _ _ =>
    (getItem_raises hf (by simp)).bind fun _ _ =>
    (raisesOnly_of_valueErrors hE (jsonMapping_raises _ _)).bind fun _ _ =>
    (getItem_raises hf (by simp)).bind fun _ _ =>
    (raisesOnly_of_valueErrors hE (asBool_raises _ _)).bind fun _ _ =>
    (getItem_raises hf (by simp)).bind fun _ _ =>
    (raisesOnly_of_valueErrors hE (unlessNone_raises (nonNegativeInt_raises _ _))).bind fun _ _ => RaisesOnly.pure _

theorem validateCreateResource_raises (value : Object) : RaisesOnly E (validateCreateResource P value) :=
  (raisesOnly_of_valueErrors hE (exactFields_raises _ _ _)).bind fun _ hf =>
    (getItem_raises hf (by simp)).bind fun _ _ =>
    (getItem_raises hf (by simp)).bind fun _ _ =>
    (hP.newResourceRef _ _).bind fun _ _ =>
    (getItem_raises hf (by simp)).bind fun _ _ =>
    (raisesOnly_of_valueErrors hE (asMapping_raises _ _)).bind fun _ _ =>
    (parseObjectProfile_raises hP (fun e he => hE e (Or.inl he)) _).bind fun _ _ =>
    (((hasFields_of_exactFields hf).set _ _).getItem_raises (by simp)).bind fun _ _ =>
    (raisesOnly_of_valueErrors hE (jsonMapping_raises _ _)).bind fun _ _ => RaisesOnly.pure _

end Registry

/-! ## Put -/

section Put

variable {value : Object} (h : HasFields value putFields)

include h

theorem putPayload_raises : RaisesValueErrors (putPayload value) :=
  (h.getItem_raises (by simp [putFields])).bind fun _ _ =>
    (asMapping_raises _ _).bind fun _ _ =>
    (PayloadReference.fromMapping_raises _).bind fun _ _ =>
    (h.getItem_raises (by simp [putFields])).bind fun _ _ =>
    (unlessNone_raises (digest_raises _ _)).bind fun _ _ =>
    (h.getItem_raises (by simp [putFields])).bind fun _ _ =>
    (unlessNone_raises (nonNegativeInt_raises _ _)).bind fun _ _ =>
    (raiseIf_raises _ _).bind fun _ _ =>
    (raiseIf_raises _ _).bind fun _ _ =>
    (PayloadReference.new_raises _ _ _ _ _).bind fun _ _ => RaisesOnly.pure _

theorem putIdentity_raises {E : PyError → Prop} (hP : P.RaisesDocumented E) (hE : ∀ e, ArgumentError e → E e)
    {raw : Json} {resource : ResourceRef} (hresource : P.parseResourceRef raw "object" = .ok resource)
    (d : Option Digest) : RaisesOnly E (putIdentity P value resource d) :=
  (h.getItem_raises (by simp [putFields])).bind fun _ _ =>
    (raisesOnly_of_valueErrors hE (mediaType_raises _)).bind fun _ _ =>
    (h.getItem_raises (by simp [putFields])).bind fun _ _ =>
    (raisesOnly_of_valueErrors hE (boundedString_raises _ _ _)).bind fun _ _ =>
    (hP.newResourceReference _ _ hresource).bind fun _ _ =>
    (hP.newObjectReference _ _ _).bind fun _ _ => RaisesOnly.pure _

theorem putMetadata_raises : RaisesValueErrors (putMetadata value) :=
  (h.getItem_raises (by simp [putFields])).bind fun _ _ =>
    (stringMapping_raises _ _ _ _ _).bind fun _ _ =>
    ((h.set _ _).getItem_raises (by simp [putFields])).bind fun _ _ =>
    (jsonMapping_raises _ _).bind fun _ _ =>
    (((h.set _ _).set _ _).getItem_raises (by simp [putFields])).bind fun _ _ =>
    (jsonMapping_raises _ _).bind fun _ _ => RaisesOnly.pure _

theorem putImmutability_raises (gs : List Str) : RaisesValueErrors (putImmutability value gs) := by
  refine (h.getItem_raises (by simp [putFields])).bind fun _ _ =>
    (unlessNone_raises ((asMapping_raises _ _).bind fun _ _ =>
      ImmutabilityRequest.fromMapping_raises _)).bind fun im _ => ?_
  cases im <;> exact RaisesOnly.pure _

theorem putRetention_raises (gs : List Str) : RaisesValueErrors (putRetention value gs) := by
  refine (h.getItem_raises (by simp [putFields])).bind fun _ _ =>
    (unlessNone_raises ((asMapping_raises _ _).bind fun _ _ =>
      RetentionRequest.fromMapping_raises _)).bind fun rt _ => ?_
  cases rt <;> exact RaisesOnly.pure _

theorem hasFields_putPayload {v : Object} {d : Option Digest} {l : Option Nat}
    (hv : putPayload value = .ok (v, d, l)) : HasFields v putFields := by
  obtain ⟨_, _, -, -, -, -, -, -, rfl⟩ := putPayload_eq_ok.mp hv
  exact h.update _

theorem hasFields_putMetadata {v : Object} {n : Nat} (hv : putMetadata value = .ok (v, n)) :
    HasFields v putFields := by
  obtain ⟨_, _, _, _, -, -, -, -, rfl, -⟩ := putMetadata_eq_ok.mp hv
  exact h.update _

theorem hasFields_putImmutability {v : Object} {gs gs' : List Str}
    (hv : putImmutability value gs = .ok (v, gs')) : HasFields v putFields := by
  obtain ⟨_, -, rfl, -⟩ := putImmutability_eq_ok.mp hv
  exact h.update _

theorem hasFields_putRetention {v : Object} {gs gs' : List Str}
    (hv : putRetention value gs = .ok (v, gs')) : HasFields v putFields := by
  obtain ⟨_, -, rfl, -⟩ := putRetention_eq_ok.mp hv
  exact h.update _

end Put

/-- No stage of a put reads a field that is not there. -/
theorem validatePut_raises {E : PyError → Prop} (hP : P.RaisesDocumented E) (hE : ∀ e, ArgumentError e → E e)
    (value : Object) {raw : Json} {resource : ResourceRef} (hresource : P.parseResourceRef raw "object" = .ok resource) :
    RaisesOnly E (validatePut P value resource) := by
  refine (raisesOnly_of_valueErrors hE (exactFields_raises _ _ _)).bind fun _ hf => ?_
  have h := hasFields_of_exactFields hf
  refine (raisesOnly_of_valueErrors hE (putPayload_raises h)).bind fun ⟨v₁, d, l⟩ hv₁ => ?_
  have h₁ := hasFields_putPayload h hv₁
  refine (putIdentity_raises h₁ hP hE hresource d).bind fun _ _ => ?_
  refine (raisesOnly_of_valueErrors hE (putMetadata_raises h₁)).bind fun ⟨v₂, n⟩ hv₂ => ?_
  have h₂ := hasFields_putMetadata h₁ hv₂
  refine (raisesOnly_of_valueErrors hE (putImmutability_raises h₂ [])).bind fun ⟨v₃, gs⟩ hv₃ => ?_
  have h₃ := hasFields_putImmutability h₂ hv₃
  refine (raisesOnly_of_valueErrors hE (putRetention_raises h₃ gs)).bind fun ⟨v₄, gs'⟩ hv₄ => ?_
  have h₄ := hasFields_putRetention h₃ hv₄
  exact (h₄.getItem_raises (by simp [putFields])).bind fun _ _ =>
    (raisesOnly_of_valueErrors hE (asBool_raises _ _)).bind fun _ _ => RaisesOnly.pure _

/-! ## Data operations -/

section Reference

variable {E : PyError → Prop} (hP : P.RaisesDocumented E) (hE : ∀ e, ArgumentError e → E e) (method : Str)
  (value : Object) (resource : ResourceRef)

include hP hE

theorem validateRead_raises : RaisesOnly E (validateRead P method value resource) :=
  (raisesOnly_of_valueErrors hE (exactFields_raises _ _ _)).bind fun _ hf =>
    (normalizeReference_raises hP hE (hasFields_of_exactFields hf) (by simp) resource method false).bind
      fun _ _ => RaisesOnly.pure _

/-- The failed assertion of `requested_length` is out of reach. -/
theorem validateReadRange_raises : RaisesOnly E (validateReadRange P method value resource) := by
  refine (raisesOnly_of_valueErrors hE (exactFields_raises _ _ _)).bind fun _ hf => ?_
  have h := hasFields_of_exactFields hf
  refine (normalizeReference_raises hP hE h (by simp) resource method false).bind fun ⟨v, signed⟩ hv => ?_
  have h' := hasFields_normalizeReference h hv
  refine (h'.getItem_raises (by simp)).bind fun _ _ =>
    (raisesOnly_of_valueErrors hE (asMapping_raises _ _)).bind fun _ _ =>
    (raisesOnly_of_valueErrors hE (ByteRange.fromMapping_raises _)).bind fun range _ => ?_
  rw [range.requestedLength_eq]
  exact RaisesOnly.ok _

theorem validateDelete_raises : RaisesOnly E (validateDelete P method value resource) := by
  refine (raisesOnly_of_valueErrors hE (exactFields_raises _ _ _)).bind fun _ hf => ?_
  have h := hasFields_of_exactFields hf
  refine (normalizeReference_raises hP hE h (by simp) resource method true).bind fun ⟨v, signed⟩ hv => ?_
  have h' := hasFields_normalizeReference h hv
  exact (h'.getItem_raises (by simp)).bind fun _ _ =>
    (raisesOnly_of_valueErrors hE (unlessNone_raises (boundedString_raises _ _ _))).bind fun _ _ => RaisesOnly.pure _

end Reference

theorem listPrefix_raises (value : Json) : RaisesValueErrors (listPrefix value) := by
  unfold listPrefix
  split
  · split
    · exact RaisesOnly.error rfl
    · exact (raiseIf_raises _ _).bind fun _ _ => (raiseIf_raises _ _).bind fun _ _ => RaisesOnly.pure _
  · exact RaisesOnly.error rfl

theorem validateList_raises (value : Object) : RaisesValueErrors (validateList value) :=
  (exactFields_raises _ _ _).bind fun _ hf =>
    (getItem_raises hf (by simp)).bind fun _ _ =>
    (listPrefix_raises _).bind fun _ _ =>
    (getItem_raises hf (by simp)).bind fun _ _ =>
    (positiveInt_raises _ _).bind fun _ _ =>
    (raiseIf_raises _ _).bind fun _ _ =>
    (getItem_raises hf (by simp)).bind fun _ _ =>
    (unlessNone_raises (boundedString_raises _ _ _)).bind fun _ _ =>
    (getItem_raises hf (by simp)).bind fun _ _ =>
    (raiseIf_raises _ _).bind fun _ _ => RaisesOnly.pure _

/-! ## Normalization -/

section Normalization

variable {E E' : PyError → Prop} (hP : P.RaisesDocumented E) (hE : ∀ e, ArgumentError e → E e)

include hP hE

theorem validateDataArguments_raises (method : Str) (value : Object) {raw : Json} {resource : ResourceRef}
    (hresource : P.parseResourceRef raw "object" = .ok resource) :
    RaisesOnly E (validateDataArguments P method value resource) := by
  unfold validateDataArguments
  refine RaisesOnly.ite (fun _ => validatePut_raises hP hE value hresource) fun _ => ?_
  refine RaisesOnly.ite (fun _ => validateRead_raises hP hE method value resource) fun _ => ?_
  refine RaisesOnly.ite (fun _ => validateReadRange_raises hP hE method value resource) fun _ => ?_
  refine RaisesOnly.ite (fun _ => raisesOnly_of_valueErrors hE (validateList_raises value)) fun _ => ?_
  exact RaisesOnly.ite (fun _ => validateDelete_raises hP hE method value resource)
    fun _ => RaisesOnly.error (hE _ (Or.inl rfl))

/-- **Whatever the arguments, the validators raise only `TypeError`, `ValueError` or `ObjectInvalidRequest`**, and
what the packages raise. -/
theorem normalizeArguments_raises (method : Str) (arguments : Object) :
    RaisesOnly E (normalizeArguments P method arguments) := by
  refine (raisesOnly_of_valueErrors hE ((rejectPrivateConfiguration_raises _ _).mono ?_)).bind fun _ _ => ?_
  · rintro _ ⟨m, rfl⟩
    rfl
  · refine RaisesOnly.ite (fun _ => ?_) fun _ => ?_
    · refine RaisesOnly.bind ?_ fun _ _ => RaisesOnly.pure _
      exact RaisesOnly.ite (fun _ => validatePublishSchema_raises hP hE arguments)
        fun _ => validateCreateResource_raises hP hE arguments
    · exact (parseResource_raises hP hE _).bind fun resource hresource =>
        (validateDataArguments_raises hP hE method arguments (mapError_eq_ok.mp hresource)).bind
          fun _ _ => RaisesOnly.pure _

omit hP hE in
theorem requirements_raises {method : Str} {demands : Demands}
    (h : ∀ q ∈ requirementsOf P method demands, RaisesOnly E (P.checkRequirement q)) :
    RaisesOnly E (requirements P method demands) := by
  unfold requirementsOf at h
  refine RaisesOnly.ite (fun hd => ?_) fun _ => RaisesOnly.pure _
  rw [if_pos hd] at h
  exact RaisesOnly.bind ((h _ (List.mem_singleton_self _)).bind fun _ _ => RaisesOnly.pure _) fun _ _ => RaisesOnly.pure _

/-- `normalize` raises `ObjectInvalidRequest`, what it does not translate, and what the checks of its records raise. -/
theorem normalize_raises (hI : ∀ e, IsObjectInvalidRequest e → E' e) (htranslated : ∀ e, E e → IsTypeOrValueError e ∨ E' e)
    {e : Expression}
    (hrequirement : ∀ contract resource (r : Request P), ReadAs P e contract resource r →
      ∀ q ∈ requirementsOf P e.method r.demands, RaisesOnly E' (P.checkRequirement q))
    (hoperation : ∀ contract resource (r : Request P), ReadAs P e contract resource r →
      RaisesOnly E' (P.checkOperation (operationOf P e contract resource r))) :
    RaisesOnly E' (normalize P e) := by
  refine (RaisesOnly.raiseIf fun _ => hI _ ⟨_, _, rfl⟩).bind fun _ hcatalog => ?_
  refine RaisesOnly.bind ?_ fun contract hcontract => ?_
  · intro err herr
    obtain ⟨err', herr', rfl⟩ := mapError_eq_error.mp herr
    rw [hP.operationFor _ _ _ herr']
    exact hI _ ⟨_, _, rfl⟩
  refine ((normalizeArguments_raises hP hE _ _).mapError fun err herr => ?_).bind fun ⟨input, resource, demands⟩ hargs => ?_
  · unfold PyError.translate
    split
    · exact hI _ ⟨_, _, rfl⟩
    · exact (htranslated err herr).resolve_left ‹_›
  obtain ⟨hpublic, r, hreads, rfl, rfl⟩ := normalizeArguments_eq_ok.mp (mapError_eq_ok.mp hargs)
  have hread : ReadAs P e contract resource r :=
    ⟨not_not.mp (raiseIf_eq_ok.mp hcatalog), mapError_eq_ok.mp hcontract, hpublic, hreads⟩
  refine (requirements_raises (hrequirement _ _ _ hread)).bind fun _ hrequirements => ?_
  obtain ⟨rfl, -⟩ := requirements_eq_ok.mp hrequirements
  exact (hoperation _ _ _ hread).bind fun _ _ => RaisesOnly.pure _

end Normalization

/-- **Normalization fails in one stable way**: whatever the Catalog, the method and the arguments, it
returns an Operation or raises `ObjectInvalidRequest`. -/
theorem normalize_stable (hP : P.RaisesDocumented IsTypeOrValueError) (hA : P.Admits) (e : Expression) :
    (∃ o, normalize P e = .ok o) ∨ ∃ m c, normalize P e = .error (ObjectInvalidRequest m c) := by
  rcases ok_or_error (normalize P e) with h | ⟨err, herr⟩
  · exact Or.inl h
  have hraises : RaisesOnly IsObjectInvalidRequest (normalize P e) := by
    have hraises : P.RaisesDocumented ArgumentError := hP.mono fun _ => Or.inl
    refine normalize_raises hraises (fun _ => id) (fun _ => id) (fun _ => id) ?_ ?_
    · intro contract resource r hread q hq
      rw [hA.checkRequirement _ _ _ _ hread q hq]
      exact RaisesOnly.ok _
    · intro contract resource r hread
      rw [hA.checkOperation _ _ _ _ hread]
      exact RaisesOnly.ok _
  obtain ⟨m, c, rfl⟩ := hraises err herr
  exact Or.inr ⟨m, c, herr⟩

theorem normalize_stable_getFixture :
    (∃ o, normalize contracts Contracts.getFixture = .ok o) ∨
      ∃ m c, normalize contracts Contracts.getFixture = .error (ObjectInvalidRequest m c) :=
  normalize_stable Contracts.raisesDocumented Contracts.admits Contracts.getFixture

end ObjectCommon
