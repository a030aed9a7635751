import Atlas.Tools

/-! What argument models accept, and what becomes of their own output. A model reads each declared field by
    its name, so its dump, handed back, is read field by field as the value the field was given. It is
    accepted unchanged exactly when every field takes its own value unchanged (`revalidates_iff`). -/

namespace Atlas

variable {coerce : String → Json → Except String Json} {after : String → Json → Except String Json}
  {title : String} {fields : List FieldDef} {args values : Args}

/-! ### One field -/

theorem checkLength_eq_ok {field : FieldDef} {s : String} {value : Json} :
    field.checkLength s = .ok value ↔ field.minLength.getD 0 ≤ s.length ∧
      field.maxLength.any (· < s.length) = false ∧ .str s = value := by
  simp only [FieldDef.checkLength, Fallible.ite_error_eq_ok, not_lt, Bool.not_eq_true, Except.ok.injEq]

/-- A required string field takes a string within its bounds. -/
theorem validate_str_eq_ok {field : FieldDef} {v : Option Json} {value : Json} (htype : field.type = "str")
    (hrequired : field.required = true) :
    field.validate coerce v = .ok value ↔ ∃ s, v = some (.str s) ∧ field.checkLength s = .ok value := by
  cases v with
  | none => simp [FieldDef.validate, hrequired]
  | some v => cases v <;> simp [FieldDef.validate, htype, hrequired]

/-- A value may be left out of a field that is not required. -/
theorem validate_null {field : FieldDef} (hrequired : field.required = false) :
    field.validate coerce (some .null) = .ok .null := by
  simp [FieldDef.validate, hrequired]

theorem validate_none_eq_ok {field : FieldDef} {w : Json} :
    field.validate coerce none = .ok w ↔ field.required = false ∧ w = .null := by
  cases hrequired : field.required <;> simp [FieldDef.validate, hrequired, eq_comm]

/-- A field of another type than text is read by the coercion, or left out. -/
theorem validate_coerced {field : FieldDef} (htype : field.type ≠ "str") (v : Json) :
    v = .null ∧ field.required = false ∨ field.validate coerce (some v) = coerce field.type v := by
  cases hrequired : field.required <;> cases v <;> simp [FieldDef.validate, hrequired, htype]

/-- What reading integers and truth values yields: values of their type, which are read as themselves.
    Nothing is read from null. -/
structure Coercion (coerce : String → Json → Except String Json) : Prop where
  int_ok : ∀ {v w : Json}, coerce "int" v = .ok w → ∃ n, w = .int n
  int_self : ∀ n : ℤ, coerce "int" (.int n) = .ok (.int n)
  bool_ok : ∀ {v w : Json}, coerce "bool" v = .ok w → ∃ b, w = .bool b
  bool_self : ∀ b : Bool, coerce "bool" (.bool b) = .ok (.bool b)
  null : ∀ type w, coerce type .null ≠ .ok w

/-- A null that a field takes stands for nothing. -/
theorem validate_null_eq_ok (hcoerce : Coercion coerce) {field : FieldDef} {v : Json}
    (h : field.validate coerce (some .null) = .ok v) :
    v = .null ∧ field.required = false := by
  cases hrequired : field.required with
  | false =>
    rw [validate_null hrequired] at h
    exact ⟨(Except.ok.inj h).symm, rfl⟩
  | true =>
    -- null is no text, and no other type is read from it
    by_cases hstr : field.type = "str"
    · simp [FieldDef.validate, hrequired, hstr] at h
    · have hread : field.validate coerce (some .null) = _ :=
        Or.resolve_left (validate_coerced hstr .null) (by simp [hrequired])
      exact absurd (hread ▸ h) (hcoerce.null _ _)

/-- One field of a model with validators of its own: the declaration, then the validator. -/
def FieldDef.check (coerce after : String → Json → Except String Json) (field : FieldDef) (v : Option Json) :
    Except String Json :=
  (field.validate coerce v).bind (after field.name)

theorem check_eq_ok {field : FieldDef} {v : Option Json} {value : Json} :
    field.check coerce after v = .ok value ↔
      ∃ declared, field.validate coerce v = .ok declared ∧ after field.name declared = .ok value :=
  Fallible.bind_eq_ok

/-! ### One model -/

/-- Which arguments are valid does not depend on the name of the model. -/
theorem modelValidate_eq_ok : modelValidate coerce title fields args = .ok values ↔
    List.Forall₂ (fun field v => ∃ value, field.validate coerce (Json.field? field.name args) = .ok value ∧
      (field.name, value) = v) fields values := by
  rw [modelValidate, Fallible.mapError_eq_ok, Fallible.mapM_eq_ok]
  simp only [Fallible.map_eq_ok]

/-- The same, read as the chain over the fields that the model runs. -/
theorem modelValidateAfter_eq_ok : modelValidateAfter coerce after title fields args = .ok values ↔
    fields.mapM (fun field => (field.check coerce after (Json.field? field.name args)).map
      fun v => (field.name, v)) = .ok values :=
  Fallible.mapError_eq_ok

/-- A model without validators is one whose validators let everything through. -/
theorem modelValidate_eq_after :
    modelValidate coerce title fields args =
      modelValidateAfter coerce (fun _ v => .ok v) title fields args := by
  have hbind : ∀ x : Except String Json, x.bind (fun v => .ok v) = x := fun x => by cases x <;> rfl
  simp only [modelValidate, modelValidateAfter, hbind]

/-- A model accepts the arguments of which every field accepts its own. -/
theorem exists_modelValidateAfter_iff :
    (∃ values, modelValidateAfter coerce after title fields args = .ok values) ↔
      ∀ field ∈ fields, ∃ value, field.check coerce after (Json.field? field.name args) = .ok value := by
  simp only [modelValidateAfter_eq_ok]
  constructor
  · rintro ⟨values, h⟩ field hfield
    obtain ⟨v, -, hv⟩ := Fallible.exists_mem_of_mapM_eq_ok h hfield
    exact Fallible.exists_map_eq_ok.mp ⟨v, hv⟩
  · intro h
    exact Fallible.exists_mapM_eq_ok fun field hfield => Fallible.exists_map_eq_ok.mpr (h field hfield)

/-- A required string field accepts a string within its bounds that its validator takes. -/
theorem exists_check_str_iff {field : FieldDef} {s : String} (htype : field.type = "str")
    (hrequired : field.required = true) :
    (∃ value, field.check coerce after (some (.str s)) = .ok value) ↔ field.minLength.getD 0 ≤ s.length ∧
      field.maxLength.any (· < s.length) = false ∧ ∃ value, after field.name (.str s) = .ok value := by
  simp only [check_eq_ok, validate_str_eq_ok htype hrequired, checkLength_eq_ok, Option.some.injEq]
  constructor
  · rintro ⟨value, -, ⟨s, heq, hmin, hmax, rfl⟩, hvalue⟩
    cases heq
    exact ⟨hmin, hmax, value, hvalue⟩
  · rintro ⟨hmin, hmax, value, hvalue⟩
    exact ⟨value, .str s, ⟨s, rfl, hmin, hmax, rfl⟩, hvalue⟩

/-! ### The dump of a model -/

/-- The dump lists the declared fields. -/
theorem map_fst_of_valid (h : modelValidateAfter coerce after title fields args = .ok values) :
    values.map (·.1) = fields.map (·.name) := by
  refine Fallible.map_eq_of_mapM_eq_ok ?_ (modelValidateAfter_eq_ok.mp h)
  intro field v hv
  obtain ⟨value, -, rfl⟩ := Fallible.map_eq_ok.mp hv
  rfl

/-- A declared field is read from the dump as what the model made of it. -/
theorem field?_of_valid (hnodup : (fields.map (·.name)).Nodup)
    (h : modelValidateAfter coerce after title fields args = .ok values) {field : FieldDef}
    (hfield : field ∈ fields) : ∃ value, Json.field? field.name values = some value ∧
      field.check coerce after (Json.field? field.name args) = .ok value := by
  obtain ⟨v, hv, hcheck⟩ := Fallible.exists_mem_of_mapM_eq_ok (modelValidateAfter_eq_ok.mp h) hfield
  obtain ⟨value, hvalue, rfl⟩ := Fallible.map_eq_ok.mp hcheck
  refine ⟨value, (Dict.lookup_eq_some_iff ?_).mpr hv, hvalue⟩
  rwa [map_fst_of_valid h]

/-- Arguments that every field reads alike are validated alike. -/
theorem modelValidateAfter_congr {args' : Args}
    (h : ∀ field ∈ fields, field.check coerce after (Json.field? field.name args) =
      field.check coerce after (Json.field? field.name args')) :
    modelValidateAfter coerce after title fields args =
      modelValidateAfter coerce after title fields args' := by
  refine congrArg (Except.mapError _) (Fallible.mapM_congr fun field hfield => ?_)
  exact congrArg (Except.map fun v => (field.name, v)) (h field hfield)

/-- What a model makes of its own dump, defaults handed along with it: the dump, exactly when every field
    takes the value it was given unchanged. -/
theorem revalidates_iff (defaults : Args) (hnodup : (fields.map (·.name)).Nodup)
    (h : modelValidateAfter coerce after title fields args = .ok values) :
    modelValidateAfter coerce after title fields (values ++ defaults) = .ok values ↔
      ∀ field ∈ fields, ∀ value, field.check coerce after (Json.field? field.name args) = .ok value →
        field.check coerce after (some value) = .ok value := by
  have hread : ∀ field ∈ fields, ∀ value,
      field.check coerce after (Json.field? field.name args) = .ok value →
        Json.field? field.name (values ++ defaults) = some value := by
    intro field hfield value hvalue
    obtain ⟨v, hv, hcheck⟩ := field?_of_valid hnodup h hfield
    rw [hvalue] at hcheck
    cases hcheck
    rw [Json.field?, List.lookup_append, ← Json.field?, hv, Option.some_or]
  constructor
  · intro hvalues field hfield value hvalue
    obtain ⟨v, hv, hcheck⟩ := field?_of_valid hnodup hvalues hfield
    obtain ⟨w, hw, hfirst⟩ := field?_of_valid hnodup h hfield
    rw [hread field hfield value hvalue] at hcheck
    rw [hw] at hv
    cases hv
    rw [hvalue] at hfirst
    cases hfirst
    exact hcheck
  · intro hfixed
    rw [← h]
    refine modelValidateAfter_congr fun field hfield => ?_
    obtain ⟨value, -, hvalue⟩ := field?_of_valid hnodup h hfield
    rw [hread field hfield value hvalue, hfixed field hfield value hvalue, hvalue]

end Atlas
