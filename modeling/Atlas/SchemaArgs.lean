import Atlas.ArgumentModels
import Atlas.AdapterEngine

/-! The declared arguments of a tool schema, where a name may be declared more than once. The generated
    model has one field for a name, that of its last declaration; the validation of the schema looks at
    the first. So the argument of a resource permission is text, and a payload field has the type it was
    declared with, exactly where the last declaration says no less than the others. -/

namespace Atlas

/-! ### The generated fields -/

section fields
variable {schema : ToolSchema}

/-- The last declaration of an argument. -/
def lastSpec (schema : ToolSchema) (name : String) : Option ArgSpec :=
  schema.args.reverse.find? (fun a => a.name = name)

/-- It defines the field. -/
theorem get?_fieldDefs (name : String) :
    (fieldDefs schema).get? name = (lastSpec schema name).map ArgSpec.fieldDef := by
  rw [fieldDefs, Dict.get?_setAll, Dict.get?_empty, Option.or_none, ← List.map_reverse, List.find?_map]
  rfl

theorem mem_args_of_lastSpec {name : String} {spec : ArgSpec} (h : lastSpec schema name = some spec) :
    spec ∈ schema.args ∧ spec.name = name :=
  ⟨List.mem_reverse.mp (List.mem_of_find?_eq_some h), by simpa using List.find?_some h⟩

theorem mem_fieldDefs {field : FieldDef} : field ∈ (fieldDefs schema).values ↔
    ∃ spec, lastSpec schema field.name = some spec ∧ spec.fieldDef = field := by
  rw [Dict.mem_values_iff]
  simp only [get?_fieldDefs, Option.map_eq_some_iff]
  constructor
  · rintro ⟨name, spec, hspec, rfl⟩
    have hname : spec.fieldDef.name = name := (mem_args_of_lastSpec hspec).2
    exact ⟨spec, hname ▸ hspec, rfl⟩
  · exact fun h => ⟨field.name, h⟩

theorem type_mem_of_mem_fieldDefs {field : FieldDef} (h : field ∈ (fieldDefs schema).values) :
    field.type ∈ ["str", "int", "bool"] := by
  obtain ⟨spec, hspec, rfl⟩ := mem_fieldDefs.mp h
  exact (schema.args_safe spec (mem_args_of_lastSpec hspec).1).2

theorem nodup_names_fieldDefs (schema : ToolSchema) : ((fieldDefs schema).values.map FieldDef.name).Nodup := by
  have hkeys : (fieldDefs schema).values.map FieldDef.name = (fieldDefs schema).entries.map (·.1) := by
    rw [Dict.values, List.map_map]
    refine List.map_congr_left fun e he => ?_
    obtain ⟨spec, hspec, hfield⟩ := Option.map_eq_some_iff.mp
      ((get?_fieldDefs e.1).symm.trans (Dict.get?_eq_some_iff.mpr he))
    rw [Function.comp_apply, ← hfield]
    exact (mem_args_of_lastSpec hspec).2
  rw [hkeys]
  exact (fieldDefs schema).nodup

/-- A declared name has a last declaration. -/
theorem exists_lastSpec {name : String} (h : name ∈ schema.args.map (·.name)) :
    ∃ spec, lastSpec schema name = some spec := by
  rw [← Option.isSome_iff_exists, lastSpec, List.find?_isSome]
  obtain ⟨a, ha, hname⟩ := List.mem_map.mp h
  exact ⟨a, List.mem_reverse.mpr ha, by simpa using hname⟩

end fields

/-! ### Types of values -/

/-- A value of a declared type. -/
def Json.hasType (type : String) : Json → Bool
  | .str _ => type == "str"
  | .int _ => type == "int"
  | .bool _ => type == "bool"
  | _ => false

theorem hasType_unique {type type' : String} {v : Json} (h : v.hasType type = true)
    (h' : v.hasType type' = true) : type = type' := by
  cases v <;> simp_all [Json.hasType]

/-- A value an argument may have: one of its type, or null where it may be left out. -/
def ArgSpec.Admits (spec : ArgSpec) (v : Json) : Prop :=
  v.hasType spec.type = true ∨ v = .null ∧ spec.required = false

/-- A value other than null is supplied. -/
def Supplies (raw : Args) (name : String) : Prop := ∃ v, Json.field? name raw = some v ∧ v ≠ .null

/-- A field makes a value of its type of what is supplied, text being kept, and null of nothing. -/
theorem validate_typed {coerce : String → Json → Except String Json} (hcoerce : Coercion coerce)
    {field : FieldDef} (htype : field.type ∈ ["str", "int", "bool"]) {raw : Args} {v : Json}
    (h : field.validate coerce (Json.field? field.name raw) = .ok v) :
    Supplies raw field.name ∧ v.hasType field.type = true ∧
        (field.type = "str" → Json.field? field.name raw = some v) ∨
      ¬Supplies raw field.name ∧ v = .null ∧ field.required = false := by
  unfold Supplies
  generalize Json.field? field.name raw = given at h ⊢
  cases given with
  | none =>
    obtain ⟨hrequired, rfl⟩ := validate_none_eq_ok.mp h
    exact Or.inr ⟨by simp, rfl, hrequired⟩
  | some w =>
    by_cases hnull : w = .null
    · subst hnull
      exact Or.inr ⟨by simp, validate_null_eq_ok hcoerce h⟩
    · refine Or.inl ⟨⟨w, rfl, hnull⟩, ?_⟩
      by_cases hstr : field.type = "str"
      · cases w with
        | str s =>
          simp only [FieldDef.validate, hstr] at h
          obtain ⟨-, -, rfl⟩ := checkLength_eq_ok.mp h
          exact ⟨by rw [hstr]; rfl, fun _ => rfl⟩
        | null => exact absurd rfl hnull
        | _ => simp [FieldDef.validate, hstr] at h
      · have hread : field.validate coerce (some w) = _ :=
          Or.resolve_left (validate_coerced hstr w) fun hw => hnull hw.1
        rw [hread] at h
        refine ⟨?_, fun htext => absurd htext hstr⟩
        obtain hint | hbool : field.type = "int" ∨ field.type = "bool" := by
          simpa [hstr] using htype
        · rw [hint] at h ⊢
          obtain ⟨n, rfl⟩ := hcoerce.int_ok h
          rfl
        · rw [hbool] at h ⊢
          obtain ⟨b, rfl⟩ := hcoerce.bool_ok h
          rfl

/-! ### Accepted arguments -/

section accepted
variable {coerce : String → Json → Except String Json} {schema : ToolSchema} {raw values : Args}

/-- What the generated model makes of one declared argument. -/
theorem field?_buildArgsModel (hcoerce : Coercion coerce)
    (hvalid : buildArgsModel coerce schema raw = .ok values) {name : String} {last : ArgSpec}
    (hlast : lastSpec schema name = some last) : ∃ v, Json.field? name values = some v ∧
      (Supplies raw name ∧ v.hasType last.type = true ∧
          (last.type = "str" → Json.field? name raw = some v) ∨
        ¬Supplies raw name ∧ v = .null) := by
  obtain ⟨hmem, rfl⟩ := mem_args_of_lastSpec hlast
  rw [buildArgsModel, modelValidate_eq_after] at hvalid
  have hfield : last.fieldDef ∈ (fieldDefs schema).values := mem_fieldDefs.mpr ⟨last, hlast, rfl⟩
  obtain ⟨v, hv, hcheck⟩ := field?_of_valid (nodup_names_fieldDefs schema) hvalid hfield
  obtain ⟨declared, hdeclared, hafter⟩ := check_eq_ok.mp hcheck
  cases hafter
  refine ⟨v, hv, ?_⟩
  rcases validate_typed hcoerce (type_mem_of_mem_fieldDefs hfield) hdeclared with h | ⟨hno, hnull, -⟩
  · exact Or.inl h
  · exact Or.inr ⟨hno, hnull⟩

/-- The segment of a resource argument with a text for its value. -/
def resourceSegment (lower : String → String) (name value : String) : String :=
  if name = "channel" then slackChannelResourceSegment lower value else name ++ ":" ++ value

/-- The permission is built from text that was supplied for the argument. -/
def ResourceFromText (engine : AdapterEngine) (schema : ToolSchema) (name : String) (raw values : Args) :
    Prop :=
  ∃ s, Json.field? name raw = some (.str s) ∧ Json.field? name values = some (.str s) ∧
    engine.resourcePermission schema values = .ok (some (resourceSegment engine.lower name s))

/-- Every payload field copied from an argument is a declared field's value, of the type declared for it,
    by whichever declaration. -/
def PayloadAsDeclared (schema : ToolSchema) (values : Args) : Prop :=
  ∀ key name, (key, PayloadField.arg name) ∈ schema.payload → ∃ v, Json.field? name values = some v ∧
    (key, v) ∈ buildPayload schema values ∧ ∀ a ∈ schema.args, a.name = name → a.Admits v

/-- The last declaration of the argument is text, and a value is supplied for it. -/
def TextSupplied (schema : ToolSchema) (name : String) (raw : Args) : Prop :=
  (∃ last, lastSpec schema name = some last ∧ last.type = "str") ∧ Supplies raw name

/-- Every declaration of the argument has the type of the last, where a value is supplied, and lets it be
    left out, where none is. -/
def DeclarationsAgree (schema : ToolSchema) (name : String) (raw : Args) : Prop :=
  ∀ last, lastSpec schema name = some last → ∀ a ∈ schema.args, a.name = name →
    (Supplies raw name → a.type = last.type) ∧ (¬Supplies raw name → a.required = false)

theorem resourceFromText_iff (hcoerce : Coercion coerce) (engine : AdapterEngine) {name : String}
    (hresource : schema.resourcePermissionArg = some name)
    (hvalid : buildArgsModel coerce schema raw = .ok values) :
    ResourceFromText engine schema name raw values ↔ TextSupplied schema name raw := by
  obtain ⟨a, ha, -⟩ := schema.resource_declared name hresource
  have hdeclared : name ∈ schema.args.map (·.name) :=
    List.mem_map.mpr ⟨a, List.mem_of_find?_eq_some ha, by simpa using List.find?_some ha⟩
  obtain ⟨last, hlast⟩ := exists_lastSpec hdeclared
  obtain ⟨v, hv, htyped⟩ := field?_buildArgsModel hcoerce hvalid hlast
  constructor
  · rintro ⟨s, hraw, hvalue, -⟩
    rw [hvalue] at hv
    cases hv
    rcases htyped with ⟨hsupplied, htype, -⟩ | ⟨-, hnull⟩
    · exact ⟨⟨last, hlast, by simpa [Json.hasType] using htype⟩, hsupplied⟩
    · cases hnull
  · rintro ⟨⟨last', hlast', hstr⟩, hsupplied⟩
    rw [hlast] at hlast'
    cases hlast'
    rcases htyped with ⟨-, htype, hkept⟩ | ⟨hno, -⟩
    · rw [hstr] at htype
      cases v with
      | str s =>
        refine ⟨s, hkept hstr, hv, ?_⟩
        simp only [AdapterEngine.resourcePermission, hresource, hv, resourceSegment]
        split <;> rfl
      | _ => simp [Json.hasType] at htype
    · exact absurd hsupplied hno

theorem payloadAsDeclared_iff (hcoerce : Coercion coerce)
    (hvalid : buildArgsModel coerce schema raw = .ok values) :
    PayloadAsDeclared schema values ↔ ∀ key name, (key, PayloadField.arg name) ∈ schema.payload →
      DeclarationsAgree schema name raw := by
  refine forall_congr' fun key => forall_congr' fun name => imp_congr_right fun hpayload => ?_
  obtain ⟨last, hlast⟩ := exists_lastSpec (schema.payload_declared key name hpayload)
  obtain ⟨v, hv, htyped⟩ := field?_buildArgsModel hcoerce hvalid hlast
  constructor
  · rintro ⟨v', hv', -, hadmits⟩ last' hlast' a ha hname
    rw [hv] at hv'
    cases hv'
    rw [hlast] at hlast'
    cases hlast'
    rcases htyped with ⟨hsupplied, htype, -⟩ | ⟨hno, rfl⟩
    · refine ⟨fun _ => ?_, fun hno => absurd hsupplied hno⟩
      rcases hadmits a ha hname with hatype | ⟨rfl, -⟩
      · exact hasType_unique hatype htype
      · cases htype
    · refine ⟨fun hsupplied => absurd hsupplied hno, fun _ => ?_⟩
      rcases hadmits a ha hname with hatype | ⟨-, hrequired⟩
      · cases hatype
      · exact hrequired
  · intro hagree
    refine ⟨v, hv, List.mem_map.mpr ⟨(key, .arg name), hpayload, by simp [hv]⟩, fun a ha hname => ?_⟩
    obtain ⟨htypes, hoptional⟩ := hagree last hlast a ha hname
    rcases htyped with ⟨hsupplied, htype, -⟩ | ⟨hno, rfl⟩
    · exact Or.inl (htypes hsupplied ▸ htype)
    · exact Or.inr ⟨rfl, hoptional hno⟩

/-- Of accepted arguments the permission is built from supplied text, and the payload typed as declared,
    exactly where the repeated declarations of an argument come to the same. -/
theorem schemaArgs_as_declared_iff (hcoerce : Coercion coerce) (engine : AdapterEngine)
    (schema : ToolSchema) (name : String) (hresource : schema.resourcePermissionArg = some name)
    (raw values : Args) (hvalid : buildArgsModel coerce schema raw = .ok values) :
    ResourceFromText engine schema name raw values ∧ PayloadAsDeclared schema values ↔
      TextSupplied schema name raw ∧ ∀ key arg, (key, PayloadField.arg arg) ∈ schema.payload →
        DeclarationsAgree schema arg raw :=
  and_congr (resourceFromText_iff hcoerce engine hresource hvalid) (payloadAsDeclared_iff hcoerce hvalid)

end accepted

/-! ### One schema, declared once and twice -/

/-- Integers and truth values read as themselves only. -/
def plainCoerce : String → Json → Except String Json
  | "int", .int n => .ok (.int n)
  | "bool", .bool b => .ok (.bool b)
  | type, _ => .error (type ++ "_type")

theorem coercion_plainCoerce : Coercion plainCoerce where
  int_ok {v w} h := by
    cases v <;> cases h
    exact ⟨_, rfl⟩
  int_self _ := rfl
  bool_ok {v w} h := by
    cases v <;> cases h
    exact ⟨_, rfl⟩
  bool_self _ := rfl
  null type w h := by
    unfold plainCoerce at h
    split at h <;> simp_all

/-- A schema whose permission names a repository. -/
def noteSchema : ToolSchema where
  name := "add_note"
  requiredPermission := some "tool:note"
  resourcePermissionArg := some "repo"
  provider := .slack
  endpoint := "https://slack.com/api/note"
  args := [{ name := "repo" }]
  payload := [("repo", .arg "repo")]
  name_ne := by decide
  endpoint_ne := by decide
  args_safe := by decide
  payload_declared := by simp
  resource_declared := by simp

/-- The same with a second declaration of the repository, as a number. -/
def repeatedSchema : ToolSchema where
  name := "add_note"
  requiredPermission := some "tool:note"
  resourcePermissionArg := some "repo"
  provider := .slack
  endpoint := "https://slack.com/api/note"
  args := [{ name := "repo" }, { name := "repo", type := "int" }]
  payload := [("repo", .arg "repo")]
  name_ne := by decide
  endpoint_ne := by decide
  args_safe := by decide
  payload_declared := by simp
  resource_declared := by simp

def noteEngine : AdapterEngine where
  parseUrl _ := .ok { scheme := "https", userinfo := "", host := "slack.com", port := none }
  argsModel := buildArgsModel plainCoerce
  lower := Text.asciiCasing.lower
  configured := true
  allowlist := ["slack.com"]

theorem schemaArgs_as_declared_note :
    ResourceFromText noteEngine noteSchema "repo" [("repo", .str "atlas")] [("repo", .str "atlas")] ∧
      PayloadAsDeclared noteSchema [("repo", .str "atlas")] := by
  refine (schemaArgs_as_declared_iff coercion_plainCoerce noteEngine noteSchema "repo" rfl _ _ rfl).mpr ?_
  refine ⟨⟨⟨{ name := "repo" }, rfl, rfl⟩, .str "atlas", rfl, by simp⟩, ?_⟩
  rintro key arg - last hlast a ha rfl
  obtain rfl : a = { name := "repo" } := by simpa [noteSchema] using ha
  obtain rfl : last = { name := "repo" } := by
    simpa [noteSchema] using (mem_args_of_lastSpec hlast).1
  exact ⟨fun _ => rfl, fun hno => absurd ⟨.str "atlas", rfl, by simp⟩ hno⟩

/-- The permission for a repository declared as text, then as a number, is built from a number. -/
theorem schemaArgs_not_as_declared : ¬∀ (coerce : String → Json → Except String Json), Coercion coerce →
    ∀ (engine : AdapterEngine) (schema : ToolSchema) (name : String),
    schema.resourcePermissionArg = some name → ∀ raw values : Args,
    buildArgsModel coerce schema raw = .ok values →
    ResourceFromText engine schema name raw values ∧ PayloadAsDeclared schema values := by
  intro h
  obtain ⟨⟨s, hraw, -⟩, -⟩ := h plainCoerce coercion_plainCoerce noteEngine repeatedSchema "repo" rfl
    [("repo", .int 5)] [("repo", .int 5)] rfl
  cases hraw

end Atlas
