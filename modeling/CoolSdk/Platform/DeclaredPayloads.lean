import CoolSdk.Platform.Creation
import CoolSdk.Platform.EnvelopeVerification
import CoolSdk.Runtime.Json
import CoolSdk.Runtime.ReferenceHost

/-!
# What a payload schema admits

A schema means its own declared fields and the payload's own members. Validation looks both up
with what every object inherits: an undeclared member of an inherited name passes, and a declared
field of such a name is never absent. It is exact for every payload that no such name decides.
-/

namespace CoolSdk

section

variable (H : Host)

/-- The values of a declared type. -/
def FieldType.Holds : FieldType → JsValue → Prop
  | .string, v => ∃ s, v = .str s ∧ s ≠ ""
  | .digest, v => ∃ s, v = .str s ∧ isMultihash s = true
  | .int, v => ∃ n, v = .num n ∧ n.isSafeInteger = true
  | .bool, v => ∃ b, v = .bool b
  | .timestamp, v => ∃ s, v = .str s ∧ (dateNumber H s).isNaN = false
  | .strings, v => ∃ xs, v = .array xs ∧ ∀ x ∈ xs, ∃ s, x = .str s
  | .digests, v => ∃ xs, v = .array xs ∧ ∀ x ∈ xs, ∃ s, x = .str s ∧ isMultihash s = true
  | .enum allowed, v => ∃ s, v = .str s ∧ s ∈ allowed

/-- A payload's own member of a name is present and not null. -/
def Carries (data : JsValue.Members) (name : String) (v : JsValue) : Prop :=
  Entries.get data name = some v ∧ v.nullish = false

/-- A field of a payload is as its specification says. -/
structure FieldSpec.InOrder (spec : FieldSpec) (data : JsValue.Members) (name : String) :
    Prop where
  required : spec.required = true → ∃ v, Carries data name v
  typed : ∀ v, Carries data name v → spec.type.Holds H v
  secret : ∀ v, Carries data name v → sensitiveName name = true → FieldType.digest.Holds H v

/-- What a schema says of a payload. -/
structure PayloadSchema.Admits (schema : PayloadSchema) (data : JsValue.Members) : Prop where
  declared : ∀ m ∈ data, schema.fields.has m.1 = true
  inOrder : ∀ field ∈ schema.fields.entries, field.2.InOrder H data field.1

end

namespace PayloadSchema

variable (schema : PayloadSchema) (data : JsValue.Members)

/-- A member that the schema does not declare has a name that every object inherits. -/
def Stray : Prop := ∃ m ∈ data, schema.fields.has m.1 = false ∧ isInherited m.1 = true

/-- The payload has no member of its own for a declared field whose name every object inherits. -/
def Lacks : Prop :=
  ∃ field ∈ schema.fields.entries, isInherited field.1 = true ∧ Entries.get data field.1 = none

/-- The payload without its undeclared members of inherited names. -/
def withoutStrays : JsValue.Members :=
  data.filter fun m => schema.fields.has m.1 || !isInherited m.1

end PayloadSchema

/-! ## Types -/

private theorem isText_iff {test : String → Bool} {v : JsValue} :
    isText test v = true ↔ ∃ s, v = .str s ∧ test s = true := by
  constructor
  · intro h
    cases v with
    | str s => exact ⟨s, rfl, h⟩
    | _ => cases h
  · rintro ⟨s, rfl, hs⟩
    exact hs

private theorem isTexts_iff {test : String → Bool} {v : JsValue} :
    isTexts test v = true ↔ ∃ xs, v = .array xs ∧ ∀ x ∈ xs, ∃ s, x = .str s ∧ test s = true := by
  simp only [← isText_iff]
  constructor
  · intro h
    cases v with
    | array xs => exact ⟨xs, rfl, List.all_eq_true.mp h⟩
    | _ => cases h
  · rintro ⟨xs, rfl, hxs⟩
    exact List.all_eq_true.mpr hxs

variable {H : Host}

/-- A value has no type problem exactly if it is of the type. -/
theorem typeProblem_eq_none_iff {type : FieldType} {v : JsValue} :
    typeProblem H type v = none ↔ type.Holds H v := by
  have hgood : ∀ {good : Bool} {problem : String},
      (if good then none else some problem) = none ↔ good = true := by
    intro good problem
    cases good <;> simp
  cases type with
  | string => simp only [typeProblem, hgood, isText_iff, decide_eq_true_eq, FieldType.Holds]
  | digest => simp only [typeProblem, hgood, isText_iff, FieldType.Holds]
  | int => cases v <;> simp [typeProblem, FieldType.Holds]
  | bool => cases v <;> simp [typeProblem, FieldType.Holds]
  | timestamp => simp only [typeProblem, hgood, isText_iff, Bool.not_eq_true', FieldType.Holds]
  | strings => simp only [typeProblem, hgood, isTexts_iff, and_true, FieldType.Holds]
  | digests => simp only [typeProblem, hgood, isTexts_iff, FieldType.Holds]
  | enum allowed =>
    simp only [typeProblem, hgood, isText_iff, List.contains_iff_mem, FieldType.Holds]

/-! ## Fields -/

private theorem missing_eq_nullish (v : JsValue) :
    (v.isUndefined || v.strictEquals .null) = v.nullish := by
  cases v <;> rfl

/-- A field that is looked up in the payload alone has no problem exactly if it is in order. -/
theorem fieldProblems_own {data : JsValue.Members} {name : String} (spec : FieldSpec)
    (hown : lookupFact data name = (Entries.get data name).getD .undefined) :
    fieldProblems H data (name, spec) = [] ↔ spec.InOrder H data name := by
  rw [fieldProblems_eq_nil_iff]
  simp only [hown, missing_eq_nullish]
  have hpresent : ∀ v, Carries data name v ↔
      ((Entries.get data name).getD .undefined).nullish = false ∧
        v = (Entries.get data name).getD .undefined := by
    intro v
    rw [Carries]
    cases Entries.get data name with
    | none => exact iff_of_false (fun h => by cases h.1) (fun h => by cases h.1)
    | some w =>
      rw [Option.getD_some, Option.some.injEq]
      constructor
      · rintro ⟨rfl, hw⟩
        exact ⟨hw, rfl⟩
      · rintro ⟨hw, rfl⟩
        exact ⟨rfl, hw⟩
  generalize (Entries.get data name).getD .undefined = v at hpresent
  have hdigest : isText isMultihash v = true ↔ FieldType.digest.Holds H v := isText_iff
  rw [hdigest, typeProblem_eq_none_iff]
  cases hnullish : v.nullish with
  | true =>
    rw [if_pos rfl]
    have habsent : ∀ w, ¬Carries data name w := fun w hw => by
      rw [hpresent, hnullish] at hw
      cases hw.1
    constructor
    · intro hoptional
      refine ⟨fun hrequired => ?_, fun w hw => absurd hw (habsent w),
        fun w hw => absurd hw (habsent w)⟩
      rw [hoptional] at hrequired
      cases hrequired
    · intro h
      by_contra hrequired
      obtain ⟨w, hw⟩ := h.required (by simpa using hrequired)
      exact habsent w hw
  | false =>
    rw [if_neg Bool.false_ne_true]
    have hv : Carries data name v := (hpresent v).mpr ⟨hnullish, rfl⟩
    constructor
    · rintro ⟨htype, hsecret⟩
      refine ⟨fun _ => ⟨v, hv⟩, fun w hw => ?_, fun w hw => ?_⟩
      · rw [((hpresent w).mp hw).2]
        exact htype
      · rw [((hpresent w).mp hw).2]
        exact hsecret
    · intro h
      exact ⟨h.typed v hv, h.secret v hv⟩

/-- A field of the schema has no problem exactly if it is in order and nothing inherited takes its
place. -/
theorem fieldProblems_iff {data : JsValue.Members} {name : String} (spec : FieldSpec) :
    fieldProblems H data (name, spec) = [] ↔
      spec.InOrder H data name ∧ ¬(isInherited name = true ∧ Entries.get data name = none) := by
  by_cases hlost : isInherited name = true ∧ Entries.get data name = none
  · exact iff_of_false (fieldProblems_inherited spec hlost.2 hlost.1) fun h => h.2 hlost
  · rw [fieldProblems_own, and_iff_left hlost]
    rw [lookupFact]
    cases hget : Entries.get data name with
    | some v => rfl
    | none =>
      have hinherited : ¬isInherited name = true := fun h => hlost ⟨h, hget⟩
      rw [isInherited, Bool.or_eq_true, decide_eq_true_eq, not_or] at hinherited
      rw [if_neg hinherited.1, if_neg hinherited.2]

/-! ## Payloads -/

/-- Where a filter keeps every member of a name, it finds the same one there. -/
private theorem get_filter_of {data : JsValue.Members} {test : String × JsValue → Bool}
    {name : String} (h : ∀ v, test (name, v) = true) :
    Entries.get (data.filter test) name = Entries.get data name := by
  induction data with
  | nil => rfl
  | cons m data ih =>
    obtain ⟨key, v⟩ := m
    by_cases hkey : key = name
    · subst hkey
      rw [List.filter_cons_of_pos (h v), Entries.get, Entries.get, if_pos rfl, if_pos rfl]
    · rw [List.filter_cons]
      split_ifs
      · rw [Entries.get, Entries.get, if_neg hkey, if_neg hkey, ih]
      · rw [Entries.get, if_neg hkey, ih]

private theorem has_of_mem {schema : PayloadSchema} {field : String × FieldSpec}
    (h : field ∈ schema.fields.entries) : schema.fields.has field.1 = true :=
  (Entries.get_isSome_iff schema.fields.entries field.1).mpr (List.mem_map_of_mem h)

namespace PayloadSchema

variable {schema : PayloadSchema} {data : JsValue.Members}

/-- Without its strays a payload is admitted where every member is declared or a stray, and every
field is in order. -/
theorem admits_withoutStrays_iff :
    schema.Admits H (schema.withoutStrays data) ↔
      (∀ m ∈ data, (schema.fields.has m.1 || isInherited m.1) = true) ∧
        ∀ field ∈ schema.fields.entries, field.2.InOrder H data field.1 := by
  have hfields : ∀ field ∈ schema.fields.entries,
      (field.2.InOrder H (schema.withoutStrays data) field.1 ↔
        field.2.InOrder H data field.1) := by
    intro field hfield
    have hget : Entries.get (schema.withoutStrays data) field.1 = Entries.get data field.1 :=
      get_filter_of fun _ => by rw [has_of_mem hfield, Bool.true_or]
    constructor
    · rintro ⟨hrequired, htyped, hsecret⟩
      simp only [Carries, hget] at hrequired htyped hsecret
      exact ⟨hrequired, htyped, hsecret⟩
    · rintro ⟨hrequired, htyped, hsecret⟩
      simp only [Carries, ← hget] at hrequired htyped hsecret
      exact ⟨hrequired, htyped, hsecret⟩
  have hmembers : (∀ m ∈ schema.withoutStrays data, schema.fields.has m.1 = true) ↔
      ∀ m ∈ data, (schema.fields.has m.1 || isInherited m.1) = true := by
    simp only [withoutStrays, List.mem_filter, and_imp]
    refine forall₂_congr fun m _ => ?_
    cases schema.fields.has m.1 <;> cases isInherited m.1 <;> decide
  constructor
  · intro h
    exact ⟨hmembers.mp h.declared, fun field hfield =>
      (hfields field hfield).mp (h.inOrder field hfield)⟩
  · rintro ⟨hdeclared, hinOrder⟩
    exact ⟨hmembers.mpr hdeclared, fun field hfield =>
      (hfields field hfield).mpr (hinOrder field hfield)⟩

/-- A schema admits a payload that it admits without strays, if there are none. -/
theorem admits_iff :
    schema.Admits H data ↔ schema.Admits H (schema.withoutStrays data) ∧ ¬schema.Stray data := by
  rw [admits_withoutStrays_iff]
  constructor
  · intro h
    refine ⟨⟨fun m hm => by rw [h.declared m hm, Bool.true_or], h.inOrder⟩, ?_⟩
    rintro ⟨m, hm, hundeclared, _⟩
    rw [h.declared m hm] at hundeclared
    cases hundeclared
  · rintro ⟨⟨hnames, hinOrder⟩, hstray⟩
    refine ⟨fun m hm => ?_, hinOrder⟩
    by_contra hundeclared
    rw [Bool.not_eq_true] at hundeclared
    have hname := hnames m hm
    rw [hundeclared, Bool.false_or] at hname
    exact hstray ⟨m, hm, hundeclared, hname⟩

/-- Validation accepts a payload that is admitted without strays, if it lacks no field of an
inherited name. -/
theorem payloadProblems_iff :
    payloadProblems H schema data = [] ↔
      schema.Admits H (schema.withoutStrays data) ∧ ¬schema.Lacks data := by
  rw [payloadProblems_eq_nil_iff, admits_withoutStrays_iff, and_assoc]
  refine and_congr_right fun _ => ?_
  simp only [Lacks, not_exists, not_and, ← forall_and]
  refine forall₂_congr fun field _ => ?_
  rw [fieldProblems_iff, not_and]

/-- A payload that validation accepts carries an undeclared member only as a stray. -/
theorem declared_iff_of_valid (h : payloadProblems H schema data = []) :
    (∀ m ∈ data, schema.fields.has m.1 = true) ↔ ¬schema.Stray data := by
  have hnames := (payloadProblems_eq_nil_iff H schema data).mp h |>.1
  constructor
  · rintro hdeclared ⟨m, hm, hundeclared, _⟩
    rw [hdeclared m hm] at hundeclared
    cases hundeclared
  · intro hstray m hm
    by_contra hundeclared
    rw [Bool.not_eq_true] at hundeclared
    have hname := hnames m hm
    rw [hundeclared, Bool.false_or] at hname
    exact hstray ⟨m, hm, hundeclared, hname⟩

end PayloadSchema

/-- An envelope whose schema check passes has a payload that validation accepts. -/
theorem valid_of_schemaCheck {registry : PayloadRegistry} {env : SignedEnvelope}
    {schema : PayloadSchema} (hschema : registry.get env.core.payloadSchema = some schema)
    (h : (schemaCheck H registry env).status = .pass) :
    payloadProblems H schema env.core.payload = [] := by
  unfold schemaCheck at h
  simp only [hschema] at h
  by_cases htype : schema.eventType ≠ env.core.eventType
  · rw [if_pos htype, if_pos (List.cons_ne_nil _ _)] at h
    split_ifs at h
    · cases h
    · cases h
  · rw [if_neg htype] at h
    split_ifs at h with _ hproblems
    · cases h
    · cases h
    · simpa [PayloadRegistry.validate, hschema, ownMembers?] using hproblems

/-- Validation accepts exactly what the schema admits, and what it lets through into an envelope is
declared, exactly where no inherited name decides. -/
theorem validate_exact_iff {registry : PayloadRegistry} {schemaId : String}
    {schema : PayloadSchema} (hschema : registry.get schemaId = some schema) :
    (∀ data : JsValue.Members,
      (registry.validate H schemaId (.object data) = [] ↔ schema.Admits H data) ↔
        (schema.Admits H (schema.withoutStrays data) → (schema.Stray data ↔ schema.Lacks data))) ∧
      (∀ input sources core, createEnvelope H input registry sources = .ok core →
        core.payloadSchema = schemaId →
        ((∀ m ∈ input.payload, schema.fields.has m.1 = true) ↔ ¬schema.Stray input.payload)) ∧
      ∀ env : SignedEnvelope, env.core.payloadSchema = schemaId →
        (schemaCheck H registry env).status = .pass →
        ((∀ m ∈ env.core.payload, schema.fields.has m.1 = true) ↔
          ¬schema.Stray env.core.payload) := by
  refine ⟨fun data => ?_, ?_, ?_⟩
  · have hvalidate : registry.validate H schemaId (.object data) =
        payloadProblems H schema data := by
      simp only [PayloadRegistry.validate, hschema, ownMembers?]
    have hadmits : schema.Admits H data ↔ _ := schema.admits_iff
    rw [hvalidate, schema.payloadProblems_iff]
    tauto
  · rintro input sources core hcore rfl
    obtain ⟨schema', hcreated⟩ := createdFrom_of_createEnvelope hcore
    cases hschema.symm.trans hcreated.registered
    exact schema.declared_iff_of_valid hcreated.valid
  · rintro env rfl hpass
    exact schema.declared_iff_of_valid (valid_of_schemaCheck hschema hpass)

namespace Reference

/-- A schema that declares one optional field. -/
def noteSchema (name : String) : PayloadSchema :=
  { id := "note.v1", eventType := "note", fields := .ofList [(name, FieldSpec.o .string)] }

/-- A registry of that schema. -/
def noteRegistry (name : String) : PayloadRegistry :=
  ⟨.ofList [("note.v1", noteSchema name)]⟩

theorem validate_exact_note :
    (noteRegistry "text").get "note.v1" = some (noteSchema "text") ∧
      ((noteRegistry "text").validate host "note.v1" (.object [("text", .str "a")]) = [] ↔
        (noteSchema "text").Admits host [("text", .str "a")]) := by
  have hget : (noteRegistry "text").get "note.v1" = some (noteSchema "text") := rfl
  refine ⟨hget, ((validate_exact_iff hget).1 _).mpr fun _ => iff_of_false ?_ ?_⟩
  · rintro ⟨m, hm, hundeclared, _⟩
    cases List.mem_singleton.mp hm
    cases hundeclared
  · rintro ⟨field, hfield, hinherited, _⟩
    cases List.mem_singleton.mp hfield
    cases hinherited

/-- Validation accepts an undeclared member that is called as a method of every object, and
refuses the empty payload where the optional field is called so. -/
theorem inherited_names_decide :
    (noteRegistry "text").validate host "note.v1" (.object [("toString", .str "a")]) = [] ∧
      ¬(noteSchema "text").Admits host [("toString", .str "a")] ∧
      (noteRegistry "toString").validate host "note.v1" (.object []) ≠ [] ∧
      (noteSchema "toString").Admits host [] := by
  refine ⟨by decide, ?_, by decide, ⟨fun m hm => absurd hm List.not_mem_nil, ?_⟩⟩
  · intro h
    cases h.declared _ List.mem_cons_self
  · intro field hfield
    cases List.mem_singleton.mp hfield
    constructor
    · intro h
      cases h
    · intro v hv
      cases hv.1
    · intro v hv
      cases hv.1

end Reference

end CoolSdk
