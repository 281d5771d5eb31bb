import CoolSdk.Platform.Envelope
import CoolSdk.Runtime.Clean

/-!
# Creating an envelope

`createEnvelope` validates an event and builds the unsigned core. It validates the payload as it
is given and returns it cleaned of undefined members. A field that the payload then lacks reads
as nothing, unless every object inherits a member of that name.
-/

namespace CoolSdk

/-- The provenance an event states. -/
structure ProvenanceInput where
  collectionMethod : CollectionMethod
  refs : Option (List Multihash) := none

/-- An attestation document that evidence relies on. -/
structure AttestationInput where
  platform : String := "aws-nitro"
  document : Bytes

/-- What an envelope is created from. -/
structure EnvelopeInput where
  eventType : String
  payloadSchema : Option String := none
  occurredAt : String
  observedAt : Option String := none
  source : EventSource
  actor : Actor
  action : String
  resource : EventResource
  payload : JsValue.Members
  provenance : Option ProvenanceInput := none
  relations : Option (List Relation) := none
  policy : Option PolicyCitation := none
  sequence : Option Sequence := none
  attestation : Option AttestationInput := none
  eventId : Option String := none
  /-- An object has one member of each name. -/
  distinct : (payload.map Prod.fst).Nodup := by decide

/-- What creating an envelope takes from its surroundings. -/
structure CreationSources where
  /-- A fresh id. -/
  ulid : String
  /-- The reading of the clock. -/
  now : JsNumber

namespace EnvelopeInput

/-- The times that are checked: those stated and not empty. -/
def times (input : EnvelopeInput) : List String :=
  [some input.occurredAt, input.observedAt].filterMap nonEmpty

/-- The references of the provenance. -/
def provenanceRefs (input : EnvelopeInput) : List Multihash :=
  (input.provenance.bind ProvenanceInput.refs).getD []

/-- Every reference that has to be a digest. -/
def refs (input : EnvelopeInput) : List Multihash :=
  input.provenanceRefs ++ (input.relations.getD []).map Relation.ref

/-- The schema an event names or its type currently has; the empty name is none. -/
def schemaId (input : EnvelopeInput) (registry : PayloadRegistry) : Option String :=
  nonEmpty (input.payloadSchema <|> registry.schemaFor input.eventType)

/-- When the event was seen: as stated, or now. -/
def observedTime (input : EnvelopeInput) (now : JsNumber) : Except String String :=
  match input.observedAt with
  | some observedAt => .ok observedAt
  | none => toISOString now

end EnvelopeInput

section

variable (H : Host)

/-- The core of an event under a schema. -/
def coreOf (input : EnvelopeInput) (payloadSchema observedAt ulid : String) : EnvelopeCore :=
  { eventId := input.eventId.getD ulid
    eventType := input.eventType
    payloadSchema
    occurredAt := input.occurredAt
    observedAt
    source := input.source
    actor := input.actor
    action := input.action
    resource := input.resource
    provenance :=
      { collectionMethod := (input.provenance.map ProvenanceInput.collectionMethod).getD .emitted
        refs := input.provenanceRefs }
    relations := input.relations.getD []
    policy := input.policy
    sequence := input.sequence
    attestationRef := input.attestation.map fun attestation =>
      toHex (H.sha256 attestation.document)
    payload := JsValue.cleanMembers input.payload [] }

/-- Build and validate an unsigned core. -/
def createEnvelope (input : EnvelopeInput) (registry : PayloadRegistry)
    (sources : CreationSources) : Except String EnvelopeCore :=
  match input.schemaId registry with
  | none => .error ("no payload schema for event type " ++ input.eventType)
  | some schemaId =>
    if (registry.get schemaId).all (fun schema => decide (schema.eventType ≠ input.eventType)) then
      .error ("payload schema " ++ schemaId ++ " does not describe " ++ input.eventType)
    else
      let problems := registry.validate H schemaId (.object input.payload)
      if problems ≠ [] then
        .error ("invalid " ++ input.eventType ++ " payload: " ++ "; ".intercalate problems)
      else
        match input.times.find? fun t => (dateNumber H t).isNaN,
          input.refs.find? fun ref => !isMultihash ref with
        | some t, _ => .error ("not an ISO-8601 time: " ++ t)
        | none, some ref => .error ("reference " ++ ref ++ " is not a digest")
        | none, none => do
          let observedAt ← input.observedTime sources.now
          .ok (coreOf H input schemaId observedAt sources.ulid)

/-- What a created core keeps of its input. -/
structure EnvelopeCore.CreatedFrom (core : EnvelopeCore) (input : EnvelopeInput)
    (registry : PayloadRegistry) (schema : PayloadSchema) : Prop where
  built : ∃ observedAt ulid, core = coreOf H input core.payloadSchema observedAt ulid
  registered : registry.get core.payloadSchema = some schema
  describes : schema.eventType = core.eventType
  valid : payloadProblems H schema input.payload = []

variable {H}

/-- A created core is the core of its input under a schema that accepts the payload. -/
theorem createdFrom_of_createEnvelope {input : EnvelopeInput} {registry : PayloadRegistry}
    {sources : CreationSources} {core : EnvelopeCore}
    (h : createEnvelope H input registry sources = .ok core) :
    ∃ schema, core.CreatedFrom H input registry schema := by
  unfold createEnvelope at h
  cases hid : input.schemaId registry with
  | none =>
    rw [hid] at h
    cases h
  | some schemaId =>
    simp only [hid] at h
    split_ifs at h with hdescribes hproblems
    cases hschema : registry.get schemaId with
    | none =>
      rw [hschema] at hdescribes
      exact absurd rfl hdescribes
    | some schema =>
      have htype : schema.eventType = input.eventType := by
        simpa [hschema] using hdescribes
      have hvalid : payloadProblems H schema input.payload = [] := by
        simpa [PayloadRegistry.validate, hschema, ownMembers?] using hproblems
      split at h
      · cases h
      · cases h
      · obtain ⟨observedAt, _, h⟩ := bind_eq_ok.mp h
        cases h
        exact ⟨schema, ⟨observedAt, sources.ulid, rfl⟩, hschema, htype, hvalid⟩

/-- What an envelope is created from, where nothing is wrong with it. -/
theorem createEnvelope_eq_ok {input : EnvelopeInput} {registry : PayloadRegistry}
    {sources : CreationSources} {schemaId observedAt : String} {schema : PayloadSchema}
    (hid : input.schemaId registry = some schemaId) (hschema : registry.get schemaId = some schema)
    (htype : schema.eventType = input.eventType)
    (hvalid : payloadProblems H schema input.payload = [])
    (htimes : (input.times.find? fun t => (dateNumber H t).isNaN) = none)
    (hrefs : (input.refs.find? fun ref => !isMultihash ref) = none)
    (hobserved : input.observedTime sources.now = .ok observedAt) :
    createEnvelope H input registry sources =
      .ok (coreOf H input schemaId observedAt sources.ulid) := by
  have hproblems : registry.validate H schemaId (.object input.payload) = [] := by
    simpa [PayloadRegistry.validate, hschema, ownMembers?] using hvalid
  rw [createEnvelope, hid]
  simp only [hschema, htype, ne_eq, not_true_eq_false, decide_false, Option.all_some,
    Bool.false_eq_true,
    if_false, hproblems, htimes, hrefs, hobserved, ok_bind]

/-! ## The payload after cleaning -/

/-- The payload still has every field of its schema whose name every object inherits. -/
def PayloadSchema.Kept (schema : PayloadSchema) (payload : JsValue.Members) : Prop :=
  ∀ field ∈ schema.fields.entries, isInherited field.1 = true →
    (JsValue.kept payload field.1).isSome = true

instance (schema : PayloadSchema) (payload : JsValue.Members) :
    Decidable (schema.Kept payload) :=
  inferInstanceAs (Decidable (∀ field ∈ schema.fields.entries, isInherited field.1 = true →
    (JsValue.kept payload field.1).isSome = true))

private theorem isText_clean (test : String → Bool) (v : JsValue) :
    isText test v.clean = isText test v := by
  cases v <;> rfl

private theorem isTexts_clean (test : String → Bool) (v : JsValue) :
    isTexts test v.clean = isTexts test v := by
  cases v with
  | array xs =>
    simp only [JsValue.clean, isTexts]
    induction xs with
    | nil => rfl
    | cons x xs ih => rw [JsValue.cleanItems, List.all_cons, List.all_cons, ih, isText_clean]
  | _ => rfl

/-- Cleaning a value changes nothing about its type. -/
theorem typeProblem_clean (type : FieldType) (v : JsValue) :
    typeProblem H type v.clean = typeProblem H type v := by
  cases type with
  | int => cases v <;> rfl
  | bool => cases v <;> rfl
  | strings | digests => simp only [typeProblem, isTexts_clean]
  | _ => simp only [typeProblem, isText_clean]

private theorem strictEquals_null_clean (v : JsValue) :
    v.clean.strictEquals .null = v.strictEquals .null := by
  cases v <;> rfl

/-- A member every object inherits has no field's type. -/
theorem fieldProblems_inherited {ms : JsValue.Members} {name : String} (spec : FieldSpec)
    (hget : Entries.get ms name = none) (h : isInherited name = true) :
    fieldProblems H ms (name, spec) ≠ [] := by
  have hvalue : lookupFact ms name = .custom [] ∨ lookupFact ms name = .foreign "function" := by
    rw [lookupFact, hget, Option.getD_none]
    by_cases hproto : name = "__proto__"
    · exact .inl (if_pos hproto)
    · have hmethod : objectMethods.contains name = true := by
        simpa [isInherited, hproto] using h
      rw [if_neg hproto, if_pos hmethod]
      exact .inr rfl
  intro hnil
  rw [fieldProblems_eq_nil_iff] at hnil
  rcases hvalue with hvalue | hvalue
  · simp only [hvalue, JsValue.isUndefined, JsValue.strictEquals] at hnil
    cases hspec : spec.type <;> simp [hspec, typeProblem, isText, isTexts] at hnil
  · simp only [hvalue, JsValue.isUndefined, JsValue.strictEquals] at hnil
    cases hspec : spec.type <;> simp [hspec, typeProblem, isText, isTexts] at hnil

/-- Where the payload keeps the field, or nothing is inherited in its place, the field is judged
as before. -/
private theorem fieldProblems_clean {ms : JsValue.Members} (hms : (ms.map Prod.fst).Nodup)
    {name : String} (spec : FieldSpec)
    (h : (JsValue.kept ms name).isSome = true ∨ isInherited name = false) :
    fieldProblems H (JsValue.cleanMembers ms []) (name, spec) = fieldProblems H ms (name, spec) := by
  have hclean : lookupFact (JsValue.cleanMembers ms []) name = (lookupFact ms name).clean := by
    rw [lookupFact, lookupFact, JsValue.get_cleanMembers hms]
    rcases h with hkept | hinherited
    · obtain ⟨w, hw⟩ := Option.isSome_iff_exists.mp hkept
      rw [hw]
      unfold JsValue.kept at hw
      split_ifs at hw with hproto
      obtain ⟨v, hv, rfl⟩ := Option.map_eq_some_iff.mp hw
      rw [(Option.filter_eq_some_iff.mp hv).1]
      rfl
    · have hproto : name ≠ "__proto__" := by
        rintro rfl
        cases hinherited
      have hmethod : ¬objectMethods.contains name = true := by
        simpa [isInherited, hproto] using hinherited
      rw [JsValue.kept, if_neg hproto, if_neg hproto, if_neg hmethod]
      cases hget : Entries.get ms name with
      | none => rfl
      | some v => cases v <;> rfl
  simp only [fieldProblems, hclean, JsValue.isUndefined_clean, strictEquals_null_clean,
    typeProblem_clean, isText_clean]

/-- A payload that was accepted is still accepted after cleaning, exactly where it keeps every
field that would otherwise be read from what all objects inherit. -/
theorem payloadProblems_clean_iff {schema : PayloadSchema} {ms : JsValue.Members}
    (hms : (ms.map Prod.fst).Nodup) (h : payloadProblems H schema ms = []) :
    payloadProblems H schema (JsValue.cleanMembers ms []) = [] ↔ schema.Kept ms := by
  rw [payloadProblems_eq_nil_iff] at h ⊢
  obtain ⟨hnames, hfields⟩ := h
  constructor
  · rintro ⟨_, hcleaned⟩ field hfield hinherited
    by_contra hlost
    rw [Option.not_isSome_iff_eq_none, ← JsValue.get_cleanMembers hms] at hlost
    exact fieldProblems_inherited field.2 hlost hinherited (hcleaned field hfield)
  · intro hkept
    constructor
    · intro m hm
      obtain ⟨e, he, hname⟩ := JsValue.exists_of_mem_cleanMembers hm
      rw [← hname]
      exact hnames e he
    · intro field hfield
      rw [← hfields field hfield]
      refine fieldProblems_clean hms field.2 ?_
      cases hinherited : isInherited field.1 with
      | false => exact .inr rfl
      | true => exact .inl (hkept field hfield hinherited)

end

end CoolSdk
