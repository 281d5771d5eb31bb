import CoolSdk.Platform.Policy

/-!
# Typed payloads

The registry of payload schemas and the strict validation an envelope's payload goes
through: unexpected fields, missing fields, wrong types and secret values are reported,
in that order, and an empty list of problems is acceptance.
-/

namespace CoolSdk

/-- The type of a payload field. -/
inductive FieldType
  | string
  | digest
  | int
  | bool
  | timestamp
  | strings
  | digests
  /-- `enum:a|b|c`, by its alternatives. -/
  | enum (allowed : List String)
  deriving DecidableEq, Repr

/-- The type of a field and whether it must be present. -/
structure FieldSpec where
  type : FieldType
  required : Bool
  deriving DecidableEq, Repr

/-- The payload shape of one version of an event family. -/
structure PayloadSchema where
  id : String
  eventType : String
  fields : OrderedMap String FieldSpec

/-- A required field. -/
def FieldSpec.r (type : FieldType) : FieldSpec := { type, required := true }

/-- An optional field. -/
def FieldSpec.o (type : FieldType) : FieldSpec := { type, required := false }

/-- The words that mark a field as holding a secret, in lower case. -/
def sensitiveWords : List String :=
  ["secret", "password", "passphrase", "token", "private_key", "privatekey", "credential"]

/-- Whether a field's name ends like the name of a secret, ignoring ASCII case. -/
def sensitiveName (name : String) : Bool :=
  let text := name.toList.map Char.toLower
  sensitiveWords.any fun word =>
    word.toList.isSuffixOf text || (word ++ "_value").toList.isSuffixOf text

/-- Whether a value is a text that satisfies a test. -/
def isText (test : String → Bool) : JsValue → Bool
  | .str s => test s
  | _ => false

/-- Whether a value is an array of texts that satisfy a test. -/
def isTexts (test : String → Bool) : JsValue → Bool
  | .array xs => xs.all (isText test)
  | _ => false

/-- The members `Object.keys` lists: an object's own, or the indices of a byte array. -/
def ownMembers? : JsValue → Option JsValue.Members
  | .object ms | .custom ms => some ms
  | .bytes b => some (b.zipIdx.map fun e => (toString e.2, .num (.ofInt e.1.toNat)))
  | _ => none

section

variable (H : Host)

/-- What is wrong with a present value of a field. -/
def typeProblem (type : FieldType) (v : JsValue) : Option String :=
  let orElse (good : Bool) (problem : String) : Option String := if good then none else some problem
  match type with
  | .string => orElse (isText (fun s => decide (s ≠ "")) v) "must be a non-empty string"
  | .digest => orElse (isText isMultihash v) "must be a mh:sha256: digest"
  | .int => orElse (match v with | .num n => n.isSafeInteger | _ => false) "must be an integer"
  | .bool => orElse (match v with | .bool _ => true | _ => false) "must be a boolean"
  | .timestamp => orElse (isText (fun s => !(dateNumber H s).isNaN) v)
      "must be an ISO-8601 timestamp"
  | .strings => orElse (isTexts (fun _ => true) v) "must be an array of strings"
  | .digests => orElse (isTexts isMultihash v) "must be an array of digests"
  | .enum allowed => orElse (isText allowed.contains v)
      ("must be one of " ++ ", ".intercalate allowed)

/-- The problems of one field of a schema. -/
def fieldProblems (data : JsValue.Members) (field : String × FieldSpec) : List String :=
  let v := lookupFact data field.1
  if v.isUndefined || v.strictEquals .null then
    if field.2.required then ["missing required field " ++ field.1] else []
  else
    (typeProblem H field.2.type v).toList.map (fun bad => field.1 ++ ": " ++ bad) ++
      if sensitiveName field.1 && !isText isMultihash v then
        [field.1 ++ ": looks like a secret value; commit it as a digest instead"]
      else []

/-- The problems of a payload object under a schema. -/
def payloadProblems (schema : PayloadSchema) (data : JsValue.Members) : List String :=
  (data.filter fun m => !(schema.fields.has m.1 || isInherited m.1)).map
      (fun m => "unexpected field " ++ m.1) ++
    schema.fields.entries.flatMap (fieldProblems H data)

end

/-- The double a natural number reads as, to the nearest and in a tie to the even one. -/
def nearestDouble (n : Nat) : JsNumber :=
  let unit := 2 ^ (n.log2 - 52)
  let up := decide (unit < 2 * (n % unit)) ||
    (decide (unit = 2 * (n % unit)) && decide (n / unit % 2 = 1))
  let rounded := (n / unit + if up then 1 else 0) * unit
  if rounded < 2 ^ 1024 then .ofInt rounded else .infinity

/-- `Number(/\.v(\d+)$/.exec(id)?.[1] ?? 0)`. -/
def schemaVersion (id : String) : JsNumber :=
  let reversed := id.toList.reverse
  match reversed.takeWhile Char.isDigit, reversed.dropWhile Char.isDigit with
  | digit :: digits, 'v' :: '.' :: _ =>
    nearestDouble ((digit :: digits).foldr (fun c n => 10 * n + (c.toNat - 48)) 0)
  | _, _ => .ofInt 0

/-- The registered schemas by id. -/
structure PayloadRegistry where
  schemas : OrderedMap String PayloadSchema

namespace PayloadRegistry

/-- A registry without schemas. -/
def empty : PayloadRegistry := ⟨.empty⟩

/-- Register a schema under an id not yet taken. -/
def register (r : PayloadRegistry) (schema : PayloadSchema) : Except String PayloadRegistry :=
  if r.schemas.has schema.id then
    .error ("payload schema " ++ schema.id ++ " is already registered")
  else .ok ⟨r.schemas.set schema.id schema⟩

/-- The schema of an id. -/
def get (r : PayloadRegistry) (id : String) : Option PayloadSchema := r.schemas.get id

/-- The current schema of an event type: the first one registered of the highest version. -/
def schemaFor (r : PayloadRegistry) (eventType : String) : Option String :=
  r.schemas.values.foldl (fun best s =>
    if s.eventType = eventType ∧
        ((nonEmpty best).all fun id => (schemaVersion id).lt (schemaVersion s.id)) = true then
      some s.id
    else best) none

/-- Validate a payload. An empty result means valid. -/
def validate (H : Host) (r : PayloadRegistry) (schemaId : String) (payload : JsValue) :
    List String :=
  match r.get schemaId with
  | none => ["unknown payload schema " ++ schemaId]
  | some schema =>
    match ownMembers? payload with
    | none => ["payload must be an object"]
    | some data => payloadProblems H schema data

end PayloadRegistry

/-- A field of a valid payload is absent where it may be, or has its type and is no secret. -/
theorem fieldProblems_eq_nil_iff (H : Host) (data : JsValue.Members) (name : String)
    (spec : FieldSpec) :
    fieldProblems H data (name, spec) = [] ↔
      let v := lookupFact data name
      if v.isUndefined || v.strictEquals .null then spec.required = false
      else typeProblem H spec.type v = none ∧
        (sensitiveName name = true → isText isMultihash v = true) := by
  simp only [fieldProblems]
  by_cases habsent : ((lookupFact data name).isUndefined ||
      (lookupFact data name).strictEquals .null) = true
  · simp only [habsent, if_true]
    cases spec.required <;> simp
  · simp only [habsent, Bool.false_eq_true, if_false, List.append_eq_nil_iff, List.map_eq_nil_iff,
      Option.toList_eq_nil_iff]
    refine and_congr_right fun _ => ?_
    cases sensitiveName name <;> cases isText isMultihash (lookupFact data name) <;> simp

/-- A valid payload carries no field its schema does not name, and every field is in order. -/
theorem payloadProblems_eq_nil_iff (H : Host) (schema : PayloadSchema) (data : JsValue.Members) :
    payloadProblems H schema data = [] ↔
      (∀ m ∈ data, (schema.fields.has m.1 || isInherited m.1) = true) ∧
        ∀ field ∈ schema.fields.entries, fieldProblems H data field = [] := by
  simp only [payloadProblems, List.append_eq_nil_iff, List.map_eq_nil_iff, List.filter_eq_nil_iff,
    List.flatMap_eq_nil_iff, Bool.not_eq_true', Bool.not_eq_false]

end CoolSdk
