import CoolSdk.Runtime.Date
import CoolSdk.Wire.KeyDirectory

/-!
# The policy engine

A policy is data: rules over named facts, each with a decision. Conditions are evaluated
in three values, so a missing fact is unknown rather than false. The most restrictive
contribution of the rules that match or may match wins, and the default stands when none
does. Enumerated members of a document arrive as texts and are validated as such.
-/

namespace CoolSdk

/-- What a policy decides. -/
inductive Decision
  | allow
  | auditOnly
  | defer
  | requireApproval
  | quarantine
  | deny
  deriving DecidableEq, Repr

namespace Decision

/-- `DECISIONS`, least severe first. -/
def all : List Decision := [allow, auditOnly, defer, requireApproval, quarantine, deny]

/-- The wire text of a decision. -/
def text : Decision → String
  | allow => "allow"
  | auditOnly => "audit_only"
  | defer => "defer"
  | requireApproval => "require_approval"
  | quarantine => "quarantine"
  | deny => "deny"

/-- `SEVERITY`. -/
def severity : Decision → Nat
  | allow => 0
  | auditOnly => 1
  | defer => 2
  | requireApproval => 3
  | quarantine => 4
  | deny => 5

/-- The decision a text names. -/
def ofText? (s : String) : Option Decision := all.find? fun d => d.text = s

end Decision

/-- `DECISIONS.includes(text)`. -/
def knownDecision (s : String) : Bool := (Decision.all.map Decision.text).contains s

theorem ofText?_isSome_of_knownDecision {s : String} (h : knownDecision s = true) :
    (Decision.ofText? s).isSome = true := by
  unfold knownDecision at h
  rw [List.contains_iff_mem, List.mem_map] at h
  obtain ⟨d, hd, rfl⟩ := h
  cases d <;> rfl

/-- A condition over named facts. -/
inductive Condition
  | all (conditions : List Condition)
  | any (conditions : List Condition)
  | not (condition : Condition)
  | fact (name op : String) (value : Option JsValue)
  /-- `null` in the place of a condition. -/
  | null

/-- One rule of a policy. -/
structure PolicyRule where
  id : String
  description : Option String := none
  when_ : Condition
  decision : String
  reason : String
  onUnknown : Option String := none

/-- A policy document. -/
structure PolicyDocument where
  schema : String := "cool.policy.v1"
  id : String
  version : String
  description : Option String := none
  mode : String
  default_ : String
  onUnknown : Option String := none
  rules : List PolicyRule

/-- A member that is left out when absent. -/
def member? (name : String) (v : Option JsValue) : JsValue.Members :=
  v.toList.map fun v => (name, v)

mutual

/-- The object literal of a condition. -/
def Condition.toJs : Condition → JsValue
  | .all cs => .object [("all", .array (Condition.toJsList cs))]
  | .any cs => .object [("any", .array (Condition.toJsList cs))]
  | .not c => .object [("not", c.toJs)]
  | .fact name op value =>
    .object ([("fact", .str name), ("op", .str op)] ++ member? "value" value)
  | .null => .null

def Condition.toJsList : List Condition → List JsValue
  | [] => []
  | c :: cs => c.toJs :: Condition.toJsList cs

end

instance : ToJs PolicyRule where
  toJs r := .object ([("id", .str r.id)] ++ member? "description" (r.description.map .str) ++
    [("when", r.when_.toJs), ("decision", .str r.decision), ("reason", .str r.reason)] ++
    member? "on_unknown" (r.onUnknown.map .str))

instance : ToJs PolicyDocument where
  toJs p := .object ([("schema", .str p.schema), ("id", .str p.id), ("version", .str p.version)] ++
    member? "description" (p.description.map .str) ++
    [("mode", .str p.mode), ("default", .str p.default_)] ++
    member? "on_unknown" (p.onUnknown.map .str) ++ [("rules", .array (p.rules.map toJs))])

/-- Named facts. -/
abbrev Facts := JsValue.Members

/-- `facts[name]`: an own member, or what every object inherits under that name. -/
def lookupFact (facts : Facts) (name : String) : JsValue :=
  (Entries.get facts name).getD
    (if name = "__proto__" then .custom []
      else if objectMethods.contains name then .foreign "function" else .undefined)

/-- The value of a condition. -/
inductive Tri
  | known (value : Bool)
  | unknown
  /-- What the switch returns for an operator it does not know. -/
  | undefined
  deriving DecidableEq, Repr

section

variable (H : Host)

/-- The operators on a present fact; `value` is the condition's own. -/
def applyOp (op : String) (fact value : JsValue) : Except String Tri :=
  let compare (test : JsNumber → JsNumber → Bool) : Tri :=
    match fact, value with
    | .num a, .num b => .known (test a b)
    | _, _ => .known false
  match op with
  | "eq" => .ok (.known (fact.strictEquals value))
  | "neq" => .ok (.known (!fact.strictEquals value))
  | "in" => .ok (.known (match value with
    | .array items => items.any fun i => i.sameValueZero fact
    | _ => false))
  | "lt" => .ok (compare JsNumber.lt)
  | "lte" => .ok (compare JsNumber.le)
  | "gt" => .ok (compare fun a b => b.lt a)
  | "gte" => .ok (compare fun a b => b.le a)
  | "matches" =>
    match fact, value with
    | .str s, .str pattern => do
      let test ← H.regExp pattern
      .ok (.known (test s))
    | _, _ => .ok (.known false)
  | _ => .ok .undefined

mutual

/-- Evaluate a condition, collecting the facts found missing. -/
def evaluateCondition : Condition → Facts → List String → Except String (Tri × List String)
  | .all cs, facts, unknowns => evaluateAll cs facts unknowns false
  | .any cs, facts, unknowns => evaluateAny cs facts unknowns false
  | .not c, facts, unknowns => do
    let (v, unknowns) ← evaluateCondition c facts unknowns
    .ok (match v with
      | .unknown => .unknown
      | .known b => .known !b
      | .undefined => .known true, unknowns)
  | .fact name op value, facts, unknowns =>
    let fact := lookupFact facts name
    let missing := match fact with
      | .undefined | .null => true
      | _ => false
    if op = "exists" then .ok (.known !missing, unknowns)
    else if missing then
      .ok (.unknown, if unknowns.contains name then unknowns else unknowns ++ [name])
    else do
      let v ← applyOp H op fact (value.getD .undefined)
      .ok (v, unknowns)
  | .null, _, _ => .error "Cannot use 'in' operator to search for 'all' in null"

def evaluateAll : List Condition → Facts → List String → Bool → Except String (Tri × List String)
  | [], _, unknowns, sawUnknown => .ok (if sawUnknown then .unknown else .known true, unknowns)
  | c :: cs, facts, unknowns, sawUnknown => do
    let (v, unknowns) ← evaluateCondition c facts unknowns
    match v with
    | .known false => .ok (.known false, unknowns)
    | .unknown => evaluateAll cs facts unknowns true
    | _ => evaluateAll cs facts unknowns sawUnknown

def evaluateAny : List Condition → Facts → List String → Bool → Except String (Tri × List String)
  | [], _, unknowns, sawUnknown => .ok (if sawUnknown then .unknown else .known false, unknowns)
  | c :: cs, facts, unknowns, sawUnknown => do
    let (v, unknowns) ← evaluateCondition c facts unknowns
    match v with
    | .known true => .ok (.known true, unknowns)
    | .unknown => evaluateAny cs facts unknowns true
    | _ => evaluateAny cs facts unknowns sawUnknown

end

/-- The operators a document may name. -/
def knownOps : List String :=
  ["eq", "neq", "in", "exists", "lt", "lte", "gt", "gte", "matches"]

/-- Whether `new RegExp(String(value))` throws. -/
def invalidRegex (value : Option JsValue) : Bool :=
  let source := match value.getD .undefined with
    | .str s => Except.ok s
    | v => H.textOf v
  match source >>= H.regExp with
  | .ok _ => false
  | .error _ => true

mutual

/-- The problems of a condition, each under its path. -/
def conditionProblems : Condition → String → List String
  | .all cs, path => conditionProblemsList cs (path ++ ".all") 0
  | .any cs, path => conditionProblemsList cs (path ++ ".any") 0
  | .not c, path => conditionProblems c (path ++ ".not")
  | .fact _ op value, path =>
    if !knownOps.contains op then [path ++ ": needs fact and a known op"]
    else if op = "matches" ∧ invalidRegex H value = true then [path ++ ": invalid regex"]
    else []
  | .null, path => [path ++ ": condition missing"]

def conditionProblemsList : List Condition → String → Nat → List String
  | [], _, _ => []
  | c :: cs, path, i =>
    conditionProblems c (path ++ "[" ++ toString i ++ "]") ++ conditionProblemsList cs path (i + 1)

end

/-- A problem, unless its condition holds. -/
def problem (holds : Bool) (text : String) : List String := if holds then [] else [text]

/-- The problems of the rule at a position, given the ids before it. -/
def ruleProblems (i : Nat) (ids : List String) (rule : PolicyRule) : List String :=
  let path := "rules[" ++ toString i ++ "]"
  problem (decide (rule.id ≠ "") && !ids.contains rule.id) (path ++ ": id missing or duplicated") ++
  problem (knownDecision rule.decision) (path ++ ": unknown decision " ++ rule.decision) ++
  problem ((nonEmpty rule.onUnknown).all knownDecision) (path ++ ": unknown on_unknown") ++
  problem (decide (rule.reason ≠ "")) (path ++ ": reason code required") ++
  conditionProblems H rule.when_ (path ++ ".when")

/-- The loop of `validatePolicy` over the rules. -/
def rulesProblems : Nat → List String → List PolicyRule → List String
  | _, _, [] => []
  | i, ids, rule :: rules => ruleProblems H i ids rule ++ rulesProblems (i + 1) (rule.id :: ids) rules

/-- Structural validation: the problems found, none when the policy is valid. -/
def validatePolicy (p : PolicyDocument) : List String :=
  problem (decide (p.schema = "cool.policy.v1")) "schema must be cool.policy.v1" ++
  problem (decide (p.id ≠ "") && decide (p.version ≠ "")) "id and version are required" ++
  problem (["observe", "enforce"].contains p.mode) "mode must be observe or enforce" ++
  problem (knownDecision p.default_)
    ("default must be one of " ++ ", ".intercalate (Decision.all.map Decision.text)) ++
  problem ((nonEmpty p.onUnknown).all knownDecision) "on_unknown is not a decision" ++
  rulesProblems H 0 [] p.rules

/-- The digest of a policy. -/
def policyDigest (p : PolicyDocument) : Except String Multihash := do
  let bytes ← H.canonicalCbor (toJs p)
  .ok (mhSha256 H bytes)

/-- The contribution of one rule. An empty `on_unknown` names no decision. -/
structure MatchedRule where
  id : String
  unknown : Bool
  decision : String
  reason : String
  unknownFacts : Option (List String) := none
  deriving DecidableEq, Repr

/-- The record of an evaluation. -/
structure PolicyDecisionRecord where
  schema : String := "cool.policy-decision.v1"
  policyId : String
  policyVersion : String
  policyDigest : Multihash
  mode : String
  decision : Decision
  enforced : Bool
  matchedRules : List MatchedRule
  reasonCodes : List String
  inputDigest : Multihash
  inputRefs : List String
  evaluatedAt : String

/-- The UTF-16 code units of a text, by which the default `sort` compares. -/
def utf16 (s : String) : List Nat :=
  s.toList.flatMap fun c =>
    let n := c.toNat
    if n < 65536 then [n] else [55296 + (n - 65536) / 1024, 56320 + (n - 65536) % 1024]

/-- What a rule contributes, if it matches or may match. -/
def matchRule (p : PolicyDocument) (facts : Facts) (rule : PolicyRule) :
    Except String (Option MatchedRule) := do
  let (v, unknowns) ← evaluateCondition H rule.when_ facts []
  match v with
  | .known true =>
    .ok (some { id := rule.id, unknown := false, decision := rule.decision, reason := rule.reason })
  | .unknown =>
    .ok (some {
      id := rule.id
      unknown := true
      decision := (rule.onUnknown.or p.onUnknown).getD "defer"
      reason := rule.reason ++ ":unknown_input"
      unknownFacts := some (unknowns.insertionSort fun a b => utf16 a ≤ utf16 b) })
  | _ => .ok none

/-- The contributions of the rules in order. -/
def matchRules (p : PolicyDocument) (facts : Facts) :
    List PolicyRule → Except String (List MatchedRule)
  | [] => .ok []
  | rule :: rules => do
    let m ← matchRule H p facts rule
    let ms ← matchRules p facts rules
    .ok (m.toList ++ ms)

/-- One step of the reduction to the most restrictive contribution. A text outside
`SEVERITY` compares with nothing. -/
def restrict (acc : Decision) (m : MatchedRule) : Decision :=
  match Decision.ofText? m.decision with
  | some d => if acc.severity < d.severity then d else acc
  | none => acc

/-- A valid policy names a known default. -/
theorem default_ofText?_isSome {p : PolicyDocument} (h : validatePolicy H p = []) :
    (Decision.ofText? p.default_).isSome = true := by
  apply ofText?_isSome_of_knownDecision
  simp only [validatePolicy, List.append_eq_nil_iff, problem] at h
  by_contra hk
  obtain ⟨⟨⟨_, hdefault⟩, _⟩, _⟩ := h
  simp only [hk, if_false, reduceCtorEq] at hdefault

/-- Evaluate a policy on facts, at a time value. -/
def evaluatePolicy (p : PolicyDocument) (facts : Facts) (now : JsNumber)
    (inputRefs : List String) : Except String PolicyDecisionRecord :=
  if hvalid : validatePolicy H p = [] then do
    let matched ← matchRules H p facts p.rules
    let decision := if matched.isEmpty then
        (Decision.ofText? p.default_).get (default_ofText?_isSome H hvalid)
      else matched.foldl restrict .allow
    let reasonCodes := if matched.isEmpty then ["no_rule_matched:default"]
      else matched.map fun m => m.id ++ ":" ++ m.reason
    let sortedFacts := H.sort (fun a b => H.localeCompare a.1 b.1)
      (facts.filter fun f => !f.2.isUndefined)
    let policyDigest ← policyDigest H p
    let inputs ← H.canonicalCbor (.object sortedFacts)
    let evaluatedAt ← toISOString now
    .ok {
      policyId := p.id
      policyVersion := p.version
      policyDigest
      mode := p.mode
      decision
      enforced := decide (p.mode = "enforce")
      matchedRules := matched
      reasonCodes
      inputDigest := mhSha256 H inputs
      inputRefs
      evaluatedAt }
  else .error ("invalid policy " ++ p.id ++ "@" ++ p.version ++ ": " ++
    "; ".intercalate (validatePolicy H p))

end

end CoolSdk
