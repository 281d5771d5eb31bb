import CoolSdk.Core.Fallible
import CoolSdk.Runtime.Host

/-!
# Governance of changes

Rules are plain data, evaluated against a change where its record is sealed. The strictest
matching rule wins, whatever its place in the set, and the outcome is folded into the approval
block of the record.
-/

namespace CoolSdk.Governance

/-- What kind of change a record describes. -/
inductive ChangeKind
  | prompt
  | model
  | params
  | policy
  | dataset
  | agentPermission
  | tool
  deriving DecidableEq, Repr

/-- The wire text of a kind. -/
def ChangeKind.text : ChangeKind → String
  | prompt => "prompt"
  | model => "model"
  | params => "params"
  | policy => "policy"
  | dataset => "dataset"
  | agentPermission => "agent-permission"
  | tool => "tool"

/-- How the change reached production. -/
structure ChangeActor where
  id : String
  method : String
  deriving DecidableEq, Repr

instance : ToJs ChangeActor where
  toJs a := .object [("id", .str a.id), ("method", .str a.method)]

/-- What a record says was decided. -/
inductive ApprovalDecision
  | autoApproved
  | approved
  | rejected
  | waived
  deriving DecidableEq, Repr

def ApprovalDecision.text : ApprovalDecision → String
  | autoApproved => "auto-approved"
  | approved => "approved"
  | rejected => "rejected"
  | waived => "waived"

/-- The governance decision attached to a change. -/
structure ChangeApproval where
  policyId : String
  decision : ApprovalDecision
  approvers : List String
  deriving DecidableEq, Repr

instance : ToJs ChangeApproval where
  toJs a := .object [("policy_id", .str a.policyId), ("decision", .str a.decision.text),
    ("approvers", .array (a.approvers.map .str))]

/-- What a rule can decide. -/
inductive Decision
  | autoApproved
  | approved
  | rejected
  | escalate
  deriving DecidableEq, Repr

namespace Decision

def text : Decision → String
  | autoApproved => "auto-approved"
  | approved => "approved"
  | rejected => "rejected"
  | escalate => "escalate"

/-- `SEVERITY`. -/
def severity : Decision → Nat
  | rejected => 3
  | escalate => 2
  | approved => 1
  | autoApproved => 0

end Decision

/-- The facts a rule is evaluated against. -/
structure PolicyInput where
  kind : ChangeKind
  ref : String
  environment : String
  actor : ChangeActor
  approvers : List String
  risk : Option JsNumber
  labels : Option (List String)

/-- A condition; every member present must hold. -/
structure PolicyMatch where
  kinds : Option (List ChangeKind) := none
  environments : Option (List String) := none
  /-- A part of the change's ref, or `re:` and a pattern. -/
  ref : Option String := none
  minApprovers : Option JsNumber := none
  maxApprovers : Option JsNumber := none
  minRisk : Option JsNumber := none
  labels : Option (List String) := none
  actorMethods : Option (List String) := none

structure PolicyRule where
  id : String
  title : String
  when_ : PolicyMatch
  decision : Decision
  obligations : Option (List String) := none
  because : Option String := none

structure PolicySet where
  id : String
  rules : List PolicyRule
  fallback : Option Decision := none

/-- What is decided, and by which rule. -/
structure PolicyOutcome where
  decision : Decision
  rule : Option String
  title : Option String
  obligations : List String
  policyHash : Multihash
  considered : List (String × Decision)

/-! ## A policy set as it is hashed -/

/-- A member of an object literal, left out where there is no value. -/
def present {α : Type} (name : String) (f : α → JsValue) (value : Option α) : JsValue.Members :=
  (value.map fun a => (name, f a)).toList

/-- A list of texts. -/
def texts (l : List String) : JsValue := .array (l.map .str)

instance : ToJs PolicyMatch where
  toJs m := .object (
    present "kinds" (fun l => texts (l.map ChangeKind.text)) m.kinds ++
    present "environments" texts m.environments ++
    present "ref" .str m.ref ++
    present "minApprovers" .num m.minApprovers ++
    present "maxApprovers" .num m.maxApprovers ++
    present "minRisk" .num m.minRisk ++
    present "labels" texts m.labels ++
    present "actorMethods" texts m.actorMethods)

instance : ToJs PolicyRule where
  toJs r := .object (
    [("id", .str r.id), ("title", .str r.title), ("when", toJs r.when_),
      ("decision", .str r.decision.text)] ++
    present "obligations" texts r.obligations ++
    present "because" .str r.because)

instance : ToJs PolicySet where
  toJs p := .object (
    [("id", .str p.id), ("rules", .array (p.rules.map toJs))] ++
    present "fallback" (fun d : Decision => .str d.text) p.fallback)

/-! ## Evaluation -/

/-- `text.includes(part)`. -/
def includesText (text part : String) : Bool :=
  text.toList.tails.any fun t => part.toList.isPrefixOf t

section

variable (H : Host)

/-- Whether a change's ref is one that a condition names. An empty condition names every ref. -/
def refMatches (condition ref : String) : Except String Bool :=
  if condition.isEmpty then .ok true
  else if "re:".toList.isPrefixOf condition.toList then do
    let pattern ← H.regExp (String.ofList (condition.toList.drop 3))
    return pattern ref
  else .ok (includesText ref condition)

/-- Whether every member of a rule's condition that is present holds. -/
def matches_ (input : PolicyInput) (rule : PolicyRule) : Except String Bool :=
  let m := rule.when_
  let approvers := JsNumber.ofInt input.approvers.length
  if m.kinds.any fun kinds => !kinds.contains input.kind then .ok false
  else if m.environments.any fun environments => !environments.contains input.environment then
    .ok false
  else if m.actorMethods.any fun methods => !methods.contains input.actor.method then .ok false
  else do
    let named ← (match m.ref with
      | some condition => refMatches H condition input.ref
      | none => .ok true)
    return named &&
      !m.minApprovers.any (fun bound => approvers.lt bound) &&
      !m.maxApprovers.any (fun bound => bound.lt approvers) &&
      !m.minRisk.any (fun bound => (input.risk.getD (.ofInt 0)).lt bound) &&
      m.labels.all fun labels => labels.all fun label => (input.labels.getD []).contains label

/-- The rules of a list that match. -/
def matching (input : PolicyInput) : List PolicyRule → Except String (List PolicyRule)
  | [] => .ok []
  | rule :: rules => do
    let keep ← matches_ H input rule
    let rest ← matching input rules
    return if keep then rule :: rest else rest

/-- The commitment to a rule set. -/
def policyHash (policy : PolicySet) : Except String Multihash := do
  let bytes ← H.canonicalCbor (toJs policy)
  return mhSha256 H bytes

/-- The stricter of two rules, the first when they are as strict. -/
def stricter (worst rule : PolicyRule) : PolicyRule :=
  if worst.decision.severity < rule.decision.severity then rule else worst

/-- Evaluate a change against a policy set. -/
def evaluate (policy : PolicySet) (input : PolicyInput) : Except String PolicyOutcome := do
  let matched ← matching H input policy.rules
  let hash ← policyHash H policy
  match matched with
  | [] =>
    return {
      decision := policy.fallback.getD .escalate, rule := none, title := none, obligations := []
      policyHash := hash, considered := [] }
  | first :: rest =>
    let winner := rest.foldl stricter first
    return {
      decision := winner.decision, rule := some winner.id, title := some winner.title
      obligations := winner.obligations.getD [], policyHash := hash
      considered := H.sort
        (fun a b : String × Decision => .sub (.ofInt b.2.severity) (.ofInt a.2.severity))
        (matched.map fun rule => (rule.id, rule.decision)) }

end

/-- The approval block of an outcome; a record has no word for an escalation. -/
def approvalFrom (outcome : PolicyOutcome) (approvers : List String) : ChangeApproval where
  policyId := outcome.rule.getD "no-matching-rule"
  decision := match outcome.decision with
    | .escalate | .rejected => .rejected
    | .approved => .approved
    | .autoApproved => .autoApproved
  approvers := approvers

/-! ## The strictest rule wins -/

theorem le_foldl_stricter (rest : List PolicyRule) (first : PolicyRule) :
    ∀ rule ∈ first :: rest,
      rule.decision.severity ≤ (rest.foldl stricter first).decision.severity := by
  induction rest generalizing first with
  | nil =>
    intro rule h
    obtain rfl := List.mem_singleton.mp h
    exact le_rfl
  | cons next rest ih =>
    have hfirst : first.decision.severity ≤ (stricter first next).decision.severity := by
      unfold stricter
      split <;> omega
    have hnext : next.decision.severity ≤ (stricter first next).decision.severity := by
      unfold stricter
      split <;> omega
    have htop := ih (stricter first next) _ List.mem_cons_self
    intro rule h
    rcases List.mem_cons.mp h with rfl | h
    · exact hfirst.trans htop
    · rcases List.mem_cons.mp h with rfl | h
      · exact hnext.trans htop
      · exact ih _ rule (List.mem_cons_of_mem _ h)

theorem mem_matching {H : Host} {input : PolicyInput} {rules matched : List PolicyRule}
    (h : matching H input rules = .ok matched) {rule : PolicyRule} :
    rule ∈ matched ↔ rule ∈ rules ∧ matches_ H input rule = .ok true := by
  induction rules generalizing matched with
  | nil =>
    cases h
    simp
  | cons first rules ih =>
    simp only [matching, bind_eq_ok] at h
    obtain ⟨keep, hkeep, rest, hrest, h⟩ := h
    obtain rfl := Except.ok.inj h
    have hrule : rule = first → (matches_ H input rule = .ok true ↔ keep = true) := by
      rintro rfl
      rw [hkeep, Except.ok.injEq]
    rw [List.mem_cons, or_and_right, ← ih hrest]
    cases keep with
    | true =>
      simp only [if_true, List.mem_cons]
      exact or_congr_left ⟨fun he => ⟨he, (hrule he).mpr rfl⟩, fun he => he.1⟩
    | false =>
      rw [if_neg Bool.false_ne_true]
      refine ⟨Or.inr, fun hor => hor.resolve_left fun he => ?_⟩
      exact Bool.false_ne_true ((hrule he.1).mp he.2)

/-- No rule that matches is stricter than the outcome. -/
theorem evaluate_strictest {H : Host} {policy : PolicySet} {input : PolicyInput}
    {outcome : PolicyOutcome} (h : evaluate H policy input = .ok outcome) {rule : PolicyRule}
    (hmem : rule ∈ policy.rules) (hmatch : matches_ H input rule = .ok true) :
    rule.decision.severity ≤ outcome.decision.severity := by
  simp only [evaluate, bind_eq_ok] at h
  obtain ⟨matched, hmatched, hash, _, h⟩ := h
  have hin := (mem_matching hmatched).mpr ⟨hmem, hmatch⟩
  cases matched with
  | nil => cases hin
  | cons first rest =>
    cases h
    exact le_foldl_stricter rest first rule hin

end CoolSdk.Governance
