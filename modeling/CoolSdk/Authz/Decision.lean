import CoolSdk.Authz.Delegation
import CoolSdk.Authz.Request
import CoolSdk.Platform.Policy
import CoolSdk.Platform.Status

/-!
# Authorization decisions

A request evaluated against an identified policy gives a typed and signed result, bound
to the request digest, the policy digest, a digest of the facts, the nonce and the time.
`verifyDecision` answers in nine checks. Each has its own definition, and one inversion
theorem says which check of a report is which.
-/

namespace CoolSdk

/-- What an evaluation answers. -/
inductive AuthzDecisionValue
  | permit
  | deny
  | indeterminate
  | error
  deriving DecidableEq, Repr

/-- The wire text of a decision value. -/
def AuthzDecisionValue.text : AuthzDecisionValue → String
  | permit => "permit"
  | deny => "deny"
  | indeterminate => "indeterminate"
  | error => "error"

/-- What a decision rests on. -/
inductive Assurance
  | trusted
  | reproducible
  deriving DecidableEq, Repr

/-- The wire text of an assurance. -/
def Assurance.text : Assurance → String
  | trusted => "trusted"
  | reproducible => "reproducible"

/-- The policy a decision names. -/
structure PolicyRef where
  id : String
  version : String
  digest : Multihash
  deriving DecidableEq, Repr

/-- The evaluator a decision names. -/
structure EvaluatorRef where
  id : String
  version : String
  deriving DecidableEq, Repr

/-- `EVALUATOR`: the one evaluator this verifier can replay. -/
def evaluator : EvaluatorRef := { id := "cool-nwc/policy-engine", version := "cool.policy.v1/1" }

/-- The body of a decision. -/
structure AuthorizationDecision where
  schema : String := "cool.authz-decision.v1"
  decisionId : String
  decision : AuthzDecisionValue
  requestId : String
  requestDigest : Multihash
  principal : String
  nonce : String
  policy : PolicyRef
  evaluator : EvaluatorRef
  inputDigest : Multihash
  assurance : Assurance
  reasons : List String
  decidedAt : String
  validUntil : String
  deriving DecidableEq, Repr

instance : ToJs AuthorizationDecision where
  toJs d := .object [("schema", .str d.schema), ("decision_id", .str d.decisionId),
    ("decision", .str d.decision.text), ("request_id", .str d.requestId),
    ("request_digest", .str d.requestDigest), ("principal", .str d.principal),
    ("nonce", .str d.nonce),
    ("policy", .object [("id", .str d.policy.id), ("version", .str d.policy.version),
      ("digest", .str d.policy.digest)]),
    ("evaluator", .object [("id", .str d.evaluator.id), ("version", .str d.evaluator.version)]),
    ("input_digest", .str d.inputDigest), ("assurance", .str d.assurance.text),
    ("reasons", .array (d.reasons.map .str)), ("decided_at", .str d.decidedAt),
    ("valid_until", .str d.validUntil)]

/-- The facts the engine sees: the caller's, overridden by the request's own fields. -/
def decisionFacts (request : AuthorizationRequest) (facts : Facts) : Facts :=
  [("request.principal", request.principal), ("request.action", request.action),
    ("request.resource", request.resource), ("request.audience", request.audience)].foldl
    (fun out f => Entries.set out f.1 (.str f.2)) facts

/-- `MAP`: the decision value of a policy decision. -/
def mapDecision : Decision → AuthzDecisionValue
  | .allow | .auditOnly => .permit
  | .deny | .quarantine => .deny
  | .requireApproval | .defer => .indeterminate

/-- What a decision is made on. -/
structure DecideInput where
  request : AuthorizationRequest
  policy : PolicyDocument
  facts : Facts
  now : JsNumber
  decisionId : Option String := none

section

variable (H : Host)

/-- The guarded part of `decisionBody`: the policy digest, the decision and its reasons. -/
def evaluateRequest (input : DecideInput) (allFacts : Facts) :
    Except String (Multihash × AuthzDecisionValue × List String) := do
  let pdigest ← policyDigest H input.policy
  if (dateNumber H input.request.expiresAt).lt input.now then
    .ok (pdigest, .deny, ["request_expired"])
  else
    let r ← evaluatePolicy H input.policy allFacts input.now []
    .ok (pdigest, mapDecision r.decision, r.reasonCodes)

/-- The same with what is caught: an error is a decision of its own. -/
def evaluateGuarded (input : DecideInput) (allFacts : Facts) :
    Except String (Multihash × AuthzDecisionValue × List String) :=
  match evaluateRequest H input allFacts with
  | .ok result => .ok result
  | .error err => do
    let pdigest ← digestOf H "cool.policy.invalid" (toJs input.policy)
    .ok (pdigest, .error, ["evaluation_error:" ++ slice 120 err])

/-- The body of the decision on a request; `random` is what a fresh id is drawn from. -/
def decisionBody (input : DecideInput) (random : Bytes) : Except String AuthorizationDecision := do
  let allFacts := decisionFacts input.request input.facts
  let (pdigest, decision, reasons) ← evaluateGuarded H input allFacts
  let requestDigest ← requestDigest H input.request
  let inputDigest ← digestOf H "cool.authz.facts.v1" (.object allFacts)
  let decidedAt ← toISOString input.now
  .ok {
    decisionId := input.decisionId.getD ("dec_" ++ toHex random)
    decision
    requestId := input.request.requestId
    requestDigest
    principal := input.request.principal
    nonce := input.request.nonce
    policy := { id := input.policy.id, version := input.policy.version, digest := pdigest }
    evaluator
    inputDigest
    assurance := .reproducible
    reasons
    decidedAt
    validUntil := input.request.expiresAt }

/-- `decide`: evaluate and sign. -/
def DecideInput.decide (input : DecideInput) (evaluatorKey : KeyPair) (random : Bytes) :
    Except String (Signed AuthorizationDecision) := do
  let body ← decisionBody H input random
  signObject H "cool.authz-decision.v1" body evaluatorKey

/-- Whether a decision must still be valid now, or is judged at decision time. -/
inductive VerifyMode
  | enforcement
  | historical
  deriving DecidableEq, Repr

/-- The delegation chain presented with a decision. -/
structure ChainOffer where
  chain : List (Signed Delegation)
  roots : List String
  revoked : Option (List String) := none
  amount : Option JsNumber := none

/-- What a decision is verified against. -/
structure VerifyDecisionOptions where
  request : AuthorizationRequest
  trust : TrustStore
  mode : VerifyMode
  now : JsNumber
  policy : Option PolicyDocument := none
  facts : Option Facts := none
  directory : Option PrincipalDirectory := none
  delegation : Option ChainOffer := none

/-- The checks of a decision report. -/
structure DecisionChecks where
  integrity : Check
  signature : Check
  evaluatorTrusted : Check
  requestBinding : Check
  policyBinding : Check
  reproduced : Check
  freshness : Check
  principalState : Check
  delegation : Check

/-- The checks by name, in report order. -/
def DecisionChecks.entries (c : DecisionChecks) : Checks :=
  [("integrity", c.integrity), ("signature", c.signature),
    ("evaluator_trusted", c.evaluatorTrusted), ("request_binding", c.requestBinding),
    ("policy_binding", c.policyBinding), ("reproduced", c.reproduced),
    ("freshness", c.freshness), ("principal_state", c.principalState),
    ("delegation", c.delegation)]

/-- The report on a decision. -/
structure DecisionReport where
  schema : String := "cool.authz-decision-report.v1"
  decision : AuthzDecisionValue
  assurance : Assurance
  outcome : Outcome
  checks : DecisionChecks
  reasons : List String

/-- What of a request a decision does not bind, given the digest of the request. -/
def bindingProblems (digest : Multihash) (r : AuthorizationRequest) (d : AuthorizationDecision) :
    List String :=
  [("request digest", digest, d.requestDigest), ("request id", r.requestId, d.requestId),
    ("principal", r.principal, d.principal), ("nonce", r.nonce, d.nonce)].filterMap fun f =>
    if f.2.1 ≠ f.2.2 then some f.1 else none

/-- Whether a decision binds a request. -/
def requestBindingCheck (digest : Multihash) (r : AuthorizationRequest)
    (d : AuthorizationDecision) : Check :=
  let problems := bindingProblems digest r d
  if problems ≠ [] then
    check .fail "request_mismatch"
      ("decision does not bind this request: " ++ ", ".intercalate problems ++ " differ")
  else check .pass "request_bound"
    ("decision " ++ d.decisionId ++ " binds request " ++ r.requestId)

/-- Whether the supplied policy is the one a decision names. -/
def policyBindingCheck (policy : Option PolicyDocument) (d : AuthorizationDecision) :
    Except String Check :=
  match policy with
  | none => .ok (check .notChecked "no_policy"
      "policy not supplied; the decision is accepted on the evaluator's signature (assurance: trusted)")
  | some p => do
    let digest ← policyDigest H p
    if digest ≠ d.policy.digest then
      .ok (check .fail "policy_mismatch" ("supplied policy " ++ p.id ++ "@" ++ p.version ++
        " is not the one evaluated (" ++ d.policy.id ++ "@" ++ d.policy.version ++ ")"))
    else .ok (check .pass "policy_bound" (d.policy.id ++ "@" ++ d.policy.version ++ " " ++
      slice 22 d.policy.digest ++ "…"))

/-- The decision value the recorded policy, facts and time give again. -/
def replay (r : AuthorizationRequest) (d : AuthorizationDecision) (p : PolicyDocument)
    (allFacts : Facts) : Except String AuthzDecisionValue :=
  if (dateNumber H r.expiresAt).lt (dateNumber H d.decidedAt) then .ok .deny
  else do
    let again ← evaluatePolicy H p allFacts (dateNumber H d.decidedAt) []
    .ok (mapDecision again.decision)

/-- Whether replaying the policy on the supplied facts gives the recorded decision. -/
def reproducedCheck (r : AuthorizationRequest) (d : AuthorizationDecision)
    (policy : Option PolicyDocument) (facts : Option Facts) (policyBinding : Check) :
    Except String Check :=
  if d.evaluator ≠ evaluator then
    .ok (check .unknown "unsupported_evaluator" ("evaluator " ++ d.evaluator.id ++ "@" ++
      d.evaluator.version ++ " cannot be replayed by this verifier"))
  else
    match policy, facts with
    | some p, some facts =>
      if policyBinding.status ≠ .pass then
        .ok (check .notChecked "prerequisite_failed" "policy binding failed")
      else do
        let allFacts := decisionFacts r facts
        let inputDigest ← digestOf H "cool.authz.facts.v1" (.object allFacts)
        if inputDigest ≠ d.inputDigest then
          .ok (check .fail "input_mismatch" "the supplied facts are not the ones evaluated")
        else do
          let again ← replay H r d p allFacts
          if again = d.decision then
            .ok (check .pass "replayed_identically" ("re-evaluation gives " ++ again.text))
          else .ok (check .fail "replay_mismatch" ("re-evaluation gives " ++ again.text ++
            ", the record says " ++ d.decision.text))
    | _, _ => .ok (check .notChecked "no_replay_inputs"
        "policy and facts not both supplied; replay not attempted")

/-- Whether a decision lies in its request's window and, at the boundary, has not expired. -/
def freshnessCheck (r : AuthorizationRequest) (d : AuthorizationDecision) (mode : VerifyMode)
    (now : JsNumber) : Check :=
  if (dateNumber H d.decidedAt).lt ((dateNumber H r.issuedAt).sub (.ofInt 60000)) then
    check .fail "decided_before_request" "the decision predates its request"
  else if (dateNumber H r.expiresAt).lt (dateNumber H d.validUntil) then
    check .fail "validity_exceeds_request" "the decision claims validity beyond the request"
  else if mode = .enforcement ∧ (dateNumber H d.validUntil).lt now = true then
    check .fail "decision_expired" ("the decision expired " ++ d.validUntil)
  else check .pass "fresh" (if mode = .enforcement then "valid until " ++ d.validUntil
    else "decided within the request window")

/-- Whether the requesting principal is usable at a moment. -/
def principalStateCheck (directory : Option PrincipalDirectory) (principal : String)
    (at_ : JsNumber) : Except String Check :=
  match directory with
  | none => .ok (check .notChecked "no_directory" "no principal directory supplied")
  | some dir => dir.check H principal at_ none

/-- What a request asks of a chain. -/
def AuthorizationRequest.chainRequest (r : AuthorizationRequest) (amount : Option JsNumber) :
    ChainRequest :=
  { requester := r.principal
    action := r.action
    resource := r.resource
    audience := r.audience
    amount }

/-- Whether the presented chain is the one a request relies on, and authorises it. -/
def delegationCheck (r : AuthorizationRequest) (offer : Option ChainOffer)
    (directory : Option PrincipalDirectory) (at_ : JsNumber) : Except String Check :=
  match nonEmpty r.delegation with
  | none => .ok (check .notApplicable "no_delegation"
      "the request does not rely on delegated authority")
  | some named =>
    match offer, directory with
    | some offer, some directory =>
      if (offer.chain.getLast?.map fun s => s.body.delegationId) ≠ some named then
        .ok (check .fail "wrong_delegation" ("the chain's leaf is not " ++ named))
      else
        verifyDelegationChain H offer.chain (r.chainRequest offer.amount)
          { directory, roots := offer.roots, at_, revoked := offer.revoked }
    | _, _ => .ok (check .notChecked "no_chain"
        "the request names a delegation but no chain (or directory) was supplied")

/-- Verify a decision. -/
def verifyDecision (s : Signed AuthorizationDecision) (o : VerifyDecisionOptions) :
    Except String DecisionReport := do
  let d := s.body
  let r := o.request
  let v ← verifyTrusted H "cool.authz-decision.v1" s o.trust .evaluator o.now
  let digest ← requestDigest H r
  let policyBinding ← policyBindingCheck H o.policy d
  let reproduced ← reproducedCheck H r d o.policy o.facts policyBinding
  let decidedAt := dateNumber H d.decidedAt
  let principalState ← principalStateCheck H o.directory r.principal decidedAt
  let delegation ← delegationCheck H r o.delegation o.directory decidedAt
  let checks : DecisionChecks :=
    { integrity := v.integrity
      signature := v.signature
      evaluatorTrusted := v.trusted
      requestBinding := requestBindingCheck digest r d
      policyBinding
      reproduced
      freshness := freshnessCheck H r d o.mode o.now
      principalState
      delegation }
  let (outcome, reasons) := classifyOutcome checks.entries (checks.entries.map Prod.fst)
  .ok {
    decision := d.decision
    assurance := if reproduced.status = .pass then .reproducible else .trusted
    outcome
    checks
    reasons }

end

/-! ## What a report says -/

variable {H : Host}

/-- Which check of a report is which. -/
structure Reported (H : Host) (s : Signed AuthorizationDecision) (o : VerifyDecisionOptions)
    (report : DecisionReport) : Prop where
  decision : report.decision = s.body.decision
  trusted : ∃ v, verifyTrusted H "cool.authz-decision.v1" s o.trust .evaluator o.now = .ok v ∧
    report.checks.integrity = v.integrity ∧ report.checks.signature = v.signature ∧
      report.checks.evaluatorTrusted = v.trusted
  requestBinding : ∃ digest, requestDigest H o.request = .ok digest ∧
    report.checks.requestBinding = requestBindingCheck digest o.request s.body
  policyBinding : policyBindingCheck H o.policy s.body = .ok report.checks.policyBinding
  reproduced : reproducedCheck H o.request s.body o.policy o.facts report.checks.policyBinding =
    .ok report.checks.reproduced
  freshness : report.checks.freshness = freshnessCheck H o.request s.body o.mode o.now
  principalState : principalStateCheck H o.directory o.request.principal
    (dateNumber H s.body.decidedAt) = .ok report.checks.principalState
  delegation : delegationCheck H o.request o.delegation o.directory
    (dateNumber H s.body.decidedAt) = .ok report.checks.delegation
  outcome : report.outcome = (classifyOutcome report.checks.entries
    (report.checks.entries.map Prod.fst)).1

/-- A report is what its checks are. -/
theorem reported_of_verifyDecision {s : Signed AuthorizationDecision} {o : VerifyDecisionOptions}
    {report : DecisionReport} (h : verifyDecision H s o = .ok report) : Reported H s o report := by
  unfold verifyDecision at h
  obtain ⟨v, hv, h⟩ := bind_eq_ok.mp h
  obtain ⟨digest, hdigest, h⟩ := bind_eq_ok.mp h
  obtain ⟨policyBinding, hpolicy, h⟩ := bind_eq_ok.mp h
  obtain ⟨reproduced, hreproduced, h⟩ := bind_eq_ok.mp h
  obtain ⟨principalState, hprincipal, h⟩ := bind_eq_ok.mp h
  obtain ⟨delegation, hdelegation, h⟩ := bind_eq_ok.mp h
  cases h
  exact ⟨rfl, ⟨v, hv, rfl, rfl, rfl⟩, ⟨digest, hdigest, rfl⟩, hpolicy, hreproduced, rfl,
    hprincipal, hdelegation, rfl⟩

/-- There is a report exactly when none of its parts throws. -/
theorem verifyDecision_ok_iff {s : Signed AuthorizationDecision} {o : VerifyDecisionOptions} :
    (∃ report, verifyDecision H s o = .ok report) ↔
      (∃ v, verifyTrusted H "cool.authz-decision.v1" s o.trust .evaluator o.now = .ok v) ∧
      (∃ digest, requestDigest H o.request = .ok digest) ∧
      (∃ binding reproduced, policyBindingCheck H o.policy s.body = .ok binding ∧
        reproducedCheck H o.request s.body o.policy o.facts binding = .ok reproduced) ∧
      (∃ c, principalStateCheck H o.directory o.request.principal
        (dateNumber H s.body.decidedAt) = .ok c) ∧
      ∃ c, delegationCheck H o.request o.delegation o.directory
        (dateNumber H s.body.decidedAt) = .ok c := by
  constructor
  · rintro ⟨report, h⟩
    have hr := reported_of_verifyDecision h
    obtain ⟨v, hv, _⟩ := hr.trusted
    obtain ⟨digest, hdigest, _⟩ := hr.requestBinding
    exact ⟨⟨v, hv⟩, ⟨digest, hdigest⟩, ⟨_, _, hr.policyBinding, hr.reproduced⟩,
      ⟨_, hr.principalState⟩, ⟨_, hr.delegation⟩⟩
  · rintro ⟨⟨v, hv⟩, ⟨digest, hdigest⟩, ⟨binding, reproduced, hbinding, hreproduced⟩,
      ⟨state, hstate⟩, ⟨delegation, hdelegation⟩⟩
    simp only [verifyDecision, hv, hdigest, hbinding, hreproduced, hstate, hdelegation, ok_bind]
    exact ⟨_, rfl⟩

/-- A decision binds a request when digest, id, principal and nonce agree. -/
theorem requestBindingCheck_pass_iff (digest : Multihash) (r : AuthorizationRequest)
    (d : AuthorizationDecision) :
    (requestBindingCheck digest r d).status = .pass ↔
      digest = d.requestDigest ∧ r.requestId = d.requestId ∧ r.principal = d.principal ∧
        r.nonce = d.nonce := by
  have hproblems : bindingProblems digest r d = [] ↔
      digest = d.requestDigest ∧ r.requestId = d.requestId ∧ r.principal = d.principal ∧
        r.nonce = d.nonce := by
    simp only [bindingProblems, List.filterMap_eq_nil_iff, List.mem_cons, List.not_mem_nil,
      or_false, forall_eq_or_imp, forall_eq, ite_eq_right_iff, reduceCtorEq, imp_false, ne_eq,
      not_not]
  rw [← hproblems]
  unfold requestBindingCheck
  by_cases hp : bindingProblems digest r d = []
  · simp only [hp, ne_eq, not_true_eq_false, if_false, check]
  · simp only [hp, ne_eq, not_false_eq_true, if_true, check, reduceCtorEq]

/-- A supplied policy that passes is the one the decision names. -/
theorem policyDigest_of_policyBindingCheck {p : PolicyDocument} {d : AuthorizationDecision}
    {c : Check} (h : policyBindingCheck H (some p) d = .ok c) (hc : c.status ≠ .fail) :
    policyDigest H p = .ok d.policy.digest := by
  unfold policyBindingCheck at h
  obtain ⟨digest, hdigest, h⟩ := bind_eq_ok.mp h
  by_cases he : digest = d.policy.digest
  · rw [hdigest, he]
  · simp only [he, ne_eq, not_false_eq_true, if_true, Except.ok.injEq] at h
    subst h
    exact absurd rfl hc

/-- The check of a supplied policy passes unless it fails. -/
theorem pass_of_policyBindingCheck {p : PolicyDocument} {d : AuthorizationDecision} {c : Check}
    (h : policyBindingCheck H (some p) d = .ok c) (hc : c.status ≠ .fail) : c.status = .pass := by
  unfold policyBindingCheck at h
  obtain ⟨digest, _, h⟩ := bind_eq_ok.mp h
  split at h
  · cases h
    exact absurd rfl hc
  · cases h
    rfl

/-- What a replay of supplied inputs establishes unless it refuses. -/
theorem replay_of_reproducedCheck {r : AuthorizationRequest} {d : AuthorizationDecision}
    {p : PolicyDocument} {facts : Facts} {binding c : Check} (hb : binding.status = .pass)
    (h : reproducedCheck H r d (some p) (some facts) binding = .ok c)
    (hc : c.status ≠ .fail ∧ c.status ≠ .unknown) :
    digestOf H "cool.authz.facts.v1" (.object (decisionFacts r facts)) = .ok d.inputDigest ∧
      replay H r d p (decisionFacts r facts) = .ok d.decision := by
  unfold reproducedCheck at h
  by_cases he : d.evaluator = evaluator
  · simp only [he, hb, ne_eq, not_true_eq_false, if_false] at h
    obtain ⟨digest, hdigest, h⟩ := bind_eq_ok.mp h
    by_cases hd : digest = d.inputDigest
    · simp only [hd, not_true_eq_false, if_false] at h
      obtain ⟨again, hagain, h⟩ := bind_eq_ok.mp h
      by_cases ha : again = d.decision
      · exact ⟨hd ▸ hdigest, ha ▸ hagain⟩
      · simp only [ha, if_false, Except.ok.injEq] at h
        subst h
        exact absurd rfl hc.1
    · simp only [hd, not_false_eq_true, if_true, Except.ok.injEq] at h
      subst h
      exact absurd rfl hc.1
  · simp only [he, ne_eq, not_false_eq_true, if_true, Except.ok.injEq] at h
    subst h
    exact absurd rfl hc.2

/-- Only the known evaluator is replayed or excused. -/
theorem evaluator_of_reproducedCheck {r : AuthorizationRequest} {d : AuthorizationDecision}
    {policy : Option PolicyDocument} {facts : Option Facts} {binding c : Check}
    (h : reproducedCheck H r d policy facts binding = .ok c) (hc : c.status ≠ .unknown) :
    d.evaluator = evaluator := by
  by_contra he
  unfold reproducedCheck at h
  simp only [he, ne_eq, not_false_eq_true, if_true, Except.ok.injEq] at h
  subst h
  exact hc rfl

/-- Freshness always applies. -/
theorem freshnessCheck_ne_notApplicable (r : AuthorizationRequest) (d : AuthorizationDecision)
    (mode : VerifyMode) (now : JsNumber) :
    (freshnessCheck H r d mode now).status ≠ .notApplicable := by
  unfold freshnessCheck
  split_ifs <;> exact nofun

/-- Request binding always applies. -/
theorem requestBindingCheck_ne_notApplicable (digest : Multihash) (r : AuthorizationRequest)
    (d : AuthorizationDecision) : (requestBindingCheck digest r d).status ≠ .notApplicable := by
  unfold requestBindingCheck
  simp only
  split_ifs <;> exact nofun

/-- The principal's state always applies. -/
theorem principalStateCheck_ne_notApplicable {directory : Option PrincipalDirectory}
    {principal : String} {at_ : JsNumber} {c : Check}
    (h : principalStateCheck H directory principal at_ = .ok c) : c.status ≠ .notApplicable := by
  cases directory with
  | none =>
    cases h
    exact nofun
  | some dir =>
    rcases PrincipalDirectory.check_status h with hs | hs <;> rw [hs] <;> exact nofun

/-- When a decision is fresh at the boundary. -/
theorem freshnessCheck_enforcement_iff (r : AuthorizationRequest) (d : AuthorizationDecision)
    (now : JsNumber) :
    (freshnessCheck H r d .enforcement now).status = .pass ↔
      (dateNumber H d.decidedAt).lt ((dateNumber H r.issuedAt).sub (.ofInt 60000)) = false ∧
        (dateNumber H r.expiresAt).lt (dateNumber H d.validUntil) = false ∧
          (dateNumber H d.validUntil).lt now = false := by
  unfold freshnessCheck
  by_cases hissued :
      (dateNumber H d.decidedAt).lt ((dateNumber H r.issuedAt).sub (.ofInt 60000)) = true
  · simp only [hissued, if_true, check, reduceCtorEq, Bool.true_eq_false, false_and]
  · by_cases hexceeds : (dateNumber H r.expiresAt).lt (dateNumber H d.validUntil) = true
    · simp only [hissued, hexceeds, if_true, if_false, check, reduceCtorEq, Bool.true_eq_false,
        false_and, and_false, Bool.false_eq_true]
    · by_cases hexpired : (dateNumber H d.validUntil).lt now = true
      · simp only [hissued, hexceeds, hexpired, if_true, if_false, check, reduceCtorEq,
          Bool.true_eq_false, and_false, Bool.false_eq_true, and_self]
      · simp only [hissued, hexceeds, hexpired, if_false, check, Bool.false_eq_true, and_false,
          and_self]

/-- A principal check at the boundary passes for a principal usable then. -/
theorem usable_of_principalStateCheck {directory : Option PrincipalDirectory} {principal : String}
    {at_ : JsNumber} {c : Check} (h : principalStateCheck H directory principal at_ = .ok c)
    (hc : c.status = .pass) : ∃ dir, directory = some dir ∧ dir.Usable H principal at_ := by
  cases directory with
  | none =>
    cases h
    cases hc
  | some dir => exact ⟨dir, rfl, c, h, hc⟩

/-- The delegation check applies whenever the request names a delegation. -/
theorem delegationCheck_ne_notApplicable {r : AuthorizationRequest} {offer : Option ChainOffer}
    {directory : Option PrincipalDirectory} {at_ : JsNumber} {c : Check}
    (h : delegationCheck H r offer directory at_ = .ok c)
    (hn : (nonEmpty r.delegation).isSome = true) : c.status ≠ .notApplicable := by
  obtain ⟨named, hnamed⟩ := Option.isSome_iff_exists.mp hn
  unfold delegationCheck at h
  simp only [hnamed] at h
  cases offer with
  | none => exact Except.ok.inj h ▸ nofun
  | some offer =>
    cases directory with
    | none => exact Except.ok.inj h ▸ nofun
    | some directory =>
      simp only at h
      split at h
      · exact Except.ok.inj h ▸ nofun
      · rcases verifyDelegationChain_status h with hs | hs <;> rw [hs] <;> exact nofun

/-- The chain a passing delegation check accepted, when the request names one. -/
theorem chain_of_delegationCheck {r : AuthorizationRequest} {offer : Option ChainOffer}
    {directory : Option PrincipalDirectory} {at_ : JsNumber} {c : Check} {named : String}
    (h : delegationCheck H r offer directory at_ = .ok c) (hc : c.status = .pass)
    (hn : nonEmpty r.delegation = some named) :
    ∃ offer' dir, offer = some offer' ∧ directory = some dir ∧
      (offer'.chain.getLast?.map fun s => s.body.delegationId) = some named ∧
        verifyDelegationChain H offer'.chain (r.chainRequest offer'.amount)
          { directory := dir, roots := offer'.roots, at_, revoked := offer'.revoked } = .ok c := by
  unfold delegationCheck at h
  simp only [hn] at h
  cases offer with
  | none =>
    cases h
    cases hc
  | some offer' =>
    cases directory with
    | none =>
      cases h
      cases hc
    | some dir =>
      by_cases hleaf : (offer'.chain.getLast?.map fun s => s.body.delegationId) = some named
      · simp only [hleaf, ne_eq, not_true_eq_false, if_false] at h
        exact ⟨offer', dir, rfl, rfl, hleaf, h⟩
      · simp only [hleaf, ne_eq, not_false_eq_true, if_true, Except.ok.injEq] at h
        subst h
        cases hc

/-- A decision made on a request binds it, and is valid until the request's expiry. -/
theorem decisionBody_binds {input : DecideInput} {random : Bytes} {d : AuthorizationDecision}
    (h : decisionBody H input random = .ok d) :
    requestDigest H input.request = .ok d.requestDigest ∧ d.requestId = input.request.requestId ∧
      d.principal = input.request.principal ∧ d.nonce = input.request.nonce ∧
        d.evaluator = evaluator ∧ d.validUntil = input.request.expiresAt ∧
          toISOString input.now = .ok d.decidedAt := by
  unfold decisionBody at h
  obtain ⟨⟨pdigest, decision, reasons⟩, _, h⟩ := bind_eq_ok.mp h
  obtain ⟨digest, hdigest, h⟩ := bind_eq_ok.mp h
  obtain ⟨inputDigest, _, h⟩ := bind_eq_ok.mp h
  obtain ⟨decidedAt, htime, h⟩ := bind_eq_ok.mp h
  cases h
  exact ⟨hdigest, rfl, rfl, rfl, rfl, rfl, htime⟩

/-- What is signed is the body of the decision. -/
theorem decisionBody_of_decide {input : DecideInput} {key : KeyPair} {random : Bytes}
    {s : Signed AuthorizationDecision} (h : input.decide H key random = .ok s) :
    decisionBody H input random = .ok s.body := by
  obtain ⟨body, hbody, h⟩ := bind_eq_ok.mp h
  rw [hbody, body_of_signObject H h]

end CoolSdk
