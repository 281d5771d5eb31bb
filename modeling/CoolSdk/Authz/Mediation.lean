import CoolSdk.Authz.DelegationAuthority
import CoolSdk.Authz.Gateway

/-!
# Complete mediation

What a gateway has established of an invocation by the time a tool runs. The nine checks
of the decision report, the filter over them and the steps around them come together in
one statement about every gateway and every invocation.
-/

namespace CoolSdk

/-- What lets an invocation through to the nonce store. -/
structure Admitted (H : Host) (gw : ToolGateway) (env : Surroundings) (inv : Invocation)
    (tool : ToolDefinition) : Prop where
  /-- The tool is the one registered under the invoked name. -/
  registered : gw.tools.get inv.tool = some tool
  action : tool.action = inv.request.action
  resource : covers tool.resource inv.request.resource = true
  audience : inv.request.audience = gw.audience
  paramsMatch : paramsMatch H inv.request inv.params inv.paramsSalt inv.commitmentKey = true
  /-- The decision is signed under the key the store trusts as an evaluator's now. -/
  trustedEvaluator : ∃ k, gw.trust.get inv.decision.signature.keyId = some k ∧
    SignedUnder H "cool.authz-decision.v1" inv.decision k.entry ∧
      (gw.trust.evaluate H
        { keyId := inv.decision.signature.keyId, purpose := .evaluator, now := env.now }).status =
          .pass
  permit : inv.decision.body.decision = .permit
  requestDigest : requestDigest H inv.request = .ok inv.decision.body.requestDigest
  requestId : inv.request.requestId = inv.decision.body.requestId
  principal : inv.request.principal = inv.decision.body.principal
  nonce : inv.request.nonce = inv.decision.body.nonce
  /-- The principal is active at decision time. -/
  principalActive : ∃ dir, gw.directory = some dir ∧
    dir.Usable H inv.request.principal (dateNumber H inv.decision.body.decidedAt) ∧
      (dir.stateAt H inv.request.principal
        (dateNumber H inv.decision.body.decidedAt)).status = .active
  /-- A delegation the request names is the leaf of a chain that passes for the request. -/
  delegated : ∀ named, nonEmpty inv.request.delegation = some named →
    ∃ chain dir amount c, inv.delegation = some chain ∧ gw.directory = some dir ∧
      ToolGateway.amountOf inv.params = .ok amount ∧
      (chain.getLast?.map fun s => s.body.delegationId) = some named ∧
      verifyDelegationChain H chain (inv.request.chainRequest amount)
        (gw.chainOptions env dir (dateNumber H inv.decision.body.decidedAt)) = .ok c ∧
      c.status = .pass
  /-- A supplied policy is the one the decision binds. -/
  policyBound : ∀ p, inv.policy = some p → policyDigest H p = .ok inv.decision.body.policy.digest
  /-- A supplied policy and supplied facts are the ones evaluated, and give the decision again. -/
  replayed : ∀ p facts, inv.policy = some p → inv.facts = some facts →
    digestOf H "cool.authz.facts.v1" (.object (decisionFacts inv.request facts)) =
        .ok inv.decision.body.inputDigest ∧
      replay H inv.request inv.decision.body p (decisionFacts inv.request facts) =
        .ok inv.decision.body.decision
  knownEvaluator : inv.decision.body.evaluator = evaluator
  /-- The decision is inside its request's window and has not expired. -/
  fresh : (freshnessCheck H inv.request inv.decision.body .enforcement env.now).status = .pass
  /-- A workload the request binds is the one observed. -/
  execution : inv.request.execution = none ∨ inv.request.execution = env.observedExecution

/-- What had happened when a tool was called. -/
structure Mediated (H : Host) (gw : ToolGateway) (env : Surroundings) (inv : Invocation)
    (consume : Except String ConsumeResult) (call : ToolGateway.ToolCall) : Prop
    extends Admitted H gw env inv call.tool where
  /-- The tool is called with the parameters that were checked. -/
  params : call.params = inv.params
  /-- The nonce store answered that this is the first use of the nonce. -/
  consumed : consume = .ok .consumed

variable {H : Host}

namespace ToolGateway

/-- A check that does not block has passed, does not apply, or is one of the two replay
inputs and was not sent. -/
theorem of_blocks_eq_false {name : String} {c : Check} (h : blocks name c = false) :
    c.status = .pass ∨ c.status = .notApplicable ∨
      (["policy_binding", "reproduced"].contains name = true ∧ c.status = .notChecked) := by
  simp only [blocks, Bool.or_eq_false_iff, Bool.and_eq_false_iff, decide_eq_false_iff_not,
    ne_eq, not_not, Bool.not_eq_false', Bool.and_eq_true, decide_eq_true_eq] at h
  rcases h.2 with (hpass | hna) | hopen
  · exact Or.inl hpass
  · exact Or.inr (Or.inl hna)
  · exact Or.inr (Or.inr hopen)

/-- Any other check that applies has passed. -/
theorem pass_of_blocks {name : String} {c : Check} (h : blocks name c = false)
    (hname : ["policy_binding", "reproduced"].contains name = false)
    (hna : c.status ≠ .notApplicable) : c.status = .pass := by
  rcases of_blocks_eq_false h with h | h | ⟨h, _⟩
  · exact h
  · exact absurd h hna
  · rw [hname] at h
    cases h

/-- A check that does not block has neither failed nor stayed undecided. -/
theorem not_refused_of_blocks {name : String} {c : Check} (h : blocks name c = false) :
    c.status ≠ .fail ∧ c.status ≠ .unknown := by
  rcases of_blocks_eq_false h with h | h | ⟨_, h⟩ <;> rw [h] <;> exact ⟨nofun, nofun⟩

/-- Where the checks of a report let an invocation through. -/
theorem unblocked {checks : DecisionChecks}
    (h : (checks.entries.find? fun e => blocks e.1 e.2) = none) :
    ∀ e ∈ checks.entries, blocks e.1 e.2 = false := by
  intro e he
  simpa only [Bool.not_eq_true] using List.find?_eq_none.mp h e he

/-- A report that is let through has no blocking check, permits, and is followed by an
execution that matches. -/
theorem screenReport_consume {env : Surroundings} {inv : Invocation} {tool tool' : ToolDefinition}
    {report report' : DecisionReport}
    (h : screenReport env inv tool report = .consume tool' report') :
    tool' = tool ∧ report' = report ∧ (∀ e ∈ report.checks.entries, blocks e.1 e.2 = false) ∧
      ((nonEmpty inv.request.delegation).isSome = true →
        report.checks.delegation.status = .pass) ∧
      report.decision = .permit ∧
      (compareExecution inv.request.execution env.observedExecution).accepted = true := by
  unfold screenReport at h
  cases hfind : report.checks.entries.find? fun e => blocks e.1 e.2 with
  | some e => simp only [hfind, reduceCtorEq] at h
  | none =>
    simp only [hfind] at h
    by_cases hdel : (nonEmpty inv.request.delegation).isSome = true ∧
        report.checks.delegation.status ≠ .pass
    · rw [if_pos hdel] at h
      cases h
    · rw [if_neg hdel] at h
      by_cases hpermit : report.decision = .permit
      · simp only [hpermit, ne_eq, not_true_eq_false, if_false] at h
        by_cases hexec :
            (compareExecution inv.request.execution env.observedExecution).status = .fail ∨
              (compareExecution inv.request.execution env.observedExecution).status = .unknown
        · rw [if_pos hexec] at h
          cases h
        · rw [if_neg hexec] at h
          cases h
          refine ⟨rfl, rfl, unblocked hfind, ?_, hpermit, ?_⟩
          · intro hnamed
            by_contra hstatus
            exact hdel ⟨hnamed, hstatus⟩
          · exact compareExecution_accepted hexec
      · simp only [hpermit, ne_eq, not_false_eq_true, if_true, reduceCtorEq] at h

/-- A screened invocation found its tool, its audience and its parameters in order, and a
report that is let through. -/
theorem screen_consume {gw : ToolGateway} {env : Surroundings} {inv : Invocation}
    {tool : ToolDefinition} {report : DecisionReport}
    (h : gw.screen H env inv = .ok (.consume tool report)) :
    gw.tools.get inv.tool = some tool ∧ tool.action = inv.request.action ∧
      covers tool.resource inv.request.resource = true ∧ inv.request.audience = gw.audience ∧
      CoolSdk.paramsMatch H inv.request inv.params inv.paramsSalt inv.commitmentKey = true ∧
      ∃ amount, amountOf inv.params = .ok amount ∧
        verifyDecision H inv.decision (gw.decisionOptions env inv amount) = .ok report ∧
        screenReport env inv tool report = .consume tool report := by
  unfold screen at h
  simp only at h
  cases htool : gw.tools.get inv.tool with
  | none => simp only [htool, Except.ok.injEq, reduceCtorEq] at h
  | some t =>
    simp only [htool] at h
    by_cases hmatch : t.action ≠ inv.request.action ∨ covers t.resource inv.request.resource = false
    · rw [if_pos hmatch] at h
      cases h
    · rw [if_neg hmatch] at h
      by_cases haudience : inv.request.audience = gw.audience
      · simp only [haudience, ne_eq, not_true_eq_false, if_false] at h
        cases hparams :
            CoolSdk.paramsMatch H inv.request inv.params inv.paramsSalt inv.commitmentKey with
        | false => simp only [hparams, if_true, Except.ok.injEq, reduceCtorEq] at h
        | true =>
          simp only [hparams, Bool.true_eq_false, if_false] at h
          obtain ⟨amount, hamount, h⟩ := bind_eq_ok.mp h
          obtain ⟨report', hverify, h⟩ := bind_eq_ok.mp h
          have hscreen := Except.ok.inj h
          obtain ⟨rfl, rfl, _⟩ := screenReport_consume hscreen
          rw [not_or, not_not, Bool.not_eq_false] at hmatch
          exact ⟨rfl, hmatch.1, hmatch.2, haudience, rfl, amount, hamount, hverify, hscreen⟩
      · simp only [haudience, ne_eq, not_false_eq_true, if_true, Except.ok.injEq,
          reduceCtorEq] at h

/-- An invocation that reaches the nonce store is admitted. -/
theorem admitted_of_screen {gw : ToolGateway} {env : Surroundings} {inv : Invocation}
    {tool : ToolDefinition} {report : DecisionReport}
    (h : gw.screen H env inv = .ok (.consume tool report)) : Admitted H gw env inv tool := by
  obtain ⟨hregistered, haction, hresource, haudience, hparams, amount, hamount, hverify, hscreen⟩ :=
    screen_consume h
  obtain ⟨_, _, hopen, hnamed, hpermit, hexec⟩ := screenReport_consume hscreen
  have hr := reported_of_verifyDecision hverify
  simp only [DecisionChecks.entries, List.forall_mem_cons] at hopen
  obtain ⟨_, _, htrusted, hbinding, hpolicy, hreproduced, hfresh, hstate, _⟩ := hopen
  replace hpolicy := not_refused_of_blocks hpolicy
  replace hreproduced := not_refused_of_blocks hreproduced
  obtain ⟨v, hv, _, _, hcheck⟩ := hr.trusted
  replace htrusted := pass_of_blocks htrusted (by decide)
    (hcheck ▸ trusted_ne_notApplicable H hv)
  obtain ⟨digest, hdigest, hbound⟩ := hr.requestBinding
  replace hbinding := pass_of_blocks hbinding (by decide)
    (hbound ▸ requestBindingCheck_ne_notApplicable _ _ _)
  rw [hbound, requestBindingCheck_pass_iff] at hbinding
  obtain ⟨rfl, hid, hprincipal, hnonce⟩ := hbinding
  replace hfresh := pass_of_blocks hfresh (by decide)
    (hr.freshness ▸ freshnessCheck_ne_notApplicable _ _ _ _)
  replace hstate := pass_of_blocks hstate (by decide)
    (principalStateCheck_ne_notApplicable hr.principalState)
  obtain ⟨dir, hdir, husable⟩ := usable_of_principalStateCheck hr.principalState hstate
  refine
    { registered := hregistered
      action := haction
      resource := hresource
      audience := haudience
      paramsMatch := hparams
      trustedEvaluator := trusted_of_verifyTrusted H hv (hcheck ▸ htrusted)
      permit := hr.decision ▸ hpermit
      requestDigest := hdigest
      requestId := hid
      principal := hprincipal
      nonce := hnonce
      principalActive := ⟨dir, hdir, husable, husable.active.status⟩
      delegated := ?_
      policyBound := ?_
      replayed := ?_
      knownEvaluator := evaluator_of_reproducedCheck hr.reproduced hreproduced.2
      fresh := hr.freshness ▸ hfresh
      execution := (compareExecution_accepted_iff _ _).mp hexec }
  · intro named hn
    have hdelegation := hnamed (by rw [hn]; rfl)
    obtain ⟨offer, dir', hoffer, hdir', hleaf, hchain⟩ :=
      chain_of_delegationCheck hr.delegation hdelegation hn
    obtain ⟨chain, hchain', rfl⟩ := Option.map_eq_some_iff.mp hoffer
    exact ⟨chain, dir', amount, _, hchain', hdir', hamount, hleaf, hchain, hdelegation⟩
  · intro p hp
    have hbound := hr.policyBinding
    rw [show (gw.decisionOptions env inv amount).policy = some p from hp] at hbound
    exact policyDigest_of_policyBindingCheck hbound hpolicy.1
  · intro p facts hp hf
    have hbound := hr.policyBinding
    have hagain := hr.reproduced
    rw [show (gw.decisionOptions env inv amount).policy = some p from hp] at hbound hagain
    rw [show (gw.decisionOptions env inv amount).facts = some facts from hf] at hagain
    exact replay_of_reproducedCheck (pass_of_policyBindingCheck hbound hpolicy.1) hagain
      hreproduced

/-- A tool is called only after the screening let the invocation through and the store
answered that the nonce is fresh. -/
theorem screen_of_called {gw : ToolGateway} {env : Surroundings} {inv : Invocation}
    {answers : Answers} {call : ToolCall} (h : (gw.invoke H env inv answers).called = some call) :
    (∃ report, gw.screen H env inv = .ok (.consume call.tool report)) ∧
      call.params = inv.params ∧ answers.consume = .ok .consumed := by
  unfold invoke at h
  cases hs : gw.screen H env inv with
  | error err => simp only [hs, reduceCtorEq] at h
  | ok screened =>
    cases screened with
    | reject reason report => simp only [hs, reduceCtorEq] at h
    | consume tool report =>
      cases hc : answers.consume with
      | error err => simp only [hs, hc, reduceCtorEq] at h
      | ok answer =>
        cases answer with
        | consumed =>
          simp only [hs, hc, release, Option.some.injEq] at h
          subst h
          exact ⟨⟨report, rfl⟩, rfl, rfl⟩
        | replayed => simp only [hs, hc, release, reduceCtorEq] at h
        | unavailable => simp only [hs, hc, release, reduceCtorEq] at h

/-- Complete mediation. Whatever the gateway, the invocation and the answers it waits for, a
tool that is called was called after every check had been made. -/
theorem complete_mediation {gw : ToolGateway} {env : Surroundings} {inv : Invocation}
    {answers : Answers} {call : ToolCall} (h : (gw.invoke H env inv answers).called = some call) :
    Mediated H gw env inv answers.consume call := by
  obtain ⟨⟨report, hscreen⟩, hparams, hconsumed⟩ := screen_of_called h
  exact { admitted_of_screen hscreen with params := hparams, consumed := hconsumed }

/-! ## A payment on the reference host -/

open Reference

/-- The evaluator's key. -/
def evaluatorKey : KeyPair := Reference.key "evaluator-1" "ZXZhbHVhdG9y"

/-- A gateway with one tool for paying invoices. -/
def payGateway : ToolGateway :=
  { id := "gateway-1"
    audience := "crm"
    key := Reference.key "gateway-1" "Z2F0ZXdheQ=="
    trust := store [keyRecord evaluatorKey [.evaluator]]
    directory := some partiesDirectory
    roots := some ["owner"]
    tools := .ofList [("payments", { action := "pay", resource := "invoice/*" })] }

/-- The parameters of the payment. -/
def payParams : JsValue := .object [("to", .str "acct:2")]

/-- The salt they are committed under. -/
def paySalt : String := toHex (List.replicate 16 7)

/-- The workload that pays. -/
def payWorkload : ExecutionContext :=
  { workloadId := "payer", artifactDigest := "", configDigest := "", platform := "none" }

/-- A request to pay on delegated authority. -/
def payRequest (requestId nonce issuedAt expiresAt : String) : AuthorizationRequest :=
  { requestId, nonce, issuedAt, expiresAt
    principal := "agent-2"
    action := "pay"
    resource := "invoice/7"
    audience := "crm"
    policySelector := "payments"
    paramsCommitment := (commitValue host .params payParams paySalt none).toOption.getD ""
    contextCommitment := ""
    commitmentScheme := .saltedSha256
    delegation := some "d-2"
    execution := some payWorkload }

/-- A policy that allows payments. -/
def payPolicy : PolicyDocument :=
  { id := "payments"
    version := "1"
    mode := "enforce"
    default_ := "deny"
    rules := [{
      id := "pay"
      when_ := .fact "request.action" "eq" (some (.str "pay"))
      decision := "allow"
      reason := "payment" }] }

/-- The evaluator's decision on a request at a moment. -/
def payDecision (r : AuthorizationRequest) (now : JsNumber) :
    Except String (Signed AuthorizationDecision) :=
  ({ request := r, policy := payPolicy, facts := [], now } : DecideInput).decide host evaluatorKey
    [1]

/-- The invocation that presents a decision with all it rests on. -/
def payInvocation (r : AuthorizationRequest) (s : Signed AuthorizationDecision) : Invocation :=
  { tool := "payments"
    request := r
    params := payParams
    paramsSalt := paySalt
    decision := s
    delegation := some crossChain
    policy := some payPolicy
    facts := some [] }

/-- The surroundings of a gateway at a moment. -/
def payEnv (now : JsNumber) : Surroundings := { now, observedExecution := some payWorkload }

/-- A store and a tool that both answer. -/
def payAnswers : Answers :=
  { consume := .ok .consumed
    execute := .ok { response := .null }
    stamp := { now := clock 0, random := [] }
    failure := { now := clock 0, random := [] } }

/-- Whether a request decided at one moment is executed at another. -/
def pays (r : AuthorizationRequest) (decidedAt now : JsNumber) : Except String Bool := do
  let s ← payDecision r decidedAt
  .ok (payGateway.invoke host (payEnv now) (payInvocation r s) payAnswers).called.isSome

/-- A decision and a call behind an executed payment. -/
theorem called_of_pays (r : AuthorizationRequest) (decidedAt now : JsNumber)
    (h : pays r decidedAt now = .ok true) :
    ∃ s call, payDecision r decidedAt = .ok s ∧
      (payGateway.invoke host (payEnv now) (payInvocation r s) payAnswers).called = some call := by
  obtain ⟨s, hs, h⟩ := bind_eq_ok.mp h
  obtain ⟨call, hcall⟩ := Option.isSome_iff_exists.mp (Except.ok.inj h)
  exact ⟨s, call, hs, hcall⟩

/-- A request of the first minute of the year, good for five minutes. -/
def timelyRequest : AuthorizationRequest :=
  payRequest "req-1" "nonce-1" "2026-01-01T00:00:30.000Z" "2026-01-01T00:05:30.000Z"

/-- The general result at work on a delegated payment with its policy, facts and workload. -/
theorem complete_mediation_payment :
    ∃ s call, payDecision timelyRequest (clock 60000) = .ok s ∧
      Mediated host payGateway (payEnv (clock 120000)) (payInvocation timelyRequest s)
        payAnswers.consume call := by
  obtain ⟨s, call, hs, hcall⟩ :=
    called_of_pays timelyRequest (clock 60000) (clock 120000) (by decide +kernel)
  exact ⟨s, call, hs, complete_mediation hcall⟩

end ToolGateway

end CoolSdk
