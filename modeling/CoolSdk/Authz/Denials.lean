import CoolSdk.Authz.Confirmation
import CoolSdk.Authz.Readable

/-!
# Denials as evidence

Every invocation is to end with a signed confirmation, a refused one too. The gateway guards
the comparison of the parameters and the call of the tool, and nothing between the two: what
the verifier of the decision throws leaves `invoke` before anything is confirmed.
-/

namespace CoolSdk

namespace ToolGateway

section

variable (H : Host)

/-- An invocation comes to the verifier of its decision. -/
structure Presented (gw : ToolGateway) (inv : Invocation) (tool : ToolDefinition) : Prop where
  registered : gw.tools.get inv.tool = some tool
  action : tool.action = inv.request.action
  resource : covers tool.resource inv.request.resource = true
  audience : inv.request.audience = gw.audience
  paramsMatch : CoolSdk.paramsMatch H inv.request inv.params inv.paramsSalt inv.commitmentKey = true

/-- A decision carries the key the store holds for its signer. -/
def CarriesHeldKey (gw : ToolGateway) (inv : Invocation) : Prop :=
  ∀ record, gw.trust.get inv.decision.signature.keyId = some record →
    SameKeys H record.entry inv.decision.signer

/-- What an invocation comes to read can be read: the request it confirms, the decision with
all it is presented with, and the message of what the tool throws, if it is called. -/
structure InvocationReadable (gw : ToolGateway) (env : Surroundings) (inv : Invocation)
    (answers : Answers) : Prop where
  request : ∃ digest, requestDigest H inv.request = .ok digest
  decision : ∀ tool, gw.Presented H inv tool → ∃ amount, amountOf inv.params = .ok amount ∧
    DecisionReadable H inv.decision (gw.decisionOptions env inv amount)
  thrown : ∀ tool err, Admitted H gw env inv tool → gw.CarriesHeldKey H inv →
    answers.consume = .ok .consumed → answers.execute = .error err →
      ∃ text, messageSlice H err = .ok text

/-- The key of a gateway signs every confirmation. -/
def KeySigns (gw : ToolGateway) : Prop :=
  ∀ body : ExternalConfirmation,
    ∃ s, signObject H "cool.external-confirmation.v1" body gw.key = .ok s

/-- A run resolves with a confirmation its gateway has signed. -/
def Confirmed (gw : ToolGateway) (run : InvokeRun) : Prop :=
  ∃ result, run.result = .ok result ∧ ∃ body : ExternalConfirmation,
    signObject H "cool.external-confirmation.v1" body gw.key = .ok result.confirmation

end

variable {H : Host}

/-! ## From the screening to the store -/

/-- An invocation that does not come to the verifier is rejected before it. -/
theorem screen_of_not_presented {gw : ToolGateway} {inv : Invocation}
    (h : ∀ tool, ¬gw.Presented H inv tool) (env : Surroundings) :
    ∃ reason, gw.screen H env inv = .ok (.reject reason none) := by
  unfold screen
  simp only
  cases htool : gw.tools.get inv.tool with
  | none => exact ⟨_, rfl⟩
  | some tool =>
    simp only
    split_ifs with hmatch haudience hparams
    · exact ⟨_, rfl⟩
    · exact ⟨_, rfl⟩
    · exact ⟨_, rfl⟩
    · rw [not_or, not_not, Bool.not_eq_false] at hmatch
      exact absurd ⟨htool, hmatch.1, hmatch.2, not_not.mp haudience, by simpa using hparams⟩
        (h tool)

/-- An invocation that does is screened by the report on its decision. -/
theorem screen_of_presented {gw : ToolGateway} {env : Surroundings} {inv : Invocation}
    {tool : ToolDefinition} (h : gw.Presented H inv tool) :
    gw.screen H env inv = (amountOf inv.params >>= fun amount =>
      verifyDecision H inv.decision (gw.decisionOptions env inv amount) >>= fun report =>
        .ok (screenReport env inv tool report)) := by
  have hmatch : ¬(tool.action ≠ inv.request.action ∨
      covers tool.resource inv.request.resource = false) := by
    rw [h.action, h.resource]
    simp
  unfold screen
  simp only [h.registered]
  rw [if_neg hmatch, if_neg (not_not.mpr h.audience), h.paramsMatch, if_neg (by decide)]

/-- The synchronous part of an invocation ends without a throw exactly when what is read of the
decision can be read, where it comes to be. -/
theorem screen_ok_iff (hhash : ∀ data, (H.sha256 data).length = 32) {gw : ToolGateway}
    {env : Surroundings} {inv : Invocation} :
    (∃ screened, gw.screen H env inv = .ok screened) ↔
      ∀ tool, gw.Presented H inv tool → ∃ amount, amountOf inv.params = .ok amount ∧
        DecisionReadable H inv.decision (gw.decisionOptions env inv amount) := by
  constructor
  · rintro ⟨screened, h⟩ tool htool
    rw [screen_of_presented htool] at h
    obtain ⟨amount, hamount, h⟩ := bind_eq_ok.mp h
    obtain ⟨report, hreport, _⟩ := bind_eq_ok.mp h
    exact ⟨amount, hamount, (verifyDecision_ok_iff_readable hhash).mp ⟨report, hreport⟩⟩
  · intro h
    by_cases hpresented : ∃ tool, gw.Presented H inv tool
    · obtain ⟨tool, htool⟩ := hpresented
      obtain ⟨amount, hamount, hreadable⟩ := h tool htool
      obtain ⟨report, hreport⟩ := (verifyDecision_ok_iff_readable hhash).mpr hreadable
      rw [screen_of_presented htool, hamount, ok_bind, hreport]
      exact ⟨_, rfl⟩
    · obtain ⟨reason, hreason⟩ :=
        screen_of_not_presented (fun tool htool => hpresented ⟨tool, htool⟩) env
      exact ⟨_, hreason⟩

/-- A check that has passed does not stand in the way, nor does one that does not apply, nor a
replay input that was not sent. -/
theorem blocks_eq_false {name : String} {c : Check}
    (h : c.status = .pass ∨ c.status = .notApplicable ∨
      (["policy_binding", "reproduced"].contains name = true ∧ c.status = .notChecked)) :
    blocks name c = false := by
  rcases h with h | h | ⟨hname, h⟩
  · simp only [blocks, h]
    rfl
  · simp only [blocks, h]
    rfl
  · simp only [blocks, h, hname]
    rfl

/-- A report without a blocking check lets a permitted invocation through. -/
theorem screenReport_of_unblocked {env : Surroundings} {inv : Invocation}
    {report : DecisionReport} (hopen : ∀ e ∈ report.checks.entries, blocks e.1 e.2 = false)
    (hnamed : (nonEmpty inv.request.delegation).isSome = true →
      report.checks.delegation.status = .pass)
    (hpermit : report.decision = .permit)
    (hexec : (compareExecution inv.request.execution env.observedExecution).accepted = true)
    (tool : ToolDefinition) : screenReport env inv tool report = .consume tool report := by
  have hfind : (report.checks.entries.find? fun e => blocks e.1 e.2) = none :=
    List.find?_eq_none.mpr fun e he => by rw [hopen e he]; exact Bool.false_ne_true
  have hstatus : ¬((compareExecution inv.request.execution env.observedExecution).status = .fail ∨
      (compareExecution inv.request.execution env.observedExecution).status = .unknown) := by
    rintro (h | h) <;> simp only [Check.accepted, h] at hexec <;> cases hexec
  unfold screenReport
  rw [hfind]
  simp only
  rw [if_neg fun h => h.2 (hnamed h.1), if_neg (not_not.mpr hpermit), if_neg hstatus]

/-- The policy check of an admitted invocation passes or was not asked for. -/
private theorem policyBinding_of_bound {policy : Option PolicyDocument}
    {d : AuthorizationDecision} {c : Check} (h : policyBindingCheck H policy d = .ok c)
    (hbound : ∀ p, policy = some p → policyDigest H p = .ok d.policy.digest) :
    c.status = .pass ∨ c.status = .notChecked := by
  cases policy with
  | none => exact .inr (Except.ok.inj h ▸ rfl)
  | some p => exact .inl ((policyBindingCheck_pass_iff h).mpr (hbound p rfl))

/-- So does the replay. -/
private theorem reproduced_of_replayed {r : AuthorizationRequest} {d : AuthorizationDecision}
    {policy : Option PolicyDocument} {facts : Option Facts} {binding c : Check}
    (hbinding : policyBindingCheck H policy d = .ok binding)
    (h : reproducedCheck H r d policy facts binding = .ok c) (hevaluator : d.evaluator = evaluator)
    (hbound : ∀ p, policy = some p → policyDigest H p = .ok d.policy.digest)
    (hreplayed : ∀ p facts', policy = some p → facts = some facts' →
      digestOf H "cool.authz.facts.v1" (.object (decisionFacts r facts')) = .ok d.inputDigest ∧
        replay H r d p (decisionFacts r facts') = .ok d.decision) :
    c.status = .pass ∨ c.status = .notChecked := by
  unfold reproducedCheck at h
  rw [if_neg (not_not.mpr hevaluator)] at h
  cases policy with
  | none => exact .inr (Except.ok.inj h ▸ rfl)
  | some p =>
    cases facts with
    | none => exact .inr (Except.ok.inj h ▸ rfl)
    | some facts =>
      have hpass := (policyBindingCheck_pass_iff hbinding).mpr (hbound p rfl)
      obtain ⟨hdigest, hagain⟩ := hreplayed p facts rfl rfl
      simp only [hpass, hdigest, hagain, ok_bind, ne_eq, not_true_eq_false, if_false, if_true,
        Except.ok.injEq] at h
      exact .inl (h ▸ rfl)

/-- The report on the decision of an admitted invocation that carries the held key lets it
through. -/
theorem screenReport_of_admitted {gw : ToolGateway} {env : Surroundings} {inv : Invocation}
    {tool : ToolDefinition} (h : Admitted H gw env inv tool) (hkey : gw.CarriesHeldKey H inv)
    {amount : Option JsNumber} (hamount : amountOf inv.params = .ok amount)
    {report : DecisionReport}
    (hreport : verifyDecision H inv.decision (gw.decisionOptions env inv amount) = .ok report) :
    screenReport env inv tool report = .consume tool report := by
  have hr := reported_of_verifyDecision hreport
  obtain ⟨v, hv, hintegrity, hsignature, htrusted⟩ := hr.trusted
  obtain ⟨record, hheld, hsigned, hevaluate⟩ := h.trustedEvaluator
  obtain ⟨hi, hs, ht⟩ := pass_of_authentic hv hheld ⟨hsigned, hkey record hheld⟩ hevaluate
  obtain ⟨digest, hdigest, hbinding⟩ := hr.requestBinding
  have hrequest : report.checks.requestBinding.status = .pass := by
    rw [hbinding, requestBindingCheck_pass_iff]
    exact ⟨Except.ok.inj (hdigest.symm.trans h.requestDigest), h.requestId, h.principal, h.nonce⟩
  have hpolicy := policyBinding_of_bound hr.policyBinding h.policyBound
  have hreproduced := reproduced_of_replayed hr.policyBinding hr.reproduced h.knownEvaluator
    h.policyBound h.replayed
  have hfresh : report.checks.freshness.status = .pass := hr.freshness ▸ h.fresh
  have hstate : report.checks.principalState.status = .pass := by
    obtain ⟨dir, hdir, ⟨c, hc, hpass⟩, _⟩ := h.principalActive
    have hcheck := hr.principalState
    rw [show (gw.decisionOptions env inv amount).directory = some dir from hdir] at hcheck
    exact Except.ok.inj (hc.symm.trans hcheck) ▸ hpass
  have hdelegation : (nonEmpty inv.request.delegation).isSome = true →
      report.checks.delegation.status = .pass := by
    intro hsome
    obtain ⟨named, hnamed⟩ := Option.isSome_iff_exists.mp hsome
    obtain ⟨chain, dir, amount', c, hchain, hdir, hamount', hleaf, hverify, hpass⟩ :=
      h.delegated named hnamed
    obtain rfl : amount = amount' := Except.ok.inj (hamount.symm.trans hamount')
    have hcheck := hr.delegation
    simp only [delegationCheck, decisionOptions, hnamed, hchain, hdir, Option.map_some, hleaf,
      ne_eq, not_true_eq_false, if_false] at hcheck
    exact Except.ok.inj (hverify.symm.trans hcheck) ▸ hpass
  have happlies : report.checks.delegation.status = .pass ∨
      report.checks.delegation.status = .notApplicable := by
    cases hnamed : nonEmpty inv.request.delegation with
    | some named => exact .inl (hdelegation (by rw [hnamed]; rfl))
    | none =>
      have hcheck := hr.delegation
      simp only [delegationCheck, decisionOptions, hnamed, Except.ok.injEq] at hcheck
      exact .inr (hcheck ▸ rfl)
  refine screenReport_of_unblocked ?_ hdelegation (hr.decision.trans h.permit)
    ((compareExecution_accepted_iff _ _).mpr h.execution) tool
  simp only [DecisionChecks.entries, List.forall_mem_cons]
  exact ⟨blocks_eq_false (.inl (hintegrity ▸ hi)), blocks_eq_false (.inl (hsignature ▸ hs)),
    blocks_eq_false (.inl (htrusted ▸ ht)), blocks_eq_false (.inl hrequest),
    blocks_eq_false (hpolicy.imp_right fun h => .inr ⟨rfl, h⟩),
    blocks_eq_false (hreproduced.imp_right fun h => .inr ⟨rfl, h⟩),
    blocks_eq_false (.inl hfresh), blocks_eq_false (.inl hstate),
    blocks_eq_false (happlies.imp_right .inl), fun e he => absurd he List.not_mem_nil⟩

/-- An invocation that is screened without a throw goes to the nonce store exactly when it is
admitted and its decision carries the held key. -/
theorem consume_iff_admitted {gw : ToolGateway} {env : Surroundings} {inv : Invocation}
    {screened : Screened} (hscreened : gw.screen H env inv = .ok screened)
    (tool : ToolDefinition) :
    (∃ report, screened = .consume tool report) ↔
      Admitted H gw env inv tool ∧ gw.CarriesHeldKey H inv := by
  constructor
  · rintro ⟨report, rfl⟩
    refine ⟨admitted_of_screen hscreened, ?_⟩
    intro record hheld
    obtain ⟨_, _, _, _, _, amount, _, hreport, hscreen⟩ := screen_consume hscreened
    obtain ⟨_, _, hopen, _⟩ := screenReport_consume hscreen
    obtain ⟨v, hv, _, _, hcheck⟩ := (reported_of_verifyDecision hreport).trusted
    have htrusted : v.trusted.status = .pass := by
      rw [← hcheck]
      refine pass_of_blocks (hopen ("evaluator_trusted", report.checks.evaluatorTrusted) ?_)
        rfl (hcheck ▸ trusted_ne_notApplicable H hv)
      simp only [DecisionChecks.entries, List.mem_cons, true_or, or_true]
    exact (authentic_of_verifyTrusted hv htrusted hheld).carried
  · rintro ⟨hadmitted, hkey⟩
    rw [screen_of_presented ⟨hadmitted.registered, hadmitted.action, hadmitted.resource,
      hadmitted.audience, hadmitted.paramsMatch⟩] at hscreened
    obtain ⟨amount, hamount, h⟩ := bind_eq_ok.mp hscreened
    obtain ⟨report, hreport, h⟩ := bind_eq_ok.mp h
    obtain rfl := Except.ok.inj h
    exact ⟨report, screenReport_of_admitted hadmitted hkey hamount hreport⟩

/-! ## From the store to the confirmation -/

/-- A gateway confirms what it is asked to where the request has a digest, its clock reads a time
and its key signs. -/
theorem signs_of_keySigns {gw : ToolGateway} (hkey : gw.KeySigns H) {inv : Invocation}
    (hrequest : ∃ digest, requestDigest H inv.request = .ok digest) {stamp : Stamp}
    (hclock : ∃ text, toISOString stamp.now = .ok text) : gw.Signs H inv stamp := by
  intro outcome reason responseDigest externalRef
  obtain ⟨digest, hdigest⟩ := hrequest
  obtain ⟨text, htext⟩ := hclock
  obtain ⟨s, hs⟩ := hkey _
  exact ⟨s, bind_eq_ok.mpr ⟨digest, hdigest, bind_eq_ok.mpr ⟨text, htext, hs⟩⟩⟩

/-- A confirmation is of a request with a digest, and signed by the gateway's key. -/
theorem signed_of_confirm {gw : ToolGateway} {inv : Invocation} {outcome : ConfirmationOutcome}
    {reason : String} {responseDigest : Option Multihash} {externalRef : Option String}
    {stamp : Stamp} {s : Signed ExternalConfirmation}
    (h : gw.confirm H inv outcome reason responseDigest externalRef stamp = .ok s) :
    (∃ digest, requestDigest H inv.request = .ok digest) ∧ ∃ body : ExternalConfirmation,
      signObject H "cool.external-confirmation.v1" body gw.key = .ok s := by
  unfold confirm at h
  obtain ⟨digest, hdigest, h⟩ := bind_eq_ok.mp h
  obtain ⟨text, _, h⟩ := bind_eq_ok.mp h
  exact ⟨⟨digest, hdigest⟩, _, h⟩

/-- So is what a rejection answers with. -/
theorem signed_of_reject {gw : ToolGateway} {inv : Invocation} {reason : String}
    {report : Option DecisionReport} {stamp : Stamp} {result : InvocationResult}
    (h : gw.reject H inv reason report stamp = .ok result) :
    (∃ digest, requestDigest H inv.request = .ok digest) ∧ ∃ body : ExternalConfirmation,
      signObject H "cool.external-confirmation.v1" body gw.key = .ok result.confirmation := by
  obtain ⟨s, hs, h⟩ := bind_eq_ok.mp h
  obtain rfl := Except.ok.inj h
  exact signed_of_confirm hs

/-- So is what an invocation answers with whose tool was called. -/
theorem signed_of_settle {gw : ToolGateway} {inv : Invocation} {report : DecisionReport}
    {execute : Except Thrown ToolOutput} {stamp failure : Stamp} {result : InvocationResult}
    (h : gw.settle H inv report execute stamp failure = .ok result) :
    (∃ digest, requestDigest H inv.request = .ok digest) ∧ ∃ body : ExternalConfirmation,
      signObject H "cool.external-confirmation.v1" body gw.key = .ok result.confirmation := by
  unfold settle at h
  split at h
  · rename_i completed hcompleted
    obtain rfl := Except.ok.inj h
    obtain ⟨out, _, hcomplete⟩ := bind_eq_ok.mp hcompleted
    cases hc : gw.complete H inv report out stamp with
    | error err =>
      rw [hc] at hcomplete
      cases hcomplete
    | ok result' =>
      rw [hc] at hcomplete
      obtain rfl := Except.ok.inj hcomplete
      obtain ⟨digest, _, hc⟩ := bind_eq_ok.mp hc
      obtain ⟨s, hs, hc⟩ := bind_eq_ok.mp hc
      obtain rfl := Except.ok.inj hc
      exact signed_of_confirm hs
  · obtain ⟨text, _, h⟩ := bind_eq_ok.mp h
    obtain ⟨s, hs, h⟩ := bind_eq_ok.mp h
    obtain rfl := Except.ok.inj h
    exact signed_of_confirm hs

/-- So is whatever an invocation answers with. -/
theorem signed_of_invoke {gw : ToolGateway} {env : Surroundings} {inv : Invocation}
    {answers : Answers} {result : InvocationResult}
    (h : (gw.invoke H env inv answers).result = .ok result) :
    (∃ digest, requestDigest H inv.request = .ok digest) ∧ ∃ body : ExternalConfirmation,
      signObject H "cool.external-confirmation.v1" body gw.key = .ok result.confirmation := by
  unfold invoke at h
  split at h
  · cases h
  · exact signed_of_reject h
  · split at h
    · cases h
    · split at h
      · exact signed_of_reject h
      · exact signed_of_settle h

/-- The end of an invocation whose tool was called is reached without a throw exactly when the
message of what the tool throws, if it does, can be shown. -/
theorem settle_ok_iff {gw : ToolGateway} {inv : Invocation} {stamp failure : Stamp}
    (hsign : gw.Signs H inv stamp) (hfailure : gw.Signs H inv failure) (report : DecisionReport)
    (execute : Except Thrown ToolOutput) :
    (∃ result, gw.settle H inv report execute stamp failure = .ok result) ↔
      ∀ err, execute = .error err → ∃ text, messageSlice H err = .ok text := by
  cases execute with
  | ok out =>
    refine iff_of_true ?_ nofun
    cases hdigest : responseDigest H out.response with
    | ok digest =>
      obtain ⟨result, hresult, _⟩ := settle_of_digest hsign report hdigest failure
      exact ⟨result, hresult⟩
    | error err =>
      obtain ⟨result, hresult, _⟩ := settle_of_not_digest hfailure report hdigest stamp
      exact ⟨result, hresult⟩
  | error err =>
    cases htext : messageSlice H err with
    | ok text =>
      obtain ⟨result, hresult, _⟩ := settle_of_message hfailure report htext stamp
      refine iff_of_true ⟨result, hresult⟩ ?_
      rintro _ ⟨⟩
      exact ⟨text, htext⟩
    | error fault =>
      refine iff_of_false ?_ ?_
      · rintro ⟨result, hresult⟩
        rw [settle_of_not_message gw inv report htext] at hresult
        cases hresult
      · intro h
        obtain ⟨text, hshown⟩ := h err rfl
        rw [htext] at hshown
        cases hshown

/-- Where the key of the gateway signs, its clock reads a time and the store answers, an
invocation resolves with a signed confirmation exactly when what it comes to read can be read. -/
theorem confirmed_iff (hhash : ∀ data, (H.sha256 data).length = 32) {gw : ToolGateway}
    (hkey : gw.KeySigns H) {env : Surroundings} {inv : Invocation} {answers : Answers}
    (hclock : ∀ stamp ∈ [answers.stamp, answers.failure],
      ∃ text, toISOString stamp.now = .ok text)
    (hstore : ∃ answer, answers.consume = .ok answer) :
    gw.Confirmed H (gw.invoke H env inv answers) ↔ gw.InvocationReadable H env inv answers := by
  have hsigns (hrequest : ∃ digest, requestDigest H inv.request = .ok digest) :
      gw.Signs H inv answers.stamp ∧ gw.Signs H inv answers.failure :=
    ⟨signs_of_keySigns hkey hrequest (hclock _ (by simp)),
      signs_of_keySigns hkey hrequest (hclock _ (by simp))⟩
  constructor
  · rintro ⟨result, hresult, _⟩
    have hrequest := (signed_of_invoke hresult).1
    have hscreened : ∃ screened, gw.screen H env inv = .ok screened := by
      cases hs : gw.screen H env inv with
      | ok screened => exact ⟨screened, rfl⟩
      | error err =>
        rw [invoke, hs] at hresult
        cases hresult
    refine ⟨hrequest, (screen_ok_iff hhash).mp hscreened, ?_⟩
    intro tool err hadmitted hcarries hconsume hexecute
    obtain ⟨screened, hs⟩ := hscreened
    obtain ⟨report, rfl⟩ := (consume_iff_admitted hs tool).mpr ⟨hadmitted, hcarries⟩
    simp only [invoke, hs, hconsume, release] at hresult
    obtain ⟨hsign, hfailure⟩ := hsigns hrequest
    exact (settle_ok_iff hsign hfailure report answers.execute).mp ⟨result, hresult⟩ err hexecute
  · rintro ⟨hrequest, hdecision, hthrown⟩
    obtain ⟨hsign, hfailure⟩ := hsigns hrequest
    have hrejected (reason : String) (report : Option DecisionReport) :
        ∃ result, gw.reject H inv reason report answers.stamp = .ok result := by
      obtain ⟨result, hresult, _⟩ := reject_of_signs hsign reason report
      exact ⟨result, hresult⟩
    obtain ⟨screened, hs⟩ := (screen_ok_iff hhash).mpr hdecision
    obtain ⟨answer, hanswer⟩ := hstore
    have hresult : ∃ result, (gw.invoke H env inv answers).result = .ok result := by
      rw [invoke, hs]
      cases screened with
      | reject reason report => exact hrejected reason report
      | consume tool report =>
        obtain ⟨hadmitted, hcarries⟩ := (consume_iff_admitted hs tool).mp ⟨report, rfl⟩
        simp only [hanswer]
        cases answer with
        | consumed =>
          exact (settle_ok_iff hsign hfailure report answers.execute).mpr fun err hexecute =>
            hthrown tool err hadmitted hcarries hanswer hexecute
        | replayed => exact hrejected "replayed" (some report)
        | unavailable => exact hrejected "replay_store_unavailable" (some report)
    obtain ⟨result, hresult⟩ := hresult
    exact ⟨result, hresult, (signed_of_invoke hresult).2⟩

/-- Whatever a decision, a chain and an invocation hold: the verifiers answer, and the invocation
resolves with a signed confirmation, exactly when what they come to read can be read. -/
theorem answers_iff_readable (hhash : ∀ data, (H.sha256 data).length = 32) :
    (∀ s o, (∃ report, verifyDecision H s o = .ok report) ↔ DecisionReadable H s o) ∧
      (∀ chain request o, (∃ c, verifyDelegationChain H chain request o = .ok c) ↔
        ChainReadable H o chain) ∧
      ∀ (gw : ToolGateway) (env : Surroundings) (inv : Invocation) (answers : Answers),
        gw.KeySigns H →
          (∀ stamp ∈ [answers.stamp, answers.failure], ∃ text, toISOString stamp.now = .ok text) →
            (∃ answer, answers.consume = .ok answer) →
              (gw.Confirmed H (gw.invoke H env inv answers) ↔
                gw.InvocationReadable H env inv answers) := by
  refine ⟨?_, ?_, ?_⟩
  · intro s o
    exact verifyDecision_ok_iff_readable hhash
  · intro chain request o
    exact verifyDelegationChain_ok_iff hhash
  · intro gw env inv answers hkey hclock hstore
    exact confirmed_iff hhash hkey hclock hstore

/-! ## A late and a garbled payment -/

open Reference

/-- What is confirmed of a payment that is presented after its decision has expired. -/
def latePayment : Except String ConfirmationOutcome := do
  let s ← payDecision timelyRequest (clock 60000)
  let result ← (payGateway.invoke boundlessHost (payEnv (clock 600000))
    (payInvocation timelyRequest s) payAnswers).result
  .ok result.confirmation.body.outcome

/-- An object whose carried Ed25519 key is not Base64. -/
def garble {α : Type} (s : Signed α) : Signed α :=
  { s with signer := { s.signer with ed25519Pub := "base64:%" } }

/-- Whether a payment with a garbled decision resolves, and whether the verifiers answer. -/
def garbledPayment : Except String (Bool × Bool × Bool) := do
  let s ← payDecision timelyRequest (clock 60000)
  let inv := payInvocation timelyRequest (garble s)
  .ok ((payGateway.invoke boundlessHost (payEnv (clock 120000)) inv payAnswers).result.isOk,
    (verifyDecision boundlessHost (garble s)
      (payGateway.decisionOptions (payEnv (clock 120000)) inv none)).isOk,
    (verifyDelegationChain boundlessHost (crossChain.map garble) (timelyRequest.chainRequest none)
      (payGateway.chainOptions (payEnv (clock 120000)) partiesDirectory (clock 60000))).isOk)

/-- The key of the gateway signs, and the clock of the answers reads a time. -/
private theorem payGateway_signs : payGateway.KeySigns boundlessHost ∧
    ∀ stamp ∈ [payAnswers.stamp, payAnswers.failure],
      ∃ text, toISOString stamp.now = .ok text := by
  refine ⟨fun body => signObject_boundless body _, ?_⟩
  have hclock : (toISOString (clock 0)).isOk = true := by decide +kernel
  intro stamp hstamp
  simp only [List.mem_cons, List.not_mem_nil, or_false] at hstamp
  rcases hstamp with rfl | rfl <;> exact exists_of_isOk hclock

/-- The general result at work: a payment that comes too late is refused, and the refusal is
confirmed. -/
theorem answers_iff_readable_late : ∃ s, payDecision timelyRequest (clock 60000) = .ok s ∧
    (∃ result, (payGateway.invoke boundlessHost (payEnv (clock 600000))
      (payInvocation timelyRequest s) payAnswers).result = .ok result ∧
        result.confirmation.body.outcome = .rejected) ∧
      payGateway.InvocationReadable boundlessHost (payEnv (clock 600000))
        (payInvocation timelyRequest s) payAnswers := by
  have hrun : latePayment = .ok .rejected := by decide +kernel
  obtain ⟨s, hs, hrun⟩ := bind_eq_ok.mp hrun
  obtain ⟨result, hresult, hrun⟩ := bind_eq_ok.mp hrun
  obtain ⟨hkey, hclock⟩ := payGateway_signs
  have hlength (data : Bytes) : (boundlessHost.sha256 data).length = 32 := length_digest data
  exact ⟨s, hs, ⟨result, hresult, Except.ok.inj hrun⟩,
    ((answers_iff_readable hlength).2.2 _ _ _ _ hkey hclock ⟨.consumed, rfl⟩).mp
      ⟨result, hresult, (signed_of_invoke hresult).2⟩⟩

/-- A decision, and the links of a chain, whose carried key is garbled make the verifiers throw,
and the invocation that presents the decision ends without a confirmation. -/
theorem garbled_key_throws : ∃ s, payDecision timelyRequest (clock 60000) = .ok s ∧
    payGateway.KeySigns boundlessHost ∧
    (∀ stamp ∈ [payAnswers.stamp, payAnswers.failure],
      ∃ text, toISOString stamp.now = .ok text) ∧
    payAnswers.consume = .ok .consumed ∧
    ¬payGateway.Confirmed boundlessHost (payGateway.invoke boundlessHost (payEnv (clock 120000))
      (payInvocation timelyRequest (garble s)) payAnswers) ∧
    (∀ report, verifyDecision boundlessHost (garble s)
      (payGateway.decisionOptions (payEnv (clock 120000))
        (payInvocation timelyRequest (garble s)) none) ≠ .ok report) ∧
    ∀ c, verifyDelegationChain boundlessHost (crossChain.map garble)
      (timelyRequest.chainRequest none) (payGateway.chainOptions (payEnv (clock 120000))
        partiesDirectory (clock 60000)) ≠ .ok c := by
  have hrun : garbledPayment = .ok (false, false, false) := by decide +kernel
  obtain ⟨s, hs, hrun⟩ := bind_eq_ok.mp hrun
  simp only [Except.ok.injEq, Prod.mk.injEq] at hrun
  obtain ⟨hinvoke, hdecision, hchain⟩ := hrun
  obtain ⟨hkey, hclock⟩ := payGateway_signs
  refine ⟨s, hs, hkey, hclock, rfl, ?_, ?_, ?_⟩
  · rintro ⟨result, hresult, _⟩
    rw [hresult] at hinvoke
    cases hinvoke
  · intro report hreport
    rw [hreport] at hdecision
    cases hdecision
  · intro c hc
    rw [hc] at hchain
    cases hchain

end ToolGateway

end CoolSdk
