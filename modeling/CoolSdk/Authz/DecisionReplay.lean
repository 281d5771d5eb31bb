import CoolSdk.Authz.Mediation
import CoolSdk.Platform.Evaluation

/-!
# Deciding and replaying

A decision is made in one place and replayed in another. Where the evaluation of the request
went through, the replay takes the same branch on the same inputs and agrees. Where it threw,
the decision names a digest under a label of its own, which no verifier recomputes from the
policy.
-/

namespace CoolSdk

/-- A request has expired at a moment. -/
def AuthorizationRequest.Expired (H : Host) (r : AuthorizationRequest) (now : JsNumber) : Prop :=
  (dateNumber H r.expiresAt).lt now = true

variable {H : Host}

/-- What an evaluation that went through decided, and on which policy. -/
theorem evaluated_of_evaluateRequest {input : DecideInput} {allFacts : Facts}
    {pdigest : Multihash} {decision : AuthzDecisionValue} {reasons : List String}
    (h : evaluateRequest H input allFacts = .ok (pdigest, decision, reasons)) :
    policyDigest H input.policy = .ok pdigest ∧
      ((input.request.Expired H input.now ∧ decision = .deny) ∨
        (¬input.request.Expired H input.now ∧
          ∃ r, evaluatePolicy H input.policy allFacts input.now [] = .ok r ∧
            decision = mapDecision r.decision)) := by
  obtain ⟨digest, hdigest, h⟩ := bind_eq_ok.mp h
  by_cases hexpired : (dateNumber H input.request.expiresAt).lt input.now = true
  · rw [if_pos hexpired] at h
    cases h
    exact ⟨hdigest, .inl ⟨hexpired, rfl⟩⟩
  · rw [if_neg hexpired] at h
    obtain ⟨r, hr, h⟩ := bind_eq_ok.mp h
    cases h
    exact ⟨hdigest, .inr ⟨hexpired, r, hr, rfl⟩⟩

/-- When the evaluation of a request goes through. -/
theorem evaluateRequest_ok_iff {input : DecideInput} {allFacts : Facts}
    (hpolicy : ∃ digest, policyDigest H input.policy = .ok digest)
    (htime : ∃ text, toISOString input.now = .ok text) :
    (∃ x, evaluateRequest H input allFacts = .ok x) ↔
      input.request.Expired H input.now ∨
        (validatePolicy H input.policy = [] ∧
          ∃ bytes, H.canonicalCbor (.object (sortedFacts H allFacts)) = .ok bytes) := by
  constructor
  · rintro ⟨⟨pdigest, decision, reasons⟩, hx⟩
    obtain ⟨_, ⟨hexpired, _⟩ | ⟨_, r, hr, _⟩⟩ := evaluated_of_evaluateRequest hx
    · exact .inl hexpired
    · obtain ⟨hvalid, _, hbytes, _⟩ := evaluatePolicy_ok_iff.mp ⟨r, hr⟩
      exact .inr ⟨hvalid, hbytes⟩
  · intro h
    obtain ⟨digest, hdigest⟩ := hpolicy
    rw [evaluateRequest, hdigest, ok_bind]
    by_cases hexpired : (dateNumber H input.request.expiresAt).lt input.now = true
    · rw [if_pos hexpired]
      exact ⟨_, rfl⟩
    · obtain ⟨hvalid, hbytes⟩ := h.resolve_left hexpired
      obtain ⟨r, hr⟩ := evaluatePolicy_ok_iff.mpr ⟨hvalid, ⟨digest, hdigest⟩, hbytes, htime⟩
      rw [if_neg hexpired, hr]
      exact ⟨_, rfl⟩

/-- What a decision binds of its evaluation. -/
theorem evaluated_of_decisionBody {input : DecideInput} {random : Bytes}
    {d : AuthorizationDecision} (h : decisionBody H input random = .ok d) :
    (∃ reasons, evaluateGuarded H input (decisionFacts input.request input.facts) =
        .ok (d.policy.digest, d.decision, reasons)) ∧
      digestOf H "cool.authz.facts.v1" (.object (decisionFacts input.request input.facts)) =
        .ok d.inputDigest := by
  unfold decisionBody at h
  obtain ⟨⟨pdigest, decision, reasons⟩, hevaluated, h⟩ := bind_eq_ok.mp h
  obtain ⟨digest, _, h⟩ := bind_eq_ok.mp h
  obtain ⟨inputDigest, hinput, h⟩ := bind_eq_ok.mp h
  obtain ⟨decidedAt, _, h⟩ := bind_eq_ok.mp h
  cases h
  exact ⟨⟨reasons, hevaluated⟩, hinput⟩

/-- The policy an evaluation that threw is bound to is not the policy's own digest, unless the
digest collides on the two encodings. -/
theorem policyDigest_ne_invalid (laws : MapLaws H.canonicalCbor) {p : PolicyDocument}
    {digest : Multihash}
    (hcollision : ∀ a b, H.canonicalCbor (toJs p) = .ok a →
      H.canonicalCbor (toJs p).clean = .ok b →
      H.sha256 a = H.sha256 (utf8 "cool.policy.invalid\x00" ++ b) →
        a = utf8 "cool.policy.invalid\x00" ++ b)
    (hinvalid : digestOf H "cool.policy.invalid" (toJs p) = .ok digest) :
    policyDigest H p ≠ .ok digest := by
  intro hdigest
  obtain ⟨b, hb, hinvalid⟩ := bind_eq_ok.mp hinvalid
  obtain ⟨a, ha, hdigest⟩ := bind_eq_ok.mp hdigest
  have hsame : mhSha256 H a = mhSha256 H (utf8 "cool.policy.invalid\x00" ++ b) :=
    (Except.ok.inj hdigest).trans (Except.ok.inj hinvalid).symm
  have hbytes := hcollision a b ha hb ((mhSha256_eq_iff H _ _).mp hsame)
  obtain ⟨c, rest, hc, hmap⟩ := laws.head _ a ha
  -- The label starts with the letter c, whose byte is the head of a text.
  have hletter : utf8 "cool.policy.invalid\x00" = 99 :: (utf8 "cool.policy.invalid\x00").tail := by
    decide
  rw [hc, hletter, List.cons_append] at hbytes
  rw [(List.cons.inj hbytes).1] at hmap
  exact absurd hmap (by decide)

/-- A replay of an evaluation that went through, at its own time, gives the decision again. -/
theorem replay_of_evaluated {input : DecideInput} {d : AuthorizationDecision} {allFacts : Facts}
    {pdigest : Multihash} {reasons : List String}
    (h : evaluateRequest H input allFacts = .ok (pdigest, d.decision, reasons))
    (htime : dateNumber H d.decidedAt = input.now) :
    replay H input.request d input.policy allFacts = .ok d.decision := by
  obtain ⟨_, ⟨hexpired, hdeny⟩ | ⟨hopen, r, hr, hmapped⟩⟩ := evaluated_of_evaluateRequest h
  all_goals unfold AuthorizationRequest.Expired at *
  · rw [replay, htime, if_pos hexpired, hdeny]
  · rw [replay, htime, if_neg hopen, hr, ok_bind, hmapped]

/-- What the historical verification of a decision is given. -/
def replayOptions (input : DecideInput) (trust : TrustStore) (at_ : JsNumber) :
    VerifyDecisionOptions :=
  { request := input.request
    trust
    mode := .historical
    now := at_
    policy := some input.policy
    facts := some input.facts }

/-- The three checks of a report that compare a decision with what it was made on. -/
structure Replays (report : DecisionReport) : Prop where
  requestBinding : report.checks.requestBinding.status = .pass
  policyBinding : report.checks.policyBinding.status = .pass
  reproduced : report.checks.reproduced.status = .pass

/-- A signed object that carries the key the store holds for it is verified without a throw. -/
theorem verifyTrusted_ok {α : Type} [ToJs α] {context : String} {body : α} {key : KeyPair}
    {s : Signed α} (hs : signObject H context body key = .ok s)
    (hdecodes : Decodes H key.directoryEntry) {trust : TrustStore} {record : KeyRecord}
    (hheld : trust.get s.signature.keyId = some record) (hentry : record.entry = key.directoryEntry)
    (purpose : KeyPurpose) (at_ : JsNumber) :
    ∃ v, verifyTrusted H context s trust purpose at_ = .ok v := by
  obtain ⟨hbody, hdigest, ⟨message, hmessage, _⟩, hsigner⟩ := signed_of_signObject H hs
  have hsubstituted : keySubstituted H ((trust.get s.signature.keyId).map KeyRecord.entry)
      s.signer = .ok false := by
    rw [hheld, Option.map_some, hentry, hsigner, keySubstituted, sameKey_self H hdecodes]
    rfl
  have hintegrity : ∃ v, verifyIntegrity H context s
      ((trust.get s.signature.keyId).map KeyRecord.entry) = .ok v := by
    rw [verifyIntegrity, hsubstituted, hmessage]
    simp only [ok_bind]
    split_ifs <;> exact ⟨_, rfl⟩
  obtain ⟨v, hv⟩ := hintegrity
  rw [verifyTrusted, hv]
  exact ⟨_, rfl⟩

/-- A decision and its replay agree exactly where the evaluation of the request went through:
the request had expired, or its policy was valid and its facts could be encoded. -/
theorem decide_replays_iff (laws : MapLaws H.canonicalCbor) {input : DecideInput} {n : Int}
    (hnow : input.now = .ofInt n)
    (hparse : ∀ text, toISOString (.ofInt n) = .ok text → H.dateParse text = some n)
    (hpolicy : ∃ digest, policyDigest H input.policy = .ok digest)
    (hcollision : ∀ a b, H.canonicalCbor (toJs input.policy) = .ok a →
      H.canonicalCbor (toJs input.policy).clean = .ok b →
      H.sha256 a = H.sha256 (utf8 "cool.policy.invalid\x00" ++ b) →
        a = utf8 "cool.policy.invalid\x00" ++ b)
    {key : KeyPair} (hdecodes : Decodes H key.directoryEntry) {random : Bytes}
    {s : Signed AuthorizationDecision} (hs : input.decide H key random = .ok s)
    {trust : TrustStore} {record : KeyRecord}
    (hheld : trust.get s.signature.keyId = some record)
    (hentry : record.entry = key.directoryEntry) (at_ : JsNumber) :
    (∃ report, verifyDecision H s (replayOptions input trust at_) = .ok report ∧
        Replays report) ↔
      input.request.Expired H input.now ∨
        (validatePolicy H input.policy = [] ∧ ∃ bytes, H.canonicalCbor
          (.object (sortedFacts H (decisionFacts input.request input.facts))) = .ok bytes) := by
  have hbody := decisionBody_of_decide hs
  obtain ⟨hrequest, hid, hprincipal, hnonce, hevaluator, _, htime⟩ := decisionBody_binds hbody
  obtain ⟨⟨reasons, hguarded⟩, hinput⟩ := evaluated_of_decisionBody hbody
  rw [← evaluateRequest_ok_iff hpolicy ⟨_, htime⟩]
  constructor
  · rintro ⟨report, hreport, hreplays⟩
    by_contra hthrew
    have hbound := (reported_of_verifyDecision hreport).policyBinding
    have hdigest := policyDigest_of_policyBindingCheck hbound
      (by rw [hreplays.policyBinding]; exact nofun)
    refine policyDigest_ne_invalid laws hcollision ?_ hdigest
    unfold evaluateGuarded at hguarded
    split at hguarded
    · rename_i x hx
      exact absurd ⟨x, hx⟩ hthrew
    · obtain ⟨digest, hinvalid, hguarded⟩ := bind_eq_ok.mp hguarded
      have hsame := (Prod.mk.inj (Except.ok.inj hguarded)).1
      exact hsame ▸ hinvalid
  · rintro ⟨⟨pdigest, decision, reasons'⟩, hx⟩
    have hgiven : evaluateGuarded H input (decisionFacts input.request input.facts) =
        .ok (pdigest, decision, reasons') := by
      rw [evaluateGuarded, hx]
    obtain ⟨rfl, rfl, rfl⟩ : pdigest = s.body.policy.digest ∧ decision = s.body.decision ∧
        reasons' = reasons := by
      simpa using Except.ok.inj (hgiven.symm.trans hguarded)
    have hdigest := (evaluated_of_evaluateRequest hx).1
    have hmoment : dateNumber H s.body.decidedAt = input.now := by
      rw [hnow] at htime ⊢
      rw [dateNumber, hparse _ htime]
      rfl
    have hagain := replay_of_evaluated hx hmoment
    obtain ⟨v, hv⟩ := verifyTrusted_ok (bind_eq_ok.mp hs).choose_spec.2 hdecodes hheld hentry
      .evaluator at_
    obtain ⟨binding, hbinding, hbound⟩ : ∃ c, policyBindingCheck H (some input.policy) s.body =
        .ok c ∧ c.status = .pass := by
      rw [policyBindingCheck, hdigest, ok_bind, if_neg (not_not.mpr rfl)]
      exact ⟨_, rfl, rfl⟩
    obtain ⟨reproduced, hreproduced, hagreed⟩ : ∃ c, reproducedCheck H input.request s.body
        (some input.policy) (some input.facts) binding = .ok c ∧ c.status = .pass := by
      rw [reproducedCheck, if_neg (not_not.mpr hevaluator)]
      simp only [hbound, ne_eq, not_true_eq_false, if_false, hinput, ok_bind, hagain, if_true]
      exact ⟨_, rfl, rfl⟩
    have hreport : ∃ report, verifyDecision H s (replayOptions input trust at_) = .ok report := by
      refine verifyDecision_ok_iff.mpr ⟨⟨v, hv⟩, ⟨_, hrequest⟩,
        ⟨binding, reproduced, hbinding, hreproduced⟩, ⟨_, rfl⟩, ?_⟩
      unfold delegationCheck
      split <;> exact ⟨_, rfl⟩
    obtain ⟨report, hreport⟩ := hreport
    have hr := reported_of_verifyDecision hreport
    obtain ⟨digest, hdigest', hchecked⟩ := hr.requestBinding
    have hbinding' : binding = report.checks.policyBinding :=
      Except.ok.inj (hbinding.symm.trans hr.policyBinding)
    subst hbinding'
    refine ⟨report, hreport, ?_, hbound, ?_⟩
    · rw [hchecked, requestBindingCheck_pass_iff]
      exact ⟨Except.ok.inj (hdigest'.symm.trans hrequest), hid.symm, hprincipal.symm,
        hnonce.symm⟩
    · rw [← Except.ok.inj (hreproduced.symm.trans hr.reproduced)]
      exact hagreed

/-! ## Replays on the reference host -/

section

open Reference ToolGateway

/-- A payment of the first minute of 2026 decided under a policy. -/
def payInput (policy : PolicyDocument) : DecideInput :=
  { request := timelyRequest, policy, facts := [], now := clock 60000 }

/-- A decision on it, the report on its replay, and what the three checks answered. -/
def replayed (input : DecideInput) :
    Except String (Signed AuthorizationDecision × DecisionReport) := do
  let s ← input.decide host evaluatorKey [1]
  let report ← verifyDecision host s (replayOptions input payGateway.trust (clock 120000))
  .ok (s, report)

/-- The statuses of the three checks. -/
def replayStatuses (report : DecisionReport) : CheckStatus × CheckStatus × CheckStatus :=
  (report.checks.requestBinding.status, report.checks.policyBinding.status,
    report.checks.reproduced.status)

private theorem decide_of_replayed {input : DecideInput} {s : Signed AuthorizationDecision}
    {report : DecisionReport} (h : replayed input = .ok (s, report)) :
    input.decide host evaluatorKey [1] = .ok s ∧
      verifyDecision host s (replayOptions input payGateway.trust (clock 120000)) =
        .ok report := by
  obtain ⟨s', hs, h⟩ := bind_eq_ok.mp h
  obtain ⟨report', hreport, h⟩ := bind_eq_ok.mp h
  cases h
  exact ⟨hs, hreport⟩

/-- The store of the payment gateway holds the evaluator's key under the id its decisions
name. -/
private theorem evaluator_held {input : DecideInput} {s : Signed AuthorizationDecision}
    (hs : input.decide host evaluatorKey [1] = .ok s) :
    payGateway.trust.get s.signature.keyId = some (keyRecord evaluatorKey [.evaluator]) := by
  obtain ⟨body, _, hs⟩ := bind_eq_ok.mp hs
  obtain ⟨_, _, ⟨message, _, hsignature⟩, _⟩ := signed_of_signObject host hs
  rw [hsignature]
  rfl

/-- The payment's minute is written and read back. -/
private theorem parse_payment (text : String)
    (h : toISOString (.ofInt 1767225660000) = .ok text) :
    host.dateParse text = some 1767225660000 := by
  rw [toISOString_ofInt (by decide)] at h
  rw [← Except.ok.inj h]
  decide +kernel

/-- The digest of the payment policy is not that of its encoding under the other label. -/
private theorem no_collision_payment (a b : Bytes)
    (ha : host.canonicalCbor (toJs payPolicy) = .ok a)
    (hb : host.canonicalCbor (toJs payPolicy).clean = .ok b)
    (h : host.sha256 a = host.sha256 (utf8 "cool.policy.invalid\x00" ++ b)) :
    a = utf8 "cool.policy.invalid\x00" ++ b := by
  have hdigests : (do
      let a ← host.canonicalCbor (toJs payPolicy)
      let b ← host.canonicalCbor (toJs payPolicy).clean
      .ok (decide (host.sha256 a = host.sha256 (utf8 "cool.policy.invalid\x00" ++ b)))) =
        (.ok false : Except String Bool) := by
    decide +kernel
  rw [ha, ok_bind, hb, ok_bind] at hdigests
  exact absurd h (of_decide_eq_false (Except.ok.inj hdigests))

/-- The general result at work: a permitted payment is decided and replayed alike. -/
theorem decide_replays_payment : ∃ s report, (payInput payPolicy).decide host evaluatorKey [1] =
      .ok s ∧
    verifyDecision host s (replayOptions (payInput payPolicy) payGateway.trust (clock 120000)) =
      .ok report ∧ Replays report := by
  have hrun : (payInput payPolicy).decide host evaluatorKey [1] |>.isOk := by decide +kernel
  obtain ⟨s, hs⟩ := exists_of_isOk hrun
  have hdigest : (policyDigest host payPolicy).isOk = true := by decide +kernel
  have hdecodes : Decodes host evaluatorKey.directoryEntry := by
    have hfield : (fromBase64Field host evaluatorKey.directoryEntry.mlDsaPub).isOk = true := by
      decide +kernel
    exact ⟨exists_of_isOk hfield, exists_of_isOk hfield⟩
  have hvalid : validatePolicy host payPolicy = [] := by decide +kernel
  have hfacts : (host.canonicalCbor (.object (sortedFacts host (decisionFacts timelyRequest
      [])))).isOk = true := by
    decide +kernel
  have hnow : (payInput payPolicy).now = .ofInt 1767225660000 :=
    congrArg JsNumber.ofInt (by norm_num)
  have hagree := decide_replays_iff (H := host) mapLaws hnow parse_payment
    (exists_of_isOk hdigest) no_collision_payment hdecodes hs (evaluator_held hs) rfl
    (clock 120000)
  obtain ⟨report, hreport, hreplays⟩ := hagree.mpr (.inr ⟨hvalid, exists_of_isOk hfacts⟩)
  exact ⟨s, report, hs, hreport, hreplays⟩

/-- The payment policy with a default that is no decision. -/
def brokenPolicy : PolicyDocument := { payPolicy with default_ := "maybe" }

/-- A decision under an invalid policy is not bound to the policy it was made under, and is
not reproduced. -/
theorem broken_not_replayed : ∃ s report,
    (∃ digest, policyDigest host brokenPolicy = .ok digest) ∧
      (payInput brokenPolicy).decide host evaluatorKey [1] = .ok s ∧
      payGateway.trust.get s.signature.keyId = some (keyRecord evaluatorKey [.evaluator]) ∧
      verifyDecision host s
        (replayOptions (payInput brokenPolicy) payGateway.trust (clock 120000)) = .ok report ∧
      ¬Replays report := by
  have hrun : (replayed (payInput brokenPolicy)).map (fun x => replayStatuses x.2) =
      .ok (.pass, .fail, .notChecked) := by
    decide +kernel
  obtain ⟨⟨s, report⟩, hx, hstatuses⟩ := ok_of_map_eq hrun
  obtain ⟨hs, hreport⟩ := decide_of_replayed hx
  have hdigest : (policyDigest host brokenPolicy).isOk = true := by decide +kernel
  refine ⟨s, report, exists_of_isOk hdigest, hs, evaluator_held hs, hreport, ?_⟩
  intro hreplays
  have hfail : report.checks.policyBinding.status = .fail :=
    (Prod.mk.inj (Prod.mk.inj hstatuses).2).1
  rw [hreplays.policyBinding] at hfail
  cases hfail

end

end CoolSdk
