import CoolSdk.Authz.Mediation

/-!
# The lifetime of an authorization

A decision is valid until its request expires, and the gateway refuses a decision whose
expiry lies before its clock. Both comparisons are false on a text that is not a time, so
what executes inside a real lifetime is exactly what carries a real expiry.
-/

namespace CoolSdk

section

variable (H : Host)

/-- A text denotes an instant that is not earlier than a moment. -/
def NotPassed (text : String) (now : JsNumber) : Prop :=
  ∃ t, H.dateParse text = some t ∧ now.le (.ofInt t) = true

end

variable {H : Host}

/-- Of a text that is not known to have passed, it is left open whether it and the moment are
real. -/
theorem notPassed_iff {text : String} {now : JsNumber}
    (h : (dateNumber H text).lt now = false) :
    NotPassed H text now ↔ (H.dateParse text).isSome = true ∧ now ≠ .nan := by
  constructor
  · rintro ⟨t, ht, hle⟩
    exact ⟨by rw [ht]; rfl, (JsNumber.ne_nan_of_le hle).1⟩
  · rintro ⟨hsome, hnow⟩
    obtain ⟨t, ht⟩ := Option.isSome_iff_exists.mp hsome
    refine ⟨t, ht, JsNumber.le_of_not_lt hnow JsNumber.noConfusion ?_⟩
    rwa [dateNumber, ht, JsNumber.ofParsed_some] at h

namespace ToolGateway

/-- Bounded lifetime. A tool that runs on a decision the evaluator made for its request runs
while the request and the decision are both in force exactly when the request's expiry is a
time and the gateway's clock reads one. -/
theorem in_force_iff {gw : ToolGateway} {env : Surroundings} {inv : Invocation}
    {answers : Answers} {call : ToolCall} {input : DecideInput} {random : Bytes}
    (hcall : (gw.invoke H env inv answers).called = some call)
    (hrequest : input.request = inv.request)
    (hdecided : decisionBody H input random = .ok inv.decision.body) :
    NotPassed H inv.request.expiresAt env.now ∧
        NotPassed H inv.decision.body.validUntil env.now ↔
      (H.dateParse inv.request.expiresAt).isSome = true ∧ env.now ≠ .nan := by
  obtain ⟨⟨report, hscreen⟩, _, _⟩ := screen_of_called hcall
  have hfresh := (freshnessCheck_enforcement_iff _ _ _).mp (admitted_of_screen hscreen).fresh
  obtain ⟨_, _, _, _, _, hvalid, _⟩ := decisionBody_binds hdecided
  rw [hrequest] at hvalid
  rw [hvalid] at hfresh ⊢
  rw [and_self, notPassed_iff hfresh.2.2]

/-! ## A payment with no expiry -/

open Reference

/-- The general result at work on a payment with a real expiry. -/
theorem in_force_iff_payment : ∃ s, payDecision timelyRequest (clock 60000) = .ok s ∧
    (NotPassed host timelyRequest.expiresAt (clock 120000) ∧
        NotPassed host s.body.validUntil (clock 120000) ↔
      (host.dateParse timelyRequest.expiresAt).isSome = true ∧ clock 120000 ≠ .nan) := by
  obtain ⟨s, call, hs, hcall⟩ :=
    called_of_pays timelyRequest (clock 60000) (clock 120000) (by decide +kernel)
  exact ⟨s, hs, in_force_iff hcall rfl (decisionBody_of_decide hs)⟩

/-- A request that never expires: its expiry is not a time. -/
def endlessRequest : AuthorizationRequest :=
  payRequest "req-1" "nonce-1" "2026-01-01T00:00:30.000Z" "never"

/-- A tool runs on a request and a decision whose expiry is not a time. -/
theorem called_without_expiry : ∃ s call, payDecision endlessRequest (clock 60000) = .ok s ∧
    (payGateway.invoke host (payEnv (clock 120000)) (payInvocation endlessRequest s)
      payAnswers).called = some call ∧
      ¬(NotPassed host endlessRequest.expiresAt (clock 120000) ∧
        NotPassed host s.body.validUntil (clock 120000)) := by
  obtain ⟨s, call, hs, hcall⟩ :=
    called_of_pays endlessRequest (clock 60000) (clock 120000) (by decide +kernel)
  refine ⟨s, call, hs, hcall, ?_⟩
  rintro ⟨⟨t, ht, _⟩, _⟩
  have hnone : host.dateParse endlessRequest.expiresAt = none := by decide
  rw [ht] at hnone
  cases hnone

end ToolGateway

end CoolSdk
