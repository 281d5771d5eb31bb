import CoolSdk.Authz.Mediation

/-!
# What a confirmation says

A confirmation is to say what happened to the tool: that it answered, that it threw, or
that it was never called. The gateway digests the response and signs its completion inside
the `try` that surrounds the call, so a response it cannot digest is confirmed as a failure
of the tool; and it reads the message of whatever was thrown, which not everything has.
-/

namespace CoolSdk

namespace ToolGateway

section

variable (H : Host)

/-- The signer of confirmations succeeds, whatever it is to confirm. -/
def Signs (gw : ToolGateway) (inv : Invocation) (stamp : Stamp) : Prop :=
  ∀ outcome reason responseDigest externalRef,
    ∃ s, gw.confirm H inv outcome reason responseDigest externalRef stamp = .ok s

/-- What a tool answered can be confirmed as what it is: a response can be digested, and what
was thrown has a message to show. -/
def Confirmable : Except Thrown ToolOutput → Prop
  | .ok out => ∃ digest, responseDigest H out.response = .ok digest
  | .error err => ∃ text, messageSlice H err = .ok text

end

/-- A run ends with a confirmation, and its outcome is what happened to the tool. -/
def Honest (run : InvokeRun) (execute : Except Thrown ToolOutput) : Prop :=
  ∃ result, run.result = .ok result ∧
    (result.confirmation.body.outcome = .completed ↔
      run.called.isSome ∧ ∃ out, execute = .ok out) ∧
    (result.confirmation.body.outcome = .failed ↔
      run.called.isSome ∧ ∃ err, execute = .error err) ∧
    (result.confirmation.body.outcome = .rejected ↔ run.called = none)

variable {H : Host}

/-- A confirmation states the outcome it was asked to. -/
theorem outcome_of_confirm {gw : ToolGateway} {inv : Invocation} {outcome : ConfirmationOutcome}
    {reason : String} {digest : Option Multihash} {ref : Option String} {stamp : Stamp}
    {s : Signed ExternalConfirmation}
    (h : gw.confirm H inv outcome reason digest ref stamp = .ok s) : s.body.outcome = outcome := by
  unfold confirm at h
  obtain ⟨requestDigest, _, h⟩ := bind_eq_ok.mp h
  obtain ⟨confirmedAt, _, h⟩ := bind_eq_ok.mp h
  rw [body_of_signObject H h]

/-- A refusal is confirmed as a rejection. -/
theorem reject_of_signs {gw : ToolGateway} {inv : Invocation} {stamp : Stamp}
    (hsign : gw.Signs H inv stamp) (reason : String) (report : Option DecisionReport) :
    ∃ result, gw.reject H inv reason report stamp = .ok result ∧
      result.confirmation.body.outcome = .rejected := by
  obtain ⟨s, hs⟩ := hsign .rejected reason none none
  exact ⟨_, bind_eq_ok.mpr ⟨s, hs, rfl⟩, outcome_of_confirm hs⟩

/-- A response that can be digested is confirmed as a completion. -/
theorem settle_of_digest {gw : ToolGateway} {inv : Invocation} {stamp : Stamp}
    (hsign : gw.Signs H inv stamp) (report : DecisionReport) {out : ToolOutput}
    {digest : Multihash} (hdigest : responseDigest H out.response = .ok digest)
    (failure : Stamp) :
    ∃ result, gw.settle H inv report (.ok out) stamp failure = .ok result ∧
      result.confirmation.body.outcome = .completed := by
  obtain ⟨s, hs⟩ := hsign .completed "executed" (some digest) (nonEmpty out.externalRef)
  have hcomplete : gw.complete H inv report out stamp = .ok
      { confirmation := s, decisionReport := some report, response := some out.response } :=
    bind_eq_ok.mpr ⟨digest, hdigest, bind_eq_ok.mpr ⟨s, hs, rfl⟩⟩
  refine ⟨{ confirmation := s, decisionReport := some report, response := some out.response }, ?_,
    outcome_of_confirm hs⟩
  simp only [settle, ok_bind, hcomplete, Except.mapError]

/-- A response that cannot be digested is confirmed as a failure. -/
theorem settle_of_not_digest {gw : ToolGateway} {inv : Invocation} {failure : Stamp}
    (hsign : gw.Signs H inv failure) (report : DecisionReport) {out : ToolOutput} {err : String}
    (hdigest : responseDigest H out.response = .error err) (stamp : Stamp) :
    ∃ result, gw.settle H inv report (.ok out) stamp failure = .ok result ∧
      result.confirmation.body.outcome = .failed := by
  have hcomplete : gw.complete H inv report out stamp = .error err := by
    rw [complete, hdigest]
    rfl
  obtain ⟨s, hs⟩ := hsign .failed ("tool_error:" ++ slice 120 err) none none
  refine ⟨{ confirmation := s, decisionReport := some report }, ?_, outcome_of_confirm hs⟩
  simp only [settle, ok_bind, hcomplete, Except.mapError, messageSlice, hs]

/-- What was thrown is confirmed as a failure where its message can be shown. -/
theorem settle_of_message {gw : ToolGateway} {inv : Invocation} {failure : Stamp}
    (hsign : gw.Signs H inv failure) (report : DecisionReport) {err : Thrown} {text : String}
    (htext : messageSlice H err = .ok text) (stamp : Stamp) :
    ∃ result, gw.settle H inv report (.error err) stamp failure = .ok result ∧
      result.confirmation.body.outcome = .failed := by
  obtain ⟨s, hs⟩ := hsign .failed ("tool_error:" ++ text) none none
  refine ⟨{ confirmation := s, decisionReport := some report }, ?_, outcome_of_confirm hs⟩
  exact bind_eq_ok.mpr ⟨text, htext, bind_eq_ok.mpr ⟨s, hs, rfl⟩⟩

/-- Elsewhere there is no confirmation. -/
theorem settle_of_not_message (gw : ToolGateway) (inv : Invocation) (report : DecisionReport)
    {err : Thrown} {fault : String} (hfault : messageSlice H err = .error fault)
    (stamp failure : Stamp) :
    gw.settle H inv report (.error err) stamp failure = .error fault := by
  have hthrown : (do
      let text ← messageSlice H err
      let confirmation ← gw.confirm H inv .failed ("tool_error:" ++ text) none none failure
      .ok { confirmation, decisionReport := some report }) = (.error fault : Except String
        InvocationResult) := by
    rw [hfault]
    rfl
  exact hthrown

/-- The end of an invocation whose tool was called is honest exactly when the tool's answer can
be confirmed as what it is. -/
theorem honest_settle_iff {gw : ToolGateway} {inv : Invocation} {stamp failure : Stamp}
    (hsign : gw.Signs H inv stamp) (hfailure : gw.Signs H inv failure) (report : DecisionReport)
    (call : ToolCall) (execute : Except Thrown ToolOutput) :
    Honest { called := some call, result := gw.settle H inv report execute stamp failure } execute ↔
      Confirmable H execute := by
  cases execute with
  | ok out =>
    cases hdigest : responseDigest H out.response with
    | ok digest =>
      obtain ⟨result, hresult, houtcome⟩ := settle_of_digest hsign report hdigest failure
      refine iff_of_true ⟨result, hresult, ?_⟩ ⟨digest, hdigest⟩
      simp [houtcome]
    | error err =>
      obtain ⟨result, hresult, houtcome⟩ := settle_of_not_digest hfailure report hdigest stamp
      refine iff_of_false ?_ ?_
      · rintro ⟨result', hresult', hcompleted, _⟩
        obtain rfl := Except.ok.inj (hresult.symm.trans hresult')
        simp [houtcome] at hcompleted
      · rintro ⟨digest, hok⟩
        rw [hdigest] at hok
        cases hok
  | error err =>
    cases htext : messageSlice H err with
    | ok text =>
      obtain ⟨result, hresult, houtcome⟩ := settle_of_message hfailure report htext stamp
      refine iff_of_true ⟨result, hresult, ?_⟩ ⟨text, htext⟩
      simp [houtcome]
    | error fault =>
      have hsettle := settle_of_not_message gw inv report htext stamp failure
      refine iff_of_false ?_ ?_
      · rintro ⟨result, hresult, _⟩
        rw [hsettle] at hresult
        cases hresult
      · rintro ⟨text, hok⟩
        rw [htext] at hok
        cases hok

/-- Where nothing throws on the way to the tool, and the tool's answer can be confirmed as what
it is, and only there, an invocation ends with an honest confirmation. -/
theorem honest_confirmation_iff {gw : ToolGateway} {env : Surroundings} {inv : Invocation}
    {answers : Answers} (hsign : gw.Signs H inv answers.stamp)
    (hfailure : gw.Signs H inv answers.failure) :
    Honest (gw.invoke H env inv answers) answers.execute ↔
      ∃ screened, gw.screen H env inv = .ok screened ∧
        ∀ tool report, screened = .consume tool report →
          ∃ answer, answers.consume = .ok answer ∧
            (answer = .consumed → Confirmable H answers.execute) := by
  have hrejected (reason : String) (report : Option DecisionReport) :
      Honest { called := none, result := gw.reject H inv reason report answers.stamp }
        answers.execute := by
    obtain ⟨result, hresult, houtcome⟩ := reject_of_signs hsign reason report
    refine ⟨result, hresult, ?_⟩
    simp [houtcome]
  have hthrown (err : String) : ¬Honest { called := none, result := .error err }
      answers.execute := by
    rintro ⟨result, hresult, _⟩
    cases hresult
  unfold invoke
  cases hs : gw.screen H env inv with
  | error err =>
    refine iff_of_false (hthrown err) ?_
    rintro ⟨screened, hscreened, _⟩
    cases hscreened
  | ok screened =>
    cases screened with
    | reject reason report =>
      refine iff_of_true (hrejected reason report) ⟨_, rfl, ?_⟩
      rintro tool report ⟨⟩
    | consume tool report =>
      cases hc : answers.consume with
      | error err =>
        refine iff_of_false (hthrown err) ?_
        rintro ⟨screened, hscreened, hanswer⟩
        cases hscreened
        obtain ⟨answer, hanswer, _⟩ := hanswer tool report rfl
        cases hanswer
      | ok answer =>
        have hanswered : (∃ screened, Except.ok (Screened.consume tool report) =
              (.ok screened : Except String Screened) ∧
            ∀ tool report, screened = .consume tool report →
              ∃ a, (.ok answer : Except String ConsumeResult) = .ok a ∧
                (a = .consumed → Confirmable H answers.execute)) ↔
            (answer = .consumed → Confirmable H answers.execute) := by
          simp
        rw [hanswered]
        cases answer with
        | consumed =>
          simp only [release, forall_const]
          exact honest_settle_iff hsign hfailure report _ answers.execute
        | replayed =>
          refine iff_of_true (hrejected "replayed" (some report)) fun h => ?_
          cases h
        | unavailable =>
          refine iff_of_true (hrejected "replay_store_unavailable" (some report)) fun h => ?_
          cases h

/-! ## Tools on a host without a size limit -/

section

open Reference

/-- The reference host with an encoder that encodes values of any size. -/
def boundlessHost : Host :=
  { host with
    canonicalCbor := fun v =>
      match toItem v.sortKeys with
      | none => .error "unsupported value"
      | some i => .ok (Cbor.encode i) }

private theorem toEntries_isSome {ms : JsValue.Members}
    (h : ∀ e ∈ ms, (toItem e.2).isSome = true) : ∃ es, toEntries ms = some es := by
  induction ms with
  | nil => exact ⟨[], rfl⟩
  | cons e ms ih =>
    obtain ⟨k, v⟩ := e
    obtain ⟨i, hi⟩ := Option.isSome_iff_exists.mp (h (k, v) List.mem_cons_self)
    obtain ⟨es, hes⟩ := ih fun e he => h e (List.mem_cons_of_mem _ he)
    exact ⟨(utf8 k, i) :: es, by simp only [toEntries, hi, hes, Option.bind_some, Option.map_some]⟩

/-- It encodes every object whose members are texts. -/
private theorem encodes_texts {ms : JsValue.Members} (h : ∀ e ∈ ms, ∃ s, e.2 = .str s) :
    ∃ bytes, boundlessHost.canonicalCbor (.object ms) = .ok bytes := by
  have hsorted : ∀ e ∈ JsValue.sortMembers (JsValue.sortKeysMembers ms),
      (toItem e.2).isSome = true := by
    intro e he
    rw [JsValue.sortMembers, List.mem_insertionSort, JsValue.sortKeysMembers_eq_map,
      List.mem_map] at he
    obtain ⟨m, hm, rfl⟩ := he
    obtain ⟨s, hs⟩ := h m hm
    simp only [hs, JsValue.sortKeys, toItem, Option.isSome_some]
  obtain ⟨es, hes⟩ := toEntries_isSome hsorted
  refine ⟨Cbor.encode (.map es), ?_⟩
  simp only [boundlessHost, JsValue.sortKeys, toItem, hes, Option.map_some]

/-- Cleaning keeps only the texts of members that are texts or undefined. -/
private theorem texts_cleanMembers {ms out : JsValue.Members}
    (h : ∀ e ∈ ms, e.2 = .undefined ∨ ∃ s, e.2 = .str s) (hout : ∀ e ∈ out, ∃ s, e.2 = .str s) :
    ∀ e ∈ JsValue.cleanMembers ms out, ∃ s, e.2 = .str s := by
  induction ms generalizing out with
  | nil => exact hout
  | cons e ms ih =>
    obtain ⟨k, v⟩ := e
    have hrest := fun e he => h e (List.mem_cons_of_mem (k, v) he)
    rcases h (k, v) List.mem_cons_self with hv | ⟨s, hv⟩
    · obtain rfl : v = .undefined := hv
      exact ih hrest hout
    · obtain rfl : v = .str s := hv
      refine ih hrest ?_
      simp only [JsValue.isUndefined, Bool.false_eq_true, if_false, JsValue.assign, JsValue.clean]
      split
      · exact hout
      · intro e he
        rcases Entries.mem_set he with rfl | he
        · exact ⟨s, rfl⟩
        · exact hout e he

/-- It signs every body whose members are texts or undefined. -/
private theorem signObject_texts {α : Type} [ToJs α] (body : α) {ms : JsValue.Members}
    (hbody : toJs body = .object ms) (h : ∀ e ∈ ms, e.2 = .undefined ∨ ∃ s, e.2 = .str s)
    (context : String) (key : KeyPair) :
    ∃ s, signObject boundlessHost context body key = .ok s := by
  have hclean : (toJs body).clean = .object (JsValue.cleanMembers ms []) := by
    rw [hbody, JsValue.clean]
  have htexts := texts_cleanMembers h fun e he => absurd he List.not_mem_nil
  obtain ⟨bytes, hbytes⟩ := encodes_texts htexts
  have hdigest : digestOf boundlessHost context (toJs body) =
      .ok (mhSha256 boundlessHost (utf8 (context ++ "\x00") ++ bytes)) := by
    rw [digestOf, hclean, hbytes]
    rfl
  have hraw : multihashDigest (mhSha256 boundlessHost (utf8 (context ++ "\x00") ++ bytes)) = .ok _ :=
    multihashDigest_toHex (length_digest _)
  exact ⟨_, bind_eq_ok.mpr ⟨_, hdigest, bind_eq_ok.mpr
    ⟨_, bind_eq_ok.mpr ⟨_, hraw, rfl⟩, rfl⟩⟩⟩

/-- It signs every confirmation. -/
theorem signObject_boundless (body : ExternalConfirmation) (key : KeyPair) :
    ∃ s, signObject boundlessHost "cool.external-confirmation.v1" body key = .ok s := by
  have hoptional (t : Option String) :
      optional .str t = .undefined ∨ ∃ s, optional .str t = JsValue.str s := by
    cases t with
    | none => exact .inl rfl
    | some s => exact .inr ⟨s, rfl⟩
  exact signObject_texts body rfl (by simp [hoptional]) _ key

/-- Its signer of confirmations succeeds where the request has a digest and the clock reads a
time. -/
theorem signs_boundless (gw : ToolGateway) {inv : Invocation} {stamp : Stamp}
    (hrequest : (requestDigest boundlessHost inv.request).isOk = true)
    (hclock : (toISOString stamp.now).isOk = true) : gw.Signs boundlessHost inv stamp := by
  intro outcome reason digest ref
  obtain ⟨requestDigest, hrequest⟩ := exists_of_isOk hrequest
  obtain ⟨confirmedAt, hclock⟩ := exists_of_isOk hclock
  obtain ⟨s, hs⟩ := signObject_boundless _ gw.key
  exact ⟨s, bind_eq_ok.mpr ⟨requestDigest, hrequest, bind_eq_ok.mpr ⟨confirmedAt, hclock, hs⟩⟩⟩

/-- The payment with a tool that answers as given. -/
def payAnswered (execute : Except Thrown ToolOutput) : Answers := { payAnswers with execute }

/-- Whether the tool of a payment is called, and what is confirmed of it. -/
def confirmedPayment (r : AuthorizationRequest) (execute : Except Thrown ToolOutput) :
    Except String (Bool × Except String ConfirmationOutcome) := do
  let s ← payDecision r (clock 60000)
  let run := payGateway.invoke boundlessHost (payEnv (clock 120000)) (payInvocation r s)
    (payAnswered execute)
  .ok (run.called.isSome, run.result.map fun result => result.confirmation.body.outcome)

/-- The run behind what was confirmed. -/
private theorem run_of_confirmedPayment {r : AuthorizationRequest}
    {execute : Except Thrown ToolOutput} {p : Bool × Except String ConfirmationOutcome}
    (h : confirmedPayment r execute = .ok p) :
    ∃ s, payDecision r (clock 60000) = .ok s ∧
      (payGateway.invoke boundlessHost (payEnv (clock 120000)) (payInvocation r s)
        (payAnswered execute)).called.isSome = p.1 ∧
      (payGateway.invoke boundlessHost (payEnv (clock 120000)) (payInvocation r s)
        (payAnswered execute)).result.map (fun result => result.confirmation.body.outcome) =
          p.2 := by
  obtain ⟨s, hs, h⟩ := bind_eq_ok.mp h
  obtain rfl := Except.ok.inj h
  exact ⟨s, hs, rfl, rfl⟩

/-- The signer of confirmations succeeds on a payment. -/
private theorem signs_payment (s : Signed AuthorizationDecision) :
    ∀ stamp ∈ [payAnswers.stamp, payAnswers.failure],
      payGateway.Signs boundlessHost (payInvocation timelyRequest s) stamp := by
  have hrequest : (requestDigest boundlessHost timelyRequest).isOk = true := by decide +kernel
  have hclock : (toISOString (clock 0)).isOk = true := by decide +kernel
  intro stamp hstamp
  simp only [List.mem_cons, List.not_mem_nil, or_false] at hstamp
  rcases hstamp with rfl | rfl
  · exact signs_boundless payGateway hrequest hclock
  · exact signs_boundless payGateway hrequest hclock

/-- The general result at work: a payment whose response can be digested is confirmed as it
was. -/
theorem honest_confirmation_payment : ∃ s, payDecision timelyRequest (clock 60000) = .ok s ∧
    Honest (payGateway.invoke boundlessHost (payEnv (clock 120000)) (payInvocation timelyRequest s)
      (payAnswered (.ok { response := .str "paid" }))) (.ok { response := .str "paid" }) := by
  have hrun : confirmedPayment timelyRequest (.ok { response := .str "paid" }) =
      .ok (true, .ok .completed) := by
    decide +kernel
  obtain ⟨s, hs, hcalled, _⟩ := run_of_confirmedPayment hrun
  obtain ⟨call, hcall⟩ := Option.isSome_iff_exists.mp hcalled
  obtain ⟨⟨report, hscreen⟩, _, _⟩ := screen_of_called hcall
  have hdigest : (responseDigest boundlessHost (.str "paid")).isOk = true := by decide +kernel
  refine ⟨s, hs, (honest_confirmation_iff (signs_payment s _ (by simp [payAnswered]))
    (signs_payment s _ (by simp [payAnswered]))).mpr ⟨_, hscreen, ?_⟩⟩
  intro tool report' _
  exact ⟨.consumed, rfl, fun _ => exists_of_isOk hdigest⟩

/-- A payment whose response cannot be digested is confirmed as a failure, although the signer
of confirmations succeeds. -/
theorem dishonest_confirmation : ∃ s, payDecision timelyRequest (clock 60000) = .ok s ∧
    (∀ stamp ∈ [payAnswers.stamp, payAnswers.failure],
      payGateway.Signs boundlessHost (payInvocation timelyRequest s) stamp) ∧
    ¬Honest (payGateway.invoke boundlessHost (payEnv (clock 120000))
      (payInvocation timelyRequest s) (payAnswered (.ok { response := .foreign "bigint" })))
        (.ok { response := .foreign "bigint" }) := by
  have hrun : confirmedPayment timelyRequest (.ok { response := .foreign "bigint" }) =
      .ok (true, .ok .failed) := by
    decide +kernel
  obtain ⟨s, hs, hcalled, houtcome⟩ := run_of_confirmedPayment hrun
  refine ⟨s, hs, signs_payment s, ?_⟩
  rintro ⟨result, hresult, hcompleted, _⟩
  rw [hresult] at houtcome
  have hfailed : result.confirmation.body.outcome = .failed := Except.ok.inj houtcome
  rw [hcompleted.mpr ⟨hcalled, _, rfl⟩] at hfailed
  cases hfailed

end

end ToolGateway

end CoolSdk
