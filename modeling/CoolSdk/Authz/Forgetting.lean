import CoolSdk.Authz.Lifetime
import CoolSdk.Authz.SharedBoundary
import CoolSdk.Core.OneShot

/-!
# At-most-once execution over a forgetting store

The store's time to live is counted from the insertion of a nonce, the request's expiry is
a text, and the gateway compares the expiry with a clock it read before it asked the store.
A nonce is executed for once when every insertion that wins finds them in step: the expiry
is an instant, it comes before the store may forget by more than the time an invocation
spends on its way to the store, and no earlier request with the nonce had another expiry.
Requests whose expiry does not parse are executed again as soon as their nonce is forgotten.
-/

namespace CoolSdk.SharedBoundary

section

variable (H : Host) (store : SharedNonceStore)

/-- The condition on an insertion that wins, for a bound `lag` on the time between the clock
reading of the gateway and the insertion. -/
def Fits (lag : ℚ) (w : SharedBoundary) : SharedMove → Prop
  | .insert i true => ∀ t ∈ w.tasks[i]?,
      w.memory (store.keyOf H t.gw.audience t.inv.request.nonce) = none →
        w.clock ≤ t.sentAt + lag ∧
          (∃ exp ∈ H.dateParse t.inv.request.expiresAt, exp + lag < w.clock + store.ttlMs) ∧
            ∀ g ∈ w.granted, g.token = t.token → g.expiresAt = t.inv.request.expiresAt
  | _ => True

instance (lag : ℚ) (w : SharedBoundary) (m : SharedMove) : Decidable (Fits H store lag w m) := by
  unfold Fits
  split <;> infer_instance

/-- The documented condition: the time to live exceeds the window of every request whose
window is a real interval. -/
def WindowsFit (_ : SharedBoundary) : SharedMove → Prop
  | .invoke _ _ inv _ => ∀ iss ∈ H.dateParse inv.request.issuedAt,
      ∀ exp ∈ H.dateParse inv.request.expiresAt, (exp : ℚ) - iss < store.ttlMs
  | _ => True

instance (w : SharedBoundary) (m : SharedMove) : Decidable (WindowsFit H store w m) := by
  unfold WindowsFit
  split <;> infer_instance

/-- What holds in every run whose insertions fit. -/
structure Covered (lag : ℚ) (w : SharedBoundary) : Prop where
  /-- A nonce that was won is remembered until its time to live has passed. -/
  remembered : ∀ g ∈ w.granted,
    (∃ e, w.memory (store.keyOf H g.token.1 g.token.2) = some e ∧ e.insertedAt = g.insertedAt) ∨
      g.insertedAt + store.ttlMs ≤ w.clock
  /-- It expires before that, with the lag to spare. -/
  lifetime : ∀ g ∈ w.granted, ∃ exp ∈ H.dateParse g.expiresAt,
    exp + lag < g.insertedAt + store.ttlMs
  /-- An invocation on its way to the store had not expired when it was judged. -/
  timely : ∀ t ∈ w.tasks, ∀ tool report, t.stage = .inserting tool report →
    ∀ exp ∈ H.dateParse t.inv.request.expiresAt, t.sentAt ≤ exp
  /-- Decisions are valid until their request expires. -/
  valid : ∀ rd ∈ w.decided, rd.2.validUntil = rd.1.expiresAt

/-- The ledger of a run: a nonce is spent once it was won. -/
def ledger (w : SharedBoundary) : Ledger (String × String) where
  spent k := k ∈ w.granted.map Grant.token
  held := Ledger.claims SharedTask.claim w.tasks
  fired := ↑(w.executions.map Execution.token)

end

variable {H : Host} {store : SharedNonceStore} {lag : ℚ}

/-! ## What each move preserves -/

/-- Before the first decision nothing is promised. -/
private theorem covered_start (clock : ℚ) (memory : Memory) :
    (start clock memory).Covered H store lag := by
  refine ⟨?_, ?_, ?_, ?_⟩ <;> intro x hx <;> exact absurd hx List.not_mem_nil

/-- Time only brings the moment to forget closer. -/
theorem Covered.tick {w : SharedBoundary} (h : w.Covered H store lag) {clock : ℚ}
    (hclock : w.clock ≤ clock) : ({ w with clock } : SharedBoundary).Covered H store lag := by
  refine ⟨?_, h.lifetime, h.timely, h.valid⟩
  intro g hg
  exact (h.remembered g hg).imp_right fun hpassed => hpassed.trans hclock

/-- A backend that keeps what it must. -/
theorem Covered.keeps {w : SharedBoundary} (h : w.Covered H store lag) {m : Memory}
    (hm : w.memory.Keeps store.ttlMs w.clock m) (flying : List (String × String)) :
    ({ w with memory := m, flying } : SharedBoundary).Covered H store lag := by
  refine ⟨?_, h.lifetime, h.timely, h.valid⟩
  intro g hg
  rcases h.remembered g hg with ⟨e, he, hsame⟩ | hpassed
  · rcases hm _ e he with hkept | hpassed
    · exact Or.inl ⟨e, hkept, hsame⟩
    · exact Or.inr (hsame ▸ hpassed)
  · exact Or.inr hpassed

/-- An invocation that is no longer on its way to the store. -/
theorem Covered.set {w : SharedBoundary} (h : w.Covered H store lag) (i : Nat) {t : SharedTask}
    (ht : ∀ tool report, t.stage = .inserting tool report → t ∈ w.tasks)
    (executions : List Execution) :
    ({ w with tasks := w.tasks.set i t, executions } : SharedBoundary).Covered H store lag := by
  refine ⟨h.remembered, h.lifetime, ?_, h.valid⟩
  intro t' hmem tool report hstage
  rcases List.mem_or_eq_of_mem_set hmem with hmem | rfl
  · exact h.timely t' hmem tool report hstage
  · exact h.timely t' (ht tool report hstage) tool report hstage

/-- A decision of the evaluator. -/
theorem Covered.decide {w w' : SharedBoundary} (h : w.Covered H store lag) {input : DecideInput}
    {random : Bytes} (hw : w.decide H input random = some w') : w'.Covered H store lag := by
  unfold SharedBoundary.decide at hw
  split at hw
  · cases hd : decisionBody H input random with
    | error err =>
      simp only [hd, Option.some.injEq] at hw
      exact hw ▸ h
    | ok d =>
      simp only [hd, Option.some.injEq] at hw
      subst hw
      refine ⟨h.remembered, h.lifetime, h.timely, ?_⟩
      intro rd hrd
      rcases List.mem_cons.mp hrd with rfl | hrd
      · obtain ⟨_, _, _, _, _, hvalid, _⟩ := decisionBody_binds hd
        exact hvalid
      · exact h.valid rd hrd
  · cases hw

/-- An invocation let through at a moment presents a decision that has not expired then. -/
theorem not_expired_of_screen {gw : ToolGateway} {env : Surroundings} {inv : Invocation}
    {tool : ToolDefinition} {report : DecisionReport}
    (h : gw.screen H env inv = .ok (.consume tool report)) :
    (dateNumber H inv.decision.body.validUntil).lt env.now = false :=
  ((freshnessCheck_enforcement_iff _ _ _).mp (ToolGateway.admitted_of_screen h).fresh).2.2

/-- A new invocation. -/
theorem Covered.invoke {w w' : SharedBoundary} (h : w.Covered H store lag) {gw : ToolGateway}
    {env : Surroundings} {inv : Invocation} {stamp : Stamp}
    (hw : w.invoke H gw env inv stamp = some w') : w'.Covered H store lag := by
  have hadd : ∀ stage, (∀ tool report, stage = .inserting tool report →
      ∀ exp ∈ H.dateParse inv.request.expiresAt, w.clock ≤ exp) →
        (w.add gw inv stage).Covered H store lag := by
    intro stage hstage
    refine ⟨h.remembered, h.lifetime, ?_, h.valid⟩
    intro t hmem
    rcases List.mem_append.mp hmem with hmem | hmem
    · exact h.timely t hmem
    · rw [List.mem_singleton.mp hmem]
      exact hstage
  unfold SharedBoundary.invoke at hw
  split at hw
  · rename_i hlegal
    obtain ⟨hnow, hdecided⟩ := hlegal
    cases hs : gw.screen H env inv with
    | error err =>
      simp only [hs, Option.some.injEq] at hw
      exact hw ▸ hadd _ (by rintro tool report ⟨⟩)
    | ok screened =>
      cases screened with
      | reject reason report =>
        simp only [hs, Option.some.injEq] at hw
        exact hw ▸ hadd _ (by rintro tool report ⟨⟩)
      | consume tool report =>
        simp only [hs, Option.some.injEq] at hw
        subst hw
        refine hadd _ ?_
        intro tool' report' _ exp hexp
        have hfresh := not_expired_of_screen hs
        have hvalid : inv.decision.body.validUntil = inv.request.expiresAt := h.valid _ hdecided
        rw [hvalid, dateNumber, Option.mem_def.mp hexp, hnow] at hfresh
        simpa [JsNumber.lt, JsNumber.ofInt, JsNumber.position?] using hfresh
  · cases hw

/-- A decision touches no claim. -/
private theorem ledger_decide {w w' : SharedBoundary} {input : DecideInput} {random : Bytes}
    (hw : w.decide H input random = some w') : w'.ledger = w.ledger := by
  unfold SharedBoundary.decide at hw
  split at hw
  · cases hd : decisionBody H input random with
    | error err =>
      simp only [hd, Option.some.injEq] at hw
      rw [← hw]
    | ok d =>
      simp only [hd, Option.some.injEq] at hw
      subst hw
      rfl
  · cases hw

/-- A new invocation claims nothing before the store has answered. -/
private theorem ledger_invoke {w w' : SharedBoundary} {gw : ToolGateway} {env : Surroundings}
    {inv : Invocation} {stamp : Stamp} (hw : w.invoke H gw env inv stamp = some w') :
    w'.ledger = w.ledger := by
  have hadd : ∀ stage, SharedTask.claim ⟨gw, inv, w.clock, stage⟩ = none →
      (w.add gw inv stage).ledger = w.ledger := by
    intro stage hclaim
    simp only [ledger, add, Ledger.claims_append, hclaim, Option.toList, Multiset.coe_nil,
      add_zero]
  unfold SharedBoundary.invoke at hw
  split at hw
  · cases hs : gw.screen H env inv with
    | error err =>
      simp only [hs, Option.some.injEq] at hw
      exact hw ▸ hadd _ rfl
    | ok screened =>
      cases screened <;> simp only [hs, Option.some.injEq] at hw <;> exact hw ▸ hadd _ rfl
  · cases hw

/-- An insertion. Where it wins, what `Fits` asks of it becomes what is known of its nonce. -/
theorem Covered.insert {w w' : SharedBoundary} (h : w.Covered H store lag) {i : Nat}
    {delivered : Bool} (hfits : Fits H store lag w (.insert i delivered))
    (hw : w.insert H store i delivered = some w') :
    w'.Covered H store lag ∧ w.ledger.Step w'.ledger := by
  obtain ⟨gw, inv, sentAt, tool, report, ht, hcases⟩ := insert_cases hw
  have hkeeps := w.memory.keeps_insertIfAbsent store.ttlMs
    (store.keyOf H gw.audience inv.request.nonce) inv.request.requestId w.clock
  rcases hcases with ⟨answer, hanswer, rfl⟩ | ⟨rfl, habsent, hstored, rfl⟩
  · refine ⟨(h.keeps hkeeps w.flying).set i (by rintro _ _ ⟨⟩) w.executions, ?_⟩
    have hlost : SharedTask.claim ⟨gw, inv, sentAt, .answered (.consuming tool report answer)⟩ =
        SharedTask.claim ⟨gw, inv, sentAt, .inserting tool report⟩ := by
      simp only [SharedTask.claim, Task.claim, hanswer, if_false]
    have hclaim := Ledger.claims_set_eq SharedTask.claim ht hlost
    simp only [ledger, hclaim]
    exact .refl _
  · obtain ⟨hlag, ⟨exp, hexp, hlifetime⟩, hwindow⟩ := hfits _ (Option.mem_def.mpr ht) habsent
    have hin : sentAt ≤ exp :=
      h.timely _ (List.mem_of_getElem? ht) tool report rfl exp hexp
    have hfresh : (gw.audience, inv.request.nonce) ∉ w.granted.map Grant.token := by
      intro hspent
      obtain ⟨g, hg, htoken⟩ := List.mem_map.mp hspent
      obtain ⟨exp', hexp', hlifetime'⟩ := h.lifetime g hg
      -- The nonce was forgotten, so its time to live has passed since it was won.
      have hpassed : g.insertedAt + store.ttlMs ≤ w.clock := by
        refine (h.remembered g hg).resolve_left ?_
        rintro ⟨e, he, _⟩
        rw [htoken, habsent] at he
        cases he
      have hsame : exp' = exp := by
        rw [hwindow g hg htoken] at hexp'
        exact Option.mem_unique hexp' hexp
      rw [hsame] at hlifetime'
      simp only at hlag
      linarith
    refine ⟨?_, ?_⟩
    · have hset := (h.keeps hkeeps w.flying).set i
        (t := ⟨gw, inv, sentAt, .answered (.consuming tool report .consumed)⟩)
        (by rintro _ _ ⟨⟩) w.executions
      refine ⟨?_, ?_, hset.timely, h.valid⟩
      · intro g hg
        rcases List.mem_cons.mp hg with rfl | hg
        · exact Or.inl ⟨_, hstored, rfl⟩
        · exact hset.remembered g hg
      · intro g hg
        rcases List.mem_cons.mp hg with rfl | hg
        · exact ⟨exp, hexp, hlifetime⟩
        · exact h.lifetime g hg
    · have hclaims := Ledger.claims_set SharedTask.claim ht
        ⟨gw, inv, sentAt, .answered (.consuming tool report .consumed)⟩
      simp only [SharedTask.claim, Task.claim, Task.token, if_true, Option.toList,
        Multiset.coe_nil, add_zero, Multiset.coe_singleton, Multiset.add_comm _ {_},
        Multiset.singleton_add] at hclaims
      simp only [ledger, hclaims, List.map_cons]
      exact .claim hfresh (fun _ hk => List.mem_cons_of_mem _ hk) List.mem_cons_self

/-- Every move that fits is a step of the ledger and preserves what is known. -/
theorem Covered.step {w w' : SharedBoundary} {m : SharedMove} (h : w.Covered H store lag)
    (hfits : Fits H store lag w m) (hw : w.step H store m = some w') :
    w'.Covered H store lag ∧ w.ledger.Step w'.ledger := by
  cases m with
  | tick clock =>
    simp only [SharedBoundary.step, Option.ite_none_right_eq_some, Option.some.injEq] at hw
    obtain ⟨hclock, rfl⟩ := hw
    exact ⟨h.tick hclock, .refl _⟩
  | decide input random =>
    refine ⟨h.decide hw, ?_⟩
    rw [ledger_decide hw]
    exact .refl _
  | invoke gw env inv stamp =>
    refine ⟨h.invoke hw, ?_⟩
    rw [ledger_invoke hw]
    exact .refl _
  | insert i delivered => exact h.insert hfits hw
  | giveUp i =>
    obtain ⟨gw, inv, sentAt, tool, report, flying, ht, rfl⟩ := giveUp_cases hw
    refine ⟨(h.keeps (fun _ _ he => Or.inl he) flying).set i (by rintro _ _ ⟨⟩) w.executions, ?_⟩
    have hlost : SharedTask.claim
        ⟨gw, inv, sentAt, .answered (.consuming tool report .unavailable)⟩ =
          SharedTask.claim ⟨gw, inv, sentAt, .inserting tool report⟩ := rfl
    have hclaim := Ledger.claims_set_eq SharedTask.claim ht hlost
    simp only [ledger, hclaim]
    exact .refl _
  | late key value =>
    simp only [SharedBoundary.step, Option.ite_none_right_eq_some, Option.some.injEq] at hw
    obtain ⟨_, rfl⟩ := hw
    exact ⟨h.keeps (w.memory.keeps_insertIfAbsent _ _ _ _) _, .refl _⟩
  | forget key =>
    simp only [SharedBoundary.step, Option.ite_none_right_eq_some, Option.some.injEq] at hw
    obtain ⟨hmay, rfl⟩ := hw
    exact ⟨h.keeps hmay.keeps w.flying, .refl _⟩
  | resume i stamp =>
    obtain ⟨t, ht, rfl⟩ := Option.map_eq_some_iff.mp hw
    refine ⟨h.set i ?_ _, ?_⟩
    · intro tool report hstage
      rw [SharedTask.resume_of_inserting hstage]
      exact List.mem_of_getElem? ht
    · simp only [ledger, List.map_append, ← Option.toList_map]
      exact Ledger.Step.resume ht (t.claim_resume stamp) (t.token_resume stamp)
  | finish i answer stamp failure =>
    obtain ⟨t, ht, rfl⟩ := Option.map_eq_some_iff.mp hw
    refine ⟨h.set i ?_ w.executions, ?_⟩
    · intro tool report hstage
      rw [SharedTask.finish_of_inserting hstage]
      exact List.mem_of_getElem? ht
    · simp only [ledger,
        Ledger.claims_set_eq SharedTask.claim ht (t.claim_finish answer stamp failure)]
      exact .refl _

/-! ## At most once -/

/-- At-most-once execution with a store that forgets. In every run whose winning insertions
fit, at most one execution happens for a nonce of an audience, whenever decisions are made and
invocations arrive. -/
theorem at_most_once_of_fits {w : SharedBoundary}
    (h : (system H store).RunWhere (Fits H store lag) w) (audience nonce : String) :
    (w.executions.filter fun e => e.token = (audience, nonce)).length ≤ 1 := by
  have hfired := Ledger.nodup_fired_of_runWhere (Covered H store lag) ledger ?_ ?_ h
  · have hcount := List.nodup_iff_count_le_one.mp (Multiset.coe_nodup.mp hfired) (audience, nonce)
    rw [List.count, List.countP_map, List.countP_eq_length_filter] at hcount
    simpa only [Function.comp_def, beq_eq_decide] using hcount
  · rintro s ⟨clock, memory, rfl⟩
    exact ⟨covered_start clock memory, Ledger.sound_empty rfl rfl⟩
  · intro s m s' hs hfits hstep
    exact hs.step hfits hstep

/-! ## Runs on the reference host -/

open Reference ToolGateway

/-- The moment `ms` milliseconds into 2026, on the clock all parties read. -/
def instant (ms : Int) : ℚ := (1767225600000 + ms : Int)

/-- A store that remembers for five minutes. -/
def fiveMinutes : SharedNonceStore := { ttlMs := 300000, positive := by norm_num }

/-- A request is decided after one minute, and presented and executed after two. Five minutes
later its nonce is forgotten, and it is presented again. -/
def presentTwice (r : AuthorizationRequest) (s : Signed AuthorizationDecision)
    (again : List SharedMove) : List SharedMove :=
  [.decide { request := r, policy := payPolicy, facts := [], now := Reference.clock 60000 } [1],
    .tick (instant 120000),
    .invoke payGateway (payEnv (Reference.clock 120000)) (payInvocation r s) payAnswers.stamp,
    .insert 0 true, .resume 0 payAnswers.stamp, .tick (instant 420000),
    .forget (fiveMinutes.keyOf host "crm" "nonce-1"),
    .invoke payGateway (payEnv (Reference.clock 420000)) (payInvocation r s) payAnswers.stamp] ++
  again

/-- The end of that run, if every move is possible and meets the condition. -/
def presented (ok : SharedBoundary → SharedMove → Prop) [∀ w m, Decidable (ok w m)]
    (r : AuthorizationRequest) (again : List SharedMove) : Option SharedBoundary := do
  let s ← (payDecision r (Reference.clock 60000)).toOption
  (presentTwice r s again).foldlM (fun w m => if ok w m then w.step host fiveMinutes m else none)
    (start (instant 60000) fun _ => none)

/-- A run that reaches its end is a run of the system. -/
private theorem runWhere_of_presented {ok : SharedBoundary → SharedMove → Prop}
    [∀ w m, Decidable (ok w m)] {r : AuthorizationRequest} {again : List SharedMove}
    {w : SharedBoundary} (h : presented ok r again = some w) :
    (system host fiveMinutes).RunWhere ok w := by
  obtain ⟨s, _, h⟩ := Option.bind_eq_some_iff.mp h
  exact .foldlM (fun _ _ _ hstep => hstep) (.start ⟨_, _, rfl⟩) h

/-- The general result at work: a request that is presented again after its nonce was
forgotten has expired. -/
theorem at_most_once_of_fits_forgotten : ∃ w, presented (Fits host fiveMinutes 2000)
      timelyRequest [] = some w ∧ w.executions.length = 1 ∧
    ∀ audience nonce, (w.executions.filter fun e => e.token = (audience, nonce)).length ≤ 1 := by
  have hrun : (presented (Fits host fiveMinutes 2000) timelyRequest []).map
      (fun w => w.executions.length) = some 1 := by decide +kernel
  obtain ⟨w, hw, hlength⟩ := Option.map_eq_some_iff.mp hrun
  exact ⟨w, hw, hlength, at_most_once_of_fits (runWhere_of_presented hw)⟩

/-- Every window that is a real interval is shorter than the time to live, and yet a nonce is
executed for twice. -/
theorem executed_again : ∃ w, (system host fiveMinutes).RunWhere (WindowsFit host fiveMinutes) w ∧
    ¬(w.executions.filter fun e => e.token = ("crm", "nonce-1")).length ≤ 1 := by
  have hrun : (presented (WindowsFit host fiveMinutes) endlessRequest
      [.insert 1 true, .resume 1 payAnswers.stamp]).map
        (fun w => (w.executions.filter fun e => e.token = ("crm", "nonce-1")).length) = some 2 := by
    decide +kernel
  obtain ⟨w, hw, hlength⟩ := Option.map_eq_some_iff.mp hrun
  refine ⟨w, runWhere_of_presented hw, ?_⟩
  rw [hlength]
  decide

end CoolSdk.SharedBoundary
