import CoolSdk.Authz.Mediation

/-!
# Authority at enforcement time

A verified decision, and an executed one, rest on the requester's standing and on the
parties and windows of the chain it relies on. All of these are judged at `decided_at`, in
enforcement mode too. They hold at the moment of enforcement exactly when none of them has
changed between the two moments.
-/

namespace CoolSdk

section

variable (H : Host)

/-- No bound of a delegation's window excludes a moment. -/
structure Delegation.OpenAt (d : Delegation) (at_ : JsNumber) : Prop where
  started : at_.lt (dateNumber H d.notBefore) = false
  notExpired : (dateNumber H d.expiresAt).lt at_ = false

/-- The principals a request rests on: its own, and those of a chain. -/
def partiesOf (r : AuthorizationRequest) (chain : List (Signed Delegation)) : List String :=
  r.principal :: chain.flatMap fun s => [s.body.delegator, s.body.delegate]

/-- The chain a request relies on: the one presented, if it names a delegation. -/
def reliedOn (r : AuthorizationRequest) (chain : Option (List (Signed Delegation))) :
    List (Signed Delegation) :=
  if (nonEmpty r.delegation).isSome then chain.getD [] else []

/-- The authority behind a request stands at a moment. -/
structure AuthorityAt (dir : PrincipalDirectory) (r : AuthorizationRequest)
    (chain : List (Signed Delegation)) (at_ : JsNumber) : Prop where
  active : ∀ p ∈ partiesOf r chain, dir.ActiveAt H p at_
  windows : ∀ s ∈ chain, s.body.OpenAt H at_

/-- The lifecycle events of a principal that are replayed at a moment. -/
def PrincipalEntry.eventsUpTo (e : PrincipalEntry) (at_ : JsNumber) : List PrincipalEvent :=
  e.events.takeWhile fun ev => !at_.lt (dateNumber H ev.at_)

/-- Those that are replayed at one moment and not yet at an earlier one. -/
def PrincipalEntry.eventsBetween (e : PrincipalEntry) (a b : JsNumber) : List PrincipalEvent :=
  (e.events.dropWhile fun ev => !a.lt (dateNumber H ev.at_)).takeWhile
    fun ev => !b.lt (dateNumber H ev.at_)

/-- The last kind among events that suspends or reinstates. -/
def lastMark (events : List PrincipalEvent) : Option PrincipalEventKind :=
  ((events.map PrincipalEvent.kind).filter fun k => k = .suspended ∨ k = .reinstated).getLast?

/-- Events after which an active principal is active: none of them ends it, and the last that
suspends or reinstates it, if any does, reinstates it. -/
structure LeavesActive (events : List PrincipalEvent) : Prop where
  unended : ∀ ev ∈ events, ¬DirectoryHistory.Terminal ev.kind
  unsuspended : lastMark events ≠ some .suspended

/-- Nothing happens to a principal between two moments that its standing rests on: neither its
creation nor its expiry lies between them, and the events between them leave it active. Where
the second moment is the earlier one, the events up to it leave the principal active. -/
structure PrincipalEntry.Undisturbed (e : PrincipalEntry) (a b : JsNumber) : Prop where
  created : b.lt (dateNumber H e.record.createdAt) = a.lt (dateNumber H e.record.createdAt)
  expiry : ∀ u, nonEmpty e.record.expiresAt = some u →
    (dateNumber H u).lt b = (dateNumber H u).lt a
  forward : a.le b = true → LeavesActive (e.eventsBetween H a b)
  backward : a.le b = false → LeavesActive (e.eventsUpTo H b)

/-- Nothing happens to the authority of a request between two moments: no party is disturbed,
and no bound of a window lies between them. -/
structure Undisturbed (dir : PrincipalDirectory) (r : AuthorizationRequest)
    (chain : List (Signed Delegation)) (a b : JsNumber) : Prop where
  parties : ∀ p ∈ partiesOf r chain, ∀ e, dir.entries.get p = some e → e.Undisturbed H a b
  started : ∀ s ∈ chain, b.lt (dateNumber H s.body.notBefore) = a.lt (dateNumber H s.body.notBefore)
  ended : ∀ s ∈ chain, (dateNumber H s.body.expiresAt).lt b = (dateNumber H s.body.expiresAt).lt a

end

variable {H : Host}

/-! ## What keeps a principal active -/

private theorem lastMark_concat (events : List PrincipalEvent) (ev : PrincipalEvent) :
    lastMark (events ++ [ev]) =
      if ev.kind = .suspended ∨ ev.kind = .reinstated then some ev.kind else lastMark events := by
  by_cases hk : ev.kind = .suspended ∨ ev.kind = .reinstated
  · simp [lastMark, hk]
  · simp [lastMark, hk]

/-- The standing after events, read off the events: ended, suspended by the last of them that
suspends or reinstates, or active. -/
private theorem status_foldl {st : Standing} (h : st.status = .active)
    (events : List PrincipalEvent) :
    ((events.foldl Standing.apply st).status = .active ↔
        (∀ ev ∈ events, ¬DirectoryHistory.Terminal ev.kind) ∧
          lastMark events ≠ some .suspended) ∧
      ((events.foldl Standing.apply st).status = .suspended ↔
        (∀ ev ∈ events, ¬DirectoryHistory.Terminal ev.kind) ∧
          lastMark events = some .suspended) := by
  induction events using List.reverseRecOn with
  | nil => simp [h, lastMark]
  | append_singleton events ev ih =>
    obtain ⟨hactive, hsuspended⟩ := ih
    rw [List.foldl_append, List.foldl_cons, List.foldl_nil, lastMark_concat]
    simp only [List.forall_mem_append, List.forall_mem_singleton]
    cases hk : ev.kind with
    | keyBound =>
      have hstatus : ((events.foldl Standing.apply st).apply ev).status =
          (events.foldl Standing.apply st).status := by
        simp only [Standing.apply, hk]
        split <;> rfl
      simp [hstatus, hactive, hsuspended, DirectoryHistory.Terminal]
    | keyRetired =>
      have hstatus : ((events.foldl Standing.apply st).apply ev).status =
          (events.foldl Standing.apply st).status := by
        simp only [Standing.apply, hk]
        split <;> rfl
      simp [hstatus, hactive, hsuspended, DirectoryHistory.Terminal]
    | suspended =>
      by_cases hs : (events.foldl Standing.apply st).status = .active
      · simp_all [Standing.apply, DirectoryHistory.Terminal]
      · by_cases hm : lastMark events = some .suspended <;>
          simp_all [Standing.apply, DirectoryHistory.Terminal]
    | reinstated =>
      by_cases hs : (events.foldl Standing.apply st).status = .suspended
      · simp_all [Standing.apply, DirectoryHistory.Terminal]
      · by_cases hm : lastMark events = some .suspended <;>
          simp_all [Standing.apply, DirectoryHistory.Terminal]
    | revoked => simp [Standing.apply, hk, DirectoryHistory.Terminal]
    | decommissioned => simp [Standing.apply, hk, DirectoryHistory.Terminal]

/-- An active standing stays active through events exactly when they leave it so. -/
theorem status_foldl_active_iff {st : Standing} (h : st.status = .active)
    (events : List PrincipalEvent) :
    (events.foldl Standing.apply st).status = .active ↔ LeavesActive events :=
  (status_foldl h events).1.trans ⟨fun ⟨hu, hm⟩ => ⟨hu, hm⟩, fun hl => ⟨hl.unended, hl.unsuspended⟩⟩

/-- When an enrolled principal is active: it has been created and has not expired, and the
events up to the moment leave it active. -/
theorem activeAt_iff {dir : PrincipalDirectory} {p : String} {e : PrincipalEntry} {at_ : JsNumber}
    (hget : dir.entries.get p = some e) :
    dir.ActiveAt H p at_ ↔ at_.lt (dateNumber H e.record.createdAt) = false ∧
      (∀ u, nonEmpty e.record.expiresAt = some u → (dateNumber H u).lt at_ = false) ∧
        LeavesActive (e.eventsUpTo H at_) := by
  by_cases hborn : at_.lt (dateNumber H e.record.createdAt) = true
  · have hunknown : (dir.stateAt H p at_).known = false := by
      simp only [PrincipalDirectory.stateAt, hget, hborn, if_true]
    constructor
    · intro h
      have hknown := h.known
      rw [hunknown] at hknown
      cases hknown
    · rintro ⟨h, _⟩
      rw [hborn] at h
      cases h
  · rw [Bool.not_eq_true] at hborn
    have hstate : dir.stateAt H p at_ =
        let standing := (e.eventsUpTo H at_).foldl Standing.apply
          { status := .active, keys := .ofList (e.record.keys.map fun k => (k.keyId, k.entry)) }
        { known := true, status := standing.status, record := some e.record,
          keys := standing.keys } := by
      simp only [PrincipalDirectory.stateAt, hget, hborn, Bool.false_eq_true, if_false,
        replayUntil_eq_foldl, PrincipalEntry.eventsUpTo]
    have hexpired : PrincipalDirectory.expired H (dir.stateAt H p at_) at_ = false ↔
        ∀ u, nonEmpty e.record.expiresAt = some u → (dateNumber H u).lt at_ = false := by
      rw [hstate]
      cases hu : nonEmpty e.record.expiresAt <;>
        simp [PrincipalDirectory.expired, hu]
    have hstatus : (dir.stateAt H p at_).status = .active ↔ LeavesActive (e.eventsUpTo H at_) := by
      rw [hstate]
      exact status_foldl_active_iff rfl _
    have hknown : (dir.stateAt H p at_).known = true := by rw [hstate]
    constructor
    · intro h
      exact ⟨hborn, hexpired.mp h.unexpired, hstatus.mp h.status⟩
    · rintro ⟨_, hx, hs⟩
      exact ⟨hknown, hexpired.mpr hx, hstatus.mpr hs⟩

/-- The events up to a later moment are those up to the earlier one and those between. -/
theorem eventsUpTo_eq_append {e : PrincipalEntry} {a b : JsNumber} (hab : a.le b = true) :
    e.eventsUpTo H b = e.eventsUpTo H a ++ e.eventsBetween H a b := by
  refine takeWhile_eq_append ?_ e.events
  intro ev hev
  by_contra hlate
  simp only [Bool.not_eq_true', Bool.not_eq_false] at hev hlate
  rw [JsNumber.lt_of_le_of_lt hab hlate] at hev
  cases hev

/-- A principal active at one moment is active at another exactly when it is not disturbed. -/
theorem activeAt_iff_undisturbed {dir : PrincipalDirectory} {p : String} {e : PrincipalEntry}
    {a b : JsNumber} (hget : dir.entries.get p = some e) (h : dir.ActiveAt H p a) :
    dir.ActiveAt H p b ↔ e.Undisturbed H a b := by
  obtain ⟨hborn, hlives, hactive⟩ := (activeAt_iff hget).mp h
  have hevents : LeavesActive (e.eventsUpTo H b) ↔
      (a.le b = true → LeavesActive (e.eventsBetween H a b)) ∧
        (a.le b = false → LeavesActive (e.eventsUpTo H b)) := by
    cases hab : a.le b with
    | false => simp
    | true =>
      have hempty : ({ status := .active, keys := .empty } : Standing).status = .active := rfl
      have hstart : ((e.eventsUpTo H a).foldl Standing.apply
          { status := .active, keys := .empty }).status = .active :=
        (status_foldl_active_iff hempty _).mpr hactive
      rw [← status_foldl_active_iff hempty,
        eventsUpTo_eq_append hab, List.foldl_append, status_foldl_active_iff hstart]
      simp
  rw [activeAt_iff hget, hevents]
  constructor
  · rintro ⟨hb, hx, hforward, hbackward⟩
    exact ⟨hb.trans hborn.symm, fun u hu => (hx u hu).trans (hlives u hu).symm, hforward, hbackward⟩
  · intro hu
    exact ⟨hu.created.trans hborn, fun u hn => (hu.expiry u hn).trans (hlives u hn), hu.forward,
      hu.backward⟩

/-- Authority that stands at one moment stands at another exactly when nothing happens to it
between the two. -/
theorem AuthorityAt.iff_undisturbed {dir : PrincipalDirectory} {r : AuthorizationRequest}
    {chain : List (Signed Delegation)} {a b : JsNumber} (h : AuthorityAt H dir r chain a) :
    AuthorityAt H dir r chain b ↔ Undisturbed H dir r chain a b := by
  have hknown : ∀ p ∈ partiesOf r chain, ∃ e, dir.entries.get p = some e := by
    intro p hp
    cases hget : dir.entries.get p with
    | some e => exact ⟨e, rfl⟩
    | none =>
      have hknown := (h.active p hp).known
      simp only [PrincipalDirectory.stateAt, hget, Bool.false_eq_true] at hknown
  constructor
  · intro hb
    exact
      { parties := fun p hp e he =>
          (activeAt_iff_undisturbed he (h.active p hp)).mp (hb.active p hp)
        started := fun s hs => (hb.windows s hs).started.trans (h.windows s hs).started.symm
        ended := fun s hs => (hb.windows s hs).notExpired.trans (h.windows s hs).notExpired.symm }
  · intro hu
    refine ⟨?_, ?_⟩
    · intro p hp
      obtain ⟨e, he⟩ := hknown p hp
      exact (activeAt_iff_undisturbed he (h.active p hp)).mpr (hu.parties p hp e he)
    · intro s hs
      exact ⟨(hu.started s hs).trans (h.windows s hs).started,
        (hu.ended s hs).trans (h.windows s hs).notExpired⟩

/-! ## What a verified and an executed decision establish -/

/-- A link that is not refused for its window is open. -/
theorem openAt_of_windowRefusal {o : ChainOptions} {d : Delegation}
    (h : windowRefusal H o d = none) : d.OpenAt H o.at_ := by
  unfold windowRefusal at h
  split_ifs at h with hrevoked hbefore hafter
  exact ⟨by simpa using hbefore, by simpa using hafter⟩

/-- The checks of a report that bear on authority, when they pass: the authority stood at
`decided_at`. -/
theorem authority_of_reported {s : Signed AuthorizationDecision} {o : VerifyDecisionOptions}
    {report : DecisionReport} (hr : Reported H s o report)
    (hprincipal : report.checks.principalState.status = .pass)
    (hdelegation : (nonEmpty o.request.delegation).isSome = true →
      report.checks.delegation.status = .pass) :
    ∃ dir, o.directory = some dir ∧
      AuthorityAt H dir o.request (reliedOn o.request (o.delegation.map ChainOffer.chain))
        (dateNumber H s.body.decidedAt) := by
  obtain ⟨dir, hdir, husable⟩ := usable_of_principalStateCheck hr.principalState hprincipal
  refine ⟨dir, hdir, ?_⟩
  cases hn : nonEmpty o.request.delegation with
  | none =>
    have hchain : reliedOn o.request (o.delegation.map ChainOffer.chain) = [] := by
      simp only [reliedOn, hn, Option.isSome_none, Bool.false_eq_true, if_false]
    rw [hchain]
    refine ⟨?_, fun s hs => absurd hs List.not_mem_nil⟩
    intro p hp
    rw [List.mem_singleton.mp hp]
    exact husable.active
  | some named =>
    obtain ⟨offer, dir', hoffer, hdir', _, hverify⟩ :=
      chain_of_delegationCheck hr.delegation (hdelegation (by rw [hn]; rfl)) hn
    have hchain : reliedOn o.request (o.delegation.map ChainOffer.chain) = offer.chain := by
      simp only [reliedOn, hn, hoffer, Option.isSome_some, if_true, Option.map_some,
        Option.getD_some]
    obtain rfl : dir = dir' := Option.some.inj (hdir.symm.trans hdir')
    have hlinks := (chainAccepted_of_verifyDelegationChain hverify
      (hdelegation (by rw [hn]; rfl))).links
    rw [hchain]
    refine ⟨?_, fun s hs => openAt_of_windowRefusal (hlinks s hs).window⟩
    intro p hp
    rcases List.mem_cons.mp hp with rfl | hp
    · exact husable.active
    · obtain ⟨s, hs, hp⟩ := List.mem_flatMap.mp hp
      rcases List.mem_cons.mp hp with rfl | hp
      · exact (hlinks s hs).delegator.active
      · rw [List.mem_singleton.mp hp]
        exact (hlinks s hs).delegate.active

/-- A report is verified only when every check of it was accepted. -/
theorem accepted_of_verified {s : Signed AuthorizationDecision} {o : VerifyDecisionOptions}
    {report : DecisionReport} (hr : Reported H s o report) (h : report.outcome = .verified) :
    report.checks.principalState.accepted = true ∧ report.checks.delegation.accepted = true := by
  rw [hr.outcome, classifyOutcome_verified_iff] at h
  have hstate : Entries.get report.checks.entries "principal_state" =
      some report.checks.principalState := rfl
  have hdelegation : Entries.get report.checks.entries "delegation" =
      some report.checks.delegation := rfl
  exact ⟨h.of_get _ (List.mem_map_of_mem (Entries.mem_of_get hstate)) hstate,
    h.of_get _ (List.mem_map_of_mem (Entries.mem_of_get hdelegation)) hdelegation⟩

/-- An invocation let through to the store rests on authority that stood at `decided_at`. -/
theorem authority_of_screen {gw : ToolGateway} {env : Surroundings} {inv : Invocation}
    {tool : ToolDefinition} {report : DecisionReport}
    (h : gw.screen H env inv = .ok (.consume tool report)) :
    ∃ dir, gw.directory = some dir ∧
      AuthorityAt H dir inv.request (reliedOn inv.request inv.delegation)
        (dateNumber H inv.decision.body.decidedAt) := by
  obtain ⟨_, _, _, _, _, amount, _, hverify, hscreen⟩ := ToolGateway.screen_consume h
  obtain ⟨_, _, hopen, hnamed, _, _⟩ := ToolGateway.screenReport_consume hscreen
  have hr := reported_of_verifyDecision hverify
  have hstate : report.checks.principalState.status = .pass := by
    have hunblocked := hopen ("principal_state", report.checks.principalState)
      (by simp only [DecisionChecks.entries, List.mem_cons, true_or, or_true])
    exact ToolGateway.pass_of_blocks hunblocked rfl
      (principalStateCheck_ne_notApplicable hr.principalState)
  have hchain : ((gw.decisionOptions env inv amount).delegation.map ChainOffer.chain) =
      inv.delegation := by
    cases hd : inv.delegation <;> simp [ToolGateway.decisionOptions, hd]
  rw [← hchain]
  exact authority_of_reported hr hstate hnamed

/-- Authority at enforcement time. Where `verifyDecision` reports `verified`, and where a tool
runs, the authority behind the request stands at that moment exactly when nothing has happened
to it since `decided_at`. -/
theorem authority_now_iff :
    (∀ (s : Signed AuthorizationDecision) (o : VerifyDecisionOptions) (report : DecisionReport),
      verifyDecision H s o = .ok report → report.outcome = .verified →
        ∃ dir, o.directory = some dir ∧
          (AuthorityAt H dir o.request (reliedOn o.request (o.delegation.map ChainOffer.chain))
              o.now ↔
            Undisturbed H dir o.request
              (reliedOn o.request (o.delegation.map ChainOffer.chain))
              (dateNumber H s.body.decidedAt) o.now)) ∧
      ∀ (gw : ToolGateway) (env : Surroundings) (inv : Invocation) (answers : ToolGateway.Answers)
        (call : ToolGateway.ToolCall), (gw.invoke H env inv answers).called = some call →
          ∃ dir, gw.directory = some dir ∧
            (AuthorityAt H dir inv.request (reliedOn inv.request inv.delegation) env.now ↔
              Undisturbed H dir inv.request (reliedOn inv.request inv.delegation)
                (dateNumber H inv.decision.body.decidedAt) env.now) := by
  refine ⟨?_, ?_⟩
  · intro s o report hverify hverified
    have hr := reported_of_verifyDecision hverify
    obtain ⟨hstate, hdelegation⟩ := accepted_of_verified hr hverified
    have hpass : ∀ {c : Check}, c.accepted = true → c.status ≠ .notApplicable →
        c.status = .pass := by
      intro c hc hna
      simpa only [Check.accepted, Bool.or_eq_true, decide_eq_true_eq, hna, or_false] using hc
    obtain ⟨dir, hdir, hauthority⟩ := authority_of_reported hr
      (hpass hstate (principalStateCheck_ne_notApplicable hr.principalState)) fun hnamed =>
        hpass hdelegation (delegationCheck_ne_notApplicable hr.delegation hnamed)
    exact ⟨dir, hdir, hauthority.iff_undisturbed⟩
  · intro gw env inv answers call hcall
    obtain ⟨⟨report, hscreen⟩, _, _⟩ := ToolGateway.screen_of_called hcall
    obtain ⟨dir, hdir, hauthority⟩ := authority_of_screen hscreen
    exact ⟨dir, hdir, hauthority.iff_undisturbed⟩

/-! ## A payment of a revoked agent on the reference host -/

open Reference ToolGateway

/-- The issuer revokes the paying agent half a minute after its payment was decided. -/
def payerRevocation : Signed PrincipalEvent :=
  signed "cool.principal-event.v1"
    { eventId := "e-1", principalId := "agent-2", kind := .revoked
      at_ := "2026-01-01T00:01:30.000Z" } DirectoryHistory.issuerKey

/-- The directory of the parties after the revocation. -/
def revokedDirectory : PrincipalDirectory :=
  match partiesDirectory.apply host payerRevocation with
  | .ok (_, dir) => dir
  | .error _ => partiesDirectory

/-- The gateway of the payment over a directory. -/
def payGatewayOver (dir : PrincipalDirectory) : ToolGateway :=
  { payGateway with directory := some dir }

/-- Whether the payment is verified and executed two minutes into the year over a directory. -/
def paysOver (dir : PrincipalDirectory) : Except String (Bool × Bool) := do
  let s ← payDecision timelyRequest (Reference.clock 60000)
  let env := payEnv (Reference.clock 120000)
  let inv := payInvocation timelyRequest s
  let report ← verifyDecision host s ((payGatewayOver dir).decisionOptions env inv none)
  .ok (decide (report.outcome = .verified),
    ((payGatewayOver dir).invoke host env inv payAnswers).called.isSome)

/-- What is behind a payment that is verified and executed over a directory. -/
private theorem verified_of_paysOver (dir : PrincipalDirectory)
    (h : paysOver dir = .ok (true, true)) :
    ∃ s report call, payDecision timelyRequest (Reference.clock 60000) = .ok s ∧
      verifyDecision host s ((payGatewayOver dir).decisionOptions (payEnv (Reference.clock 120000))
        (payInvocation timelyRequest s) none) = .ok report ∧ report.outcome = .verified ∧
      ((payGatewayOver dir).invoke host (payEnv (Reference.clock 120000))
        (payInvocation timelyRequest s) payAnswers).called = some call := by
  obtain ⟨s, hs, h⟩ := bind_eq_ok.mp h
  obtain ⟨report, hreport, h⟩ := bind_eq_ok.mp h
  obtain ⟨hverified, hcalled⟩ := Prod.mk.inj (Except.ok.inj h)
  obtain ⟨call, hcall⟩ := Option.isSome_iff_exists.mp hcalled
  exact ⟨s, report, call, hs, hreport, of_decide_eq_true hverified, hcall⟩

/-- The general result at work on the payment over the directory of the parties. -/
theorem authority_now_iff_payment : ∃ s call,
    payDecision timelyRequest (Reference.clock 60000) = .ok s ∧
      ((payGatewayOver partiesDirectory).invoke host (payEnv (Reference.clock 120000))
        (payInvocation timelyRequest s) payAnswers).called = some call ∧
      (∃ dir, some partiesDirectory = some dir ∧
        (AuthorityAt host dir timelyRequest (reliedOn timelyRequest (some crossChain))
            (Reference.clock 120000) ↔
          Undisturbed host dir timelyRequest (reliedOn timelyRequest (some crossChain))
            (dateNumber host s.body.decidedAt) (Reference.clock 120000))) ∧
      ∃ dir, some partiesDirectory = some dir ∧
        (AuthorityAt host dir timelyRequest (reliedOn timelyRequest (some crossChain))
            (Reference.clock 120000) ↔
          Undisturbed host dir timelyRequest (reliedOn timelyRequest (some crossChain))
            (dateNumber host s.body.decidedAt) (Reference.clock 120000)) := by
  obtain ⟨s, report, call, hs, hreport, hverified, hcall⟩ :=
    verified_of_paysOver partiesDirectory (by decide +kernel)
  exact ⟨s, call, hs, hcall, authority_now_iff.1 _ _ report hreport hverified,
    authority_now_iff.2 _ _ _ _ call hcall⟩

/-- The payment of an agent that was revoked after the decision is verified and executed. -/
theorem revoked_pays : ∃ s report call,
    payDecision timelyRequest (Reference.clock 60000) = .ok s ∧
      verifyDecision host s ((payGatewayOver revokedDirectory).decisionOptions
        (payEnv (Reference.clock 120000)) (payInvocation timelyRequest s) none) = .ok report ∧
      report.outcome = .verified ∧
      ((payGatewayOver revokedDirectory).invoke host (payEnv (Reference.clock 120000))
        (payInvocation timelyRequest s) payAnswers).called = some call ∧
      ¬revokedDirectory.ActiveAt host timelyRequest.principal (Reference.clock 120000) := by
  obtain ⟨s, report, call, hs, hreport, hverified, hcall⟩ :=
    verified_of_paysOver revokedDirectory (by decide +kernel)
  refine ⟨s, report, call, hs, hreport, hverified, hcall, ?_⟩
  intro hactive
  have hstatus := hactive.status
  revert hstatus
  decide +kernel

end CoolSdk
