import CoolSdk.Authz.Principal
import CoolSdk.Authz.ReferenceSigning
import CoolSdk.Core.Transition
import Mathlib.Data.List.Induction

/-!
# Histories of a directory

A directory together with everything it has accepted so far, driven by arbitrary
records and events in any order. Three facts hold in every history: each accepted
event is kept, each kept event was accepted, and events that all carry a time are in
time order. From them: once a terminal event up to a moment has been accepted, no
event can make the principal usable at that moment, provided the times parse.
-/

namespace CoolSdk

/-- One input of a directory, with the clock reading it arrives at. -/
inductive DirectoryInput
  | enroll (now : JsNumber) (s : Signed PrincipalRecord)
  | apply (now : JsNumber) (s : Signed PrincipalEvent)

/-- A directory with the records and events it has accepted, oldest first. -/
structure DirectoryHistory where
  directory : PrincipalDirectory
  records : List (JsNumber × Signed PrincipalRecord)
  events : List (JsNumber × Signed PrincipalEvent)

namespace DirectoryHistory

/-- The history of a new directory. -/
def start (trust : TrustStore) : DirectoryHistory :=
  { directory := .new trust, records := [], events := [] }

variable (H : Host)

/-- Hand one input to the directory and note whether it was accepted. A call that throws
leaves everything as it was. -/
def deliver (h : DirectoryHistory) : DirectoryInput → DirectoryHistory
  | .enroll now s =>
    match h.directory.enroll H now s with
    | .error _ => h
    | .ok (c, directory) =>
      { h with
        directory
        records := if c.status = .pass then h.records ++ [(now, s)] else h.records }
  | .apply now s =>
    match h.directory.apply H s with
    | .error _ => h
    | .ok (c, directory) =>
      { h with
        directory
        events := if c.status = .pass then h.events ++ [(now, s)] else h.events }

/-- The runs of a directory over a trust store. -/
def system (trust : TrustStore) : TransitionSystem DirectoryHistory DirectoryInput where
  init h := h = start trust
  step h input h' := h' = h.deliver H input

/-- Every list of inputs drives a run. -/
theorem reachable_foldl (trust : TrustStore) (inputs : List DirectoryInput) :
    (system H trust).Reachable (inputs.foldl (deliver H) (start trust)) :=
  TransitionSystem.reachable_foldl (fun _ _ => rfl) rfl inputs

variable {H}

/-- What one input can do: nothing, enrol a new principal, or add an event to one. -/
theorem deliver_cases (h : DirectoryHistory) (input : DirectoryInput) :
    h.deliver H input = h ∨
      (∃ now s, input = .enroll now s ∧ s.body.issuer = s.signature.keyId ∧
        (∃ k, h.directory.trust.get s.signature.keyId = some k ∧
          SignedUnder H "cool.principal.v1" s k.entry ∧
          (h.directory.trust.evaluate H
            { keyId := s.signature.keyId, purpose := .identityIssuer, now }).status = .pass) ∧
        h.directory.entries.get s.body.principalId = none ∧
        h.deliver H input =
          { directory := { h.directory with entries := (h.directory.entries.set
              s.body.principalId { record := s.body, events := [] }) }
            records := h.records ++ [(now, s)]
            events := h.events }) ∨
      (∃ now s e, input = .apply now s ∧ h.directory.entries.get s.body.principalId = some e ∧
        s.signature.keyId = e.record.issuer ∧
        SignedUnder H "cool.principal-event.v1" s
          (((h.directory.trust.get e.record.issuer).map KeyRecord.entry).getD s.signer) ∧
        h.deliver H input =
          { directory := { h.directory with entries := (h.directory.entries.set
              s.body.principalId { e with
                events := H.sort (PrincipalDirectory.compareEvents H) (e.events ++ [s.body]) }) }
            records := h.records
            events := h.events ++ [(now, s)] }) := by
  cases input with
  | enroll now s =>
    cases he : h.directory.enroll H now s with
    | error err => exact Or.inl (by simp only [deliver, he])
    | ok r =>
      obtain ⟨c, directory⟩ := r
      rcases PrincipalDirectory.enroll_cases he with ⟨hc, rfl⟩ | ⟨hc, hi, ht, hn, rfl⟩
      · exact Or.inl (by simp only [deliver, he, hc, if_false])
      · refine Or.inr (Or.inl ⟨now, s, rfl, hi, ht, hn, ?_⟩)
        simp only [deliver, he, hc, if_true]
  | apply now s =>
    cases ha : h.directory.apply H s with
    | error err => exact Or.inl (by simp only [deliver, ha])
    | ok r =>
      obtain ⟨c, directory⟩ := r
      rcases PrincipalDirectory.apply_cases ha with ⟨hc, rfl⟩ | ⟨hc, e, he, hk, hs, rfl⟩
      · exact Or.inl (by simp only [deliver, ha, hc, if_false])
      · refine Or.inr (Or.inr ⟨now, s, e, rfl, he, hk, hs, ?_⟩)
        simp only [deliver, ha, hc, if_true]

/-- The time of an event, when it has one. -/
def eventTime (H : Host) (ev : PrincipalEvent) : Int := (H.dateParse ev.at_).getD 0

/-- The event's time parses. -/
def Timed (H : Host) (ev : PrincipalEvent) : Prop := (H.dateParse ev.at_).isSome

instance (ev : PrincipalEvent) : Decidable (Timed H ev) :=
  inferInstanceAs (Decidable ((H.dateParse ev.at_).isSome = true))

theorem Timed.dateNumber {ev : PrincipalEvent} (h : Timed H ev) :
    dateNumber H ev.at_ = .ofInt (eventTime H ev) := by
  obtain ⟨t, ht⟩ := Option.isSome_iff_exists.mp h
  simp only [CoolSdk.dateNumber, eventTime, ht, JsNumber.ofParsed_some, Option.getD_some]

/-- What a history keeps of one principal. -/
structure Keeps (H : Host) (p : String) (h : DirectoryHistory) : Prop where
  /-- Each accepted event is among the principal's events. -/
  kept : ∀ now s, (now, s) ∈ h.events → s.body.principalId = p →
    ∃ e, h.directory.entries.get p = some e ∧ s.body ∈ e.events
  /-- Each of the principal's events was accepted. -/
  accepted : ∀ e, h.directory.entries.get p = some e → ∀ ev ∈ e.events,
    ∃ now s, (now, s) ∈ h.events ∧ s.body.principalId = p ∧ s.body = ev
  /-- Events that all carry a time are in time order. -/
  sorted : ∀ e, h.directory.entries.get p = some e → (∀ ev ∈ e.events, Timed H ev) →
    e.events.Pairwise fun a b => eventTime H a ≤ eventTime H b

private theorem keeps_start (p : String) (trust : TrustStore) : Keeps H p (start trust) where
  kept _ _ h := by cases h
  accepted _ h := by cases h
  sorted _ h := by cases h

theorem compareEvents_timed {l : List PrincipalEvent} (h : ∀ ev ∈ l, Timed H ev) :
    ∀ a ∈ l, ∀ b ∈ l, PrincipalDirectory.compareEvents H a b =
      .sub (.ofInt (eventTime H a)) (.ofInt (eventTime H b)) := by
  intro a ha b hb
  rw [PrincipalDirectory.compareEvents, (h a ha).dateNumber, (h b hb).dateNumber]

/-- One input preserves what a history keeps of every principal. -/
theorem Keeps.deliver (hsort : SortLaws H) {p : String} {h : DirectoryHistory}
    (hk : Keeps H p h) (input : DirectoryInput) : Keeps H p (h.deliver H input) := by
  rcases deliver_cases (H := H) h input with
    he | ⟨now, s, _, _, _, hnone, he⟩ | ⟨now, s, e, _, hget, _, _, he⟩
  · rwa [he]
  · rw [he]
    by_cases hp : s.body.principalId = p
    · subst hp
      refine ⟨?_, ?_, ?_⟩
      · intro now' s' hmem hp'
        obtain ⟨e, hget, _⟩ := hk.kept now' s' hmem hp'
        rw [hnone] at hget
        cases hget
      all_goals
        intro e hget
        simp only [OrderedMap.get_set_self, Option.some.injEq] at hget
        subst hget
      · intro ev hev
        cases hev
      · intro _
        exact List.Pairwise.nil
    · have hframe := h.directory.entries.get_set_ne
        (PrincipalEntry.mk s.body []) hp
      exact ⟨fun now' s' hmem hp' => hframe ▸ hk.kept now' s' hmem hp',
        fun e hget => hk.accepted e (hframe ▸ hget), fun e hget => hk.sorted e (hframe ▸ hget)⟩
  · rw [he]
    have hperm := hsort.perm (PrincipalDirectory.compareEvents H) (e.events ++ [s.body])
    by_cases hp : s.body.principalId = p
    · subst hp
      refine ⟨?_, ?_, ?_⟩
      · intro now' s' hmem hp'
        refine ⟨_, OrderedMap.get_set_self _ _ _, hperm.mem_iff.mpr ?_⟩
        rcases List.mem_append.mp hmem with hold | hnew
        · obtain ⟨e', hget', hev⟩ := hk.kept now' s' hold hp'
          rw [hget, Option.some.injEq] at hget'
          exact List.mem_append_left _ (hget' ▸ hev)
        · obtain ⟨_, rfl⟩ := Prod.mk.inj (List.mem_singleton.mp hnew)
          exact List.mem_append_right _ (List.mem_singleton.mpr rfl)
      · intro e' hget' ev hev
        rw [OrderedMap.get_set_self, Option.some.injEq] at hget'
        subst hget'
        rcases List.mem_append.mp (hperm.mem_iff.mp hev) with hold | hnew
        · obtain ⟨now', s', hmem, hp', hbody⟩ := hk.accepted e hget ev hold
          exact ⟨now', s', List.mem_append_left _ hmem, hp', hbody⟩
        · exact ⟨now, s, List.mem_append_right _ (List.mem_singleton.mpr rfl), rfl,
            (List.mem_singleton.mp hnew).symm⟩
      · intro e' hget' htimed
        rw [OrderedMap.get_set_self, Option.some.injEq] at hget'
        subst hget'
        apply hsort.sorted
        apply compareEvents_timed
        intro ev hev
        exact htimed ev (hperm.mem_iff.mpr hev)
    · have hframe := h.directory.entries.get_set_ne { e with
        events := H.sort (PrincipalDirectory.compareEvents H) (e.events ++ [s.body]) } hp
      refine ⟨?_, ?_, fun e' hget' => hk.sorted e' (hframe ▸ hget')⟩
      · intro now' s' hmem hp'
        rcases List.mem_append.mp hmem with hold | hnew
        · exact hframe ▸ hk.kept now' s' hold hp'
        · obtain ⟨_, rfl⟩ := Prod.mk.inj (List.mem_singleton.mp hnew)
          exact absurd hp' hp
      · intro e' hget' ev hev
        obtain ⟨now', s', hmem, hp', hbody⟩ := hk.accepted e' (hframe ▸ hget') ev hev
        exact ⟨now', s', List.mem_append_left _ hmem, hp', hbody⟩

/-- Every history keeps its events. -/
theorem keeps_of_reachable (hsort : SortLaws H) {trust : TrustStore} {h : DirectoryHistory}
    (hr : (system H trust).Reachable h) (p : String) : Keeps H p h :=
  hr.invariant (fun _ hi => hi ▸ keeps_start p trust)
    fun _ input _ hk hs => hs ▸ hk.deliver hsort input

/-! ## Terminal events -/

/-- The kinds nothing comes back from. -/
def Terminal (kind : PrincipalEventKind) : Prop := kind = .revoked ∨ kind = .decommissioned

/-- The standing is one nothing comes back from. -/
def Ended (st : Standing) : Prop := st.status = .revoked ∨ st.status = .decommissioned

theorem absorbing_ended : Absorbing Standing.apply Ended := by
  intro st ev h
  have hactive : st.status ≠ .active := by
    rcases h with h | h <;> simp only [h, ne_eq, reduceCtorEq, not_false_eq_true]
  have hsuspended : st.status ≠ .suspended := by
    rcases h with h | h <;> simp only [h, ne_eq, reduceCtorEq, not_false_eq_true]
  cases hk : ev.kind with
  | keyBound =>
    simp only [Standing.apply, hk]
    split <;> exact h
  | keyRetired =>
    simp only [Standing.apply, hk]
    split <;> exact h
  | suspended => simpa only [Standing.apply, hk, Ended, hactive, if_false] using h
  | reinstated => simpa only [Standing.apply, hk, Ended, hsuspended, if_false] using h
  | revoked => exact Or.inl (by simp only [Standing.apply, hk])
  | decommissioned => exact Or.inr (by simp only [Standing.apply, hk])

theorem Terminal.ended {ev : PrincipalEvent} (h : Terminal ev.kind) (st : Standing) :
    Ended (st.apply ev) := by
  rcases h with h | h
  · exact Or.inl (by simp only [Standing.apply, h])
  · exact Or.inr (by simp only [Standing.apply, h])

/-- Where a principal's events are timed and one of them ended it by a moment, its state
there is neither active nor suspended. -/
theorem stateAt_ended {dir : PrincipalDirectory} {p : String} {e : PrincipalEntry}
    (hget : dir.entries.get p = some e) (htimed : ∀ ev ∈ e.events, Timed H ev)
    (hsorted : e.events.Pairwise fun a b => eventTime H a ≤ eventTime H b)
    {ev : PrincipalEvent} (hev : ev ∈ e.events) (hterm : Terminal ev.kind) {t : JsNumber}
    (ht : (JsNumber.ofInt (eventTime H ev)).le t = true) :
    (dir.stateAt H p t).status ≠ .active ∧ (dir.stateAt H p t).status ≠ .suspended := by
  unfold PrincipalDirectory.stateAt
  simp only [hget]
  by_cases hborn : t.lt (dateNumber H e.record.createdAt) = true
  · simp only [hborn, if_true, ne_eq, reduceCtorEq, not_false_eq_true, and_self]
  · rw [Bool.not_eq_true] at hborn
    simp only [hborn, Bool.false_eq_true, if_false]
    have hnow : t.lt (dateNumber H ev.at_) = false := by
      rw [(htimed ev hev).dateNumber]
      exact JsNumber.not_lt_of_le ht
    have hended := absorbing_ended.of_sorted (fun ev => t.lt (dateNumber H ev.at_))
      hsorted (by
        intro a ha b hb hab hlate
        rw [(htimed a ha).dateNumber] at hlate
        rw [(htimed b hb).dateNumber]
        exact JsNumber.lt_of_lt_of_le hlate (by simpa using hab)) hev hnow hterm.ended
    have hstatus := hended ⟨.active, .ofList (e.record.keys.map fun k => (k.keyId, k.entry))⟩
    rcases hstatus with hstatus | hstatus <;>
      simp only [hstatus, ne_eq, reduceCtorEq, not_false_eq_true, and_self]

/-- Revocation is terminal. In every history whose accepted events for a principal all carry
a time, once an event that revokes or decommissions it at a time up to `t` has been accepted,
the principal is neither active nor suspended at `t` and no check of it passes there. -/
theorem revocation_terminal (hsort : SortLaws H) {trust : TrustStore} {h : DirectoryHistory}
    (hr : (system H trust).Reachable h) {p : String}
    (htimed : ∀ now s, (now, s) ∈ h.events → s.body.principalId = p → Timed H s.body)
    {now : JsNumber} {s : Signed PrincipalEvent} (hs : (now, s) ∈ h.events)
    (hp : s.body.principalId = p) (hterm : Terminal s.body.kind) {t : JsNumber}
    (ht : (dateNumber H s.body.at_).le t = true) :
    (h.directory.stateAt H p t).status ≠ .active ∧
      (h.directory.stateAt H p t).status ≠ .suspended ∧
      ∀ keyId c, h.directory.check H p t keyId = .ok c → c.status ≠ .pass := by
  have hkeeps := keeps_of_reachable hsort hr p
  obtain ⟨e, hget, hev⟩ := hkeeps.kept now s hs hp
  have hall : ∀ ev ∈ e.events, Timed H ev := by
    intro ev hev
    obtain ⟨now', s', hmem, hp', rfl⟩ := hkeeps.accepted e hget ev hev
    exact htimed now' s' hmem hp'
  rw [(hall _ hev).dateNumber] at ht
  obtain ⟨hactive, hsuspended⟩ :=
    stateAt_ended hget hall (hkeeps.sorted e hget hall) hev hterm ht
  refine ⟨hactive, hsuspended, ?_⟩
  intro keyId c hc hpass
  exact hactive (PrincipalDirectory.active_of_check hc hpass).status

/-! ## Runs on the reference host -/

open Reference

/-- The issuer the runs below trust. -/
def issuerKey : KeyPair := key "issuer-1" "aXNzdWVy"

/-- A store that trusts the issuer. -/
def issuerStore : TrustStore := store [keyRecord issuerKey [.identityIssuer]]

/-- An agent enrolled by the issuer. -/
def agentRecord : PrincipalRecord :=
  { principalId := "agent-1"
    kind := .agent
    issuer := "issuer-1"
    owner := "acme"
    basis := .issuerAttested
    createdAt := "2026-01-01T00:00:00.000Z"
    keys := [] }

/-- A lifecycle event of the agent. -/
def agentEvent (kind : PrincipalEventKind) (at_ : String) : Signed PrincipalEvent :=
  signed "cool.principal-event.v1"
    { eventId := "event-1", principalId := "agent-1", kind, at_ } issuerKey

private theorem agentEvent_body (kind : PrincipalEventKind) (at_ : String) :
    (agentEvent kind at_).body =
      { eventId := "event-1", principalId := "agent-1", kind, at_ } :=
  signed_body _ _ _

/-- The history of the agent's enrolment followed by events. -/
def agentHistory (events : List (Signed PrincipalEvent)) : DirectoryHistory :=
  (.enroll (clock 0) (signed "cool.principal.v1" agentRecord issuerKey) ::
    events.map (.apply (clock 1000))).foldl (deliver host) (start issuerStore)

/-- The revocation of the agent a minute after its creation. -/
def revocation : Signed PrincipalEvent := agentEvent .revoked "2026-01-01T00:01:00.000Z"

private theorem agentHistory_revocation :
    (agentHistory [revocation]).events = [(clock 1000, revocation)] := by
  decide +kernel

/-- The general result at work: a minute and more after its creation, the revoked agent is
neither active nor suspended and passes no check. -/
theorem revocation_terminal_agent :
    ((agentHistory [revocation]).directory.stateAt host "agent-1" (clock 60000)).status ≠
        .active ∧
      ((agentHistory [revocation]).directory.stateAt host "agent-1" (clock 60000)).status ≠
        .suspended ∧
      ∀ keyId c, (agentHistory [revocation]).directory.check host "agent-1" (clock 60000) keyId =
        .ok c → c.status ≠ .pass := by
  refine revocation_terminal sortLaws (reachable_foldl host issuerStore _) ?_
    (show (clock 1000, revocation) ∈ (agentHistory [revocation]).events from ?_) ?_ ?_ ?_
  · intro now s hs _
    change (now, s) ∈ (agentHistory [revocation]).events at hs
    rw [agentHistory_revocation] at hs
    have hs' := (Prod.mk.inj (List.mem_singleton.mp hs)).2
    rw [hs', revocation, agentEvent_body]
    exact show (dateParse "2026-01-01T00:01:00.000Z").isSome = true by decide
  · rw [agentHistory_revocation]
    exact List.mem_singleton.mpr rfl
  · rw [revocation, agentEvent_body]
  · rw [revocation, agentEvent_body]
    exact Or.inl rfl
  · rw [revocation, agentEvent_body]
    decide

/-- Three events the issuer signs: one later than the moment asked about, one without a
time, and a revocation before that moment. -/
def untimedEvents : List (Signed PrincipalEvent) :=
  [agentEvent .reinstated "2026-01-01T00:02:00.000Z", agentEvent .reinstated "soon",
    agentEvent .revoked "2026-01-01T00:00:50.000Z"]

/-- An event without a time shields the events behind it: the directory accepts all three
events and the revocation takes effect at 50 s, yet at 60 s the agent is active and usable. -/
theorem revocation_not_terminal :
    ∃ h, (system host issuerStore).Reachable h ∧
      (∃ now s, (now, s) ∈ h.events ∧ s.body.principalId = "agent-1" ∧ Terminal s.body.kind ∧
        (dateNumber host s.body.at_).le (clock 60000) = true) ∧
      (h.directory.stateAt host "agent-1" (clock 60000)).status = .active ∧
      h.directory.Usable host "agent-1" (clock 60000) := by
  have hrun : (agentHistory untimedEvents).events = untimedEvents.map (Prod.mk (clock 1000)) ∧
      ((agentHistory untimedEvents).directory.stateAt host "agent-1" (clock 60000)).status =
        .active ∧
      (agentHistory untimedEvents).directory.Usable host "agent-1" (clock 60000) := by
    decide +kernel
  obtain ⟨hevents, hactive, husable⟩ := hrun
  refine ⟨agentHistory untimedEvents, reachable_foldl host issuerStore _, ?_, hactive, husable⟩
  refine ⟨clock 1000, agentEvent .revoked "2026-01-01T00:00:50.000Z", ?_, ?_⟩
  · rw [hevents]
    exact List.mem_map_of_mem (by simp only [untimedEvents, List.mem_cons, or_true, true_or])
  · rw [agentEvent_body]
    exact ⟨rfl, Or.inl rfl, by decide⟩

end DirectoryHistory

end CoolSdk
