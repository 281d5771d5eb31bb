import CoolSdk.Authz.PrincipalHistory

/-!
# Who may change a directory

Every accepted record and event is signed by the issuer of its principal, under the key
the trust store holds for that issuer. A record is also checked against the store's
lifecycle rules at the moment it is accepted. An event is not: it stands under a key
that was trusted when the principal was enrolled, whatever the clock says by then.
-/

namespace CoolSdk

namespace DirectoryHistory

variable {H : Host}

/-- Signed under the key the store holds for the signer's id, by a key the store trusts to
issue identities at this moment. -/
def IssuerTrusted {α : Type} [ToJs α] (H : Host) (trust : TrustStore) (context : String)
    (s : Signed α) (now : JsNumber) : Prop :=
  ∃ k, trust.get s.signature.keyId = some k ∧ SignedUnder H context s k.entry ∧
    (trust.evaluate H { keyId := s.signature.keyId, purpose := .identityIssuer, now }).status =
      .pass

/-- The clock stands inside the time limits of the key the store holds for an id. -/
def IssuerCurrent (H : Host) (trust : TrustStore) (keyId : String) (now : JsNumber) : Prop :=
  ∃ k, trust.get keyId = some k ∧ trust.CurrentAt H k now

/-- The signer is the issuer named by the accepted record of a principal. -/
def SignedByIssuer (h : DirectoryHistory) (s : Signed PrincipalEvent) : Prop :=
  ∃ now r, (now, r) ∈ h.records ∧ r.body.principalId = s.body.principalId ∧
    r.body.issuer = s.signature.keyId

/-- What every history keeps of the origin of its inputs. -/
structure Issued (H : Host) (trust : TrustStore) (h : DirectoryHistory) : Prop where
  store : h.directory.trust = trust
  /-- Accepted records come from a trusted issuer, the one they name. -/
  records : ∀ now s, (now, s) ∈ h.records →
    IssuerTrusted H trust "cool.principal.v1" s now ∧ s.body.issuer = s.signature.keyId
  /-- Enrolled records were accepted. -/
  enrolled : ∀ p e, h.directory.entries.get p = some e →
    ∃ now s, (now, s) ∈ h.records ∧ s.body = e.record ∧ s.body.principalId = p
  /-- Accepted events come from the principal's issuer, under the stored key. -/
  events : ∀ now s, (now, s) ∈ h.events →
    h.SignedByIssuer s ∧ ∃ k, trust.get s.signature.keyId = some k ∧
      SignedUnder H "cool.principal-event.v1" s k.entry

private theorem issued_start (trust : TrustStore) : Issued H trust (start trust) where
  store := rfl
  records _ _ h := by cases h
  enrolled _ _ h := by cases h
  events _ _ h := by cases h

/-- One input preserves the origin of everything accepted. -/
theorem Issued.deliver {trust : TrustStore} {h : DirectoryHistory} (hi : Issued H trust h)
    (input : DirectoryInput) : Issued H trust (h.deliver H input) := by
  rcases deliver_cases (H := H) h input with
    he | ⟨now, s, _, hissuer, htrust, _, he⟩ | ⟨now, s, e, _, hget, hkey, hsigned, he⟩
  · rwa [he]
  · rw [he]
    refine ⟨hi.store, ?_, ?_, ?_⟩
    · intro now' s' hmem
      rcases List.mem_append.mp hmem with hold | hnew
      · exact hi.records now' s' hold
      · obtain ⟨rfl, rfl⟩ := Prod.mk.inj (List.mem_singleton.mp hnew)
        exact ⟨hi.store ▸ htrust, hissuer⟩
    · intro p e hget
      rw [OrderedMap.get_set] at hget
      by_cases hp : s.body.principalId = p
      · simp only [hp, if_true, Option.some.injEq] at hget
        subst hget
        exact ⟨now, s, List.mem_append_right _ (List.mem_singleton.mpr rfl), rfl, hp⟩
      · simp only [hp, if_false] at hget
        obtain ⟨now', s', hmem, hbody⟩ := hi.enrolled p e hget
        exact ⟨now', s', List.mem_append_left _ hmem, hbody⟩
    · intro now' s' hmem
      obtain ⟨⟨now₀, r, hr, hp, hiss⟩, hsig⟩ := hi.events now' s' hmem
      exact ⟨⟨now₀, r, List.mem_append_left _ hr, hp, hiss⟩, hsig⟩
  · rw [he]
    obtain ⟨now₀, r, hr, hbody, hp⟩ := hi.enrolled _ _ hget
    obtain ⟨⟨k, hk, _⟩, hiss⟩ := hi.records now₀ r hr
    have hname : r.body.issuer = s.signature.keyId := by rw [hbody, hkey]
    refine ⟨hi.store, hi.records, ?_, ?_⟩
    · intro p e' hget'
      rw [OrderedMap.get_set] at hget'
      by_cases hp' : s.body.principalId = p
      · simp only [hp', if_true, Option.some.injEq] at hget'
        subst hget'
        exact ⟨now₀, r, hr, hbody, hp.trans hp'⟩
      · simp only [hp', if_false] at hget'
        exact hi.enrolled p e' hget'
    · intro now' s' hmem
      rcases List.mem_append.mp hmem with hold | hnew
      · exact hi.events now' s' hold
      · obtain ⟨rfl, rfl⟩ := Prod.mk.inj (List.mem_singleton.mp hnew)
        refine ⟨⟨now₀, r, hr, hp, hname⟩, k, ?_, ?_⟩
        · rw [← hname, hiss, hk]
        · rw [hi.store, ← hkey, ← hname, hiss, hk, Option.map_some, Option.getD_some] at hsigned
          exact hsigned

/-- Every history keeps the origin of its inputs. -/
theorem issued_of_reachable {trust : TrustStore} {h : DirectoryHistory}
    (hr : (system H trust).Reachable h) : Issued H trust h :=
  hr.invariant (fun _ hi => hi ▸ issued_start trust) fun _ input _ hi hs => hs ▸ hi.deliver input

/-- What the store said of a key once, it says again whenever the clock is inside the key's
time limits. -/
theorem issuerTrusted_iff_current {trust : TrustStore} {keyId : String} {before now : JsNumber}
    (hbefore : (trust.evaluate H
      { keyId, purpose := .identityIssuer, now := before }).status = .pass) :
    (trust.evaluate H { keyId, purpose := .identityIssuer, now }).status = .pass ↔
      IssuerCurrent H trust keyId now := by
  obtain ⟨k, hk, hpurpose, hcompromised, hrevoked, _⟩ :=
    (trust.evaluate_now_pass_iff H keyId .identityIssuer before).mp hbefore
  rw [TrustStore.evaluate_now_pass_iff]
  constructor
  · rintro ⟨k', hk', _, _, _, hcurrent⟩
    exact ⟨k', hk', hcurrent⟩
  · rintro ⟨k', hk', hcurrent⟩
    rw [hk, Option.some.injEq] at hk'
    subst hk'
    exact ⟨k, hk, hpurpose, hcompromised, hrevoked, hcurrent⟩

/-- Where accepted inputs come from, in every history under any clock: each record from an
issuer trusted at its acceptance, each event from the issuer of the principal it names, under
the stored key. That issuer is trusted at the event's acceptance exactly when the clock then
stands inside the time limits of its key. -/
theorem accepted_from_trusted_issuer {trust : TrustStore} {h : DirectoryHistory}
    (hr : (system H trust).Reachable h) :
    (∀ now s, (now, s) ∈ h.records →
        IssuerTrusted H trust "cool.principal.v1" s now ∧ s.body.issuer = s.signature.keyId) ∧
      ∀ now s, (now, s) ∈ h.events → h.SignedByIssuer s ∧
        (IssuerTrusted H trust "cool.principal-event.v1" s now ↔
          IssuerCurrent H trust s.signature.keyId now) := by
  have hi := issued_of_reachable hr
  refine ⟨hi.records, ?_⟩
  intro now s hmem
  obtain ⟨hsigner, k, hk, hsigned⟩ := hi.events now s hmem
  refine ⟨hsigner, ?_⟩
  obtain ⟨before, r, hrec, _, hiss⟩ := hsigner
  obtain ⟨⟨_, _, _, hpass⟩, hname⟩ := hi.records before r hrec
  rw [← hname, hiss] at hpass
  rw [← issuerTrusted_iff_current hpass]
  constructor
  · rintro ⟨_, _, _, hnow⟩
    exact hnow
  · intro hnow
    exact ⟨k, hk, hsigned, hnow⟩

/-- The general result at work on the revocation of an enrolled agent. -/
theorem accepted_from_trusted_issuer_agent :
    (∀ now s, (now, s) ∈ (agentHistory [revocation]).records →
        IssuerTrusted Reference.host issuerStore "cool.principal.v1" s now ∧
          s.body.issuer = s.signature.keyId) ∧
      ∀ now s, (now, s) ∈ (agentHistory [revocation]).events →
        (agentHistory [revocation]).SignedByIssuer s ∧
          (IssuerTrusted Reference.host issuerStore "cool.principal-event.v1" s now ↔
            IssuerCurrent Reference.host issuerStore s.signature.keyId now) :=
  accepted_from_trusted_issuer (reachable_foldl Reference.host issuerStore _)

/-- A store that trusts the issuer for the first minute of 2026 only. -/
def expiringStore : TrustStore :=
  Reference.store [{ Reference.keyRecord issuerKey [.identityIssuer] with
    validUntil := some "2026-01-01T00:01:00.000Z" }]

/-- Enrolment in time, then a suspension a minute after the issuer's key has expired. -/
def lateInputs : List DirectoryInput :=
  [.enroll (Reference.clock 0) (Reference.signed "cool.principal.v1" agentRecord issuerKey),
    .apply (Reference.clock 120000) (agentEvent .suspended "2026-01-01T00:00:30.000Z")]

/-- An expired issuer key still changes the directory: the event is accepted, and the state
follows it, at a moment when the store refuses the key that signed it. -/
theorem expired_issuer_applies :
    ∃ h, (system Reference.host expiringStore).Reachable h ∧
      ∃ now s, (now, s) ∈ h.events ∧
        (expiringStore.evaluate Reference.host
          { keyId := s.signature.keyId, purpose := .identityIssuer, now }).status = .fail ∧
        (h.directory.stateAt Reference.host "agent-1" now).status = .suspended := by
  have hrun : ((lateInputs.foldl (deliver Reference.host) (start expiringStore)).events.map
      fun e => (e.1, e.2.signature.keyId)) = [(Reference.clock 120000, "issuer-1")] ∧
      ((lateInputs.foldl (deliver Reference.host) (start expiringStore)).directory.stateAt
        Reference.host "agent-1" (Reference.clock 120000)).status = .suspended := by
    decide +kernel
  obtain ⟨hevents, hstate⟩ := hrun
  refine ⟨_, reachable_foldl Reference.host expiringStore lateInputs, ?_⟩
  obtain ⟨e, hmem, he⟩ := List.mem_map.mp (hevents ▸ List.mem_singleton.mpr rfl :
    (Reference.clock 120000, "issuer-1") ∈ _)
  obtain ⟨hnow, hkey⟩ := Prod.mk.inj he
  refine ⟨e.1, e.2, hmem, ?_, ?_⟩
  · rw [hnow, hkey]
    decide +kernel
  · rw [hnow]
    exact hstate

end DirectoryHistory

end CoolSdk
