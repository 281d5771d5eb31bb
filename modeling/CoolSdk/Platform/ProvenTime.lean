import CoolSdk.Platform.Freshness
import CoolSdk.Platform.Sections

/-!
# Proven signing times

A withdrawn key is trusted for a signature proven to precede its withdrawal. The comparison
refuses what is found to come too late, so a time that is no number, or a withdrawal without a
readable time, is not refused. In an envelope the proof is a checkpoint: its head is signed by a
trusted log key and includes the envelope, and its timestamp is taken as it parses, or does not.
-/

namespace CoolSdk

/-- A point on the time line. -/
def JsNumber.IsTime (a : JsNumber) : Prop := a ≠ .nan ∧ a ≠ .negInfinity ∧ a ≠ .infinity

namespace KeyRecord

variable (H : Host)

/-- The query proves a real time strictly before the recorded, readable withdrawal of the key. -/
def ProvenBeforeWithdrawal (k : KeyRecord) (q : TrustQuery) : Prop :=
  ∃ p reason text i, q.provenSignedBefore = some p ∧ p.IsTime ∧
    k.withdrawn = some (reason, some text) ∧ H.dateParse text = some i ∧ p.lt (.ofInt i) = true

/-- A proven time can be told from the time the key's withdrawal is judged by. -/
def Comparable (k : KeyRecord) (p : JsNumber) : Prop :=
  p ≠ .nan ∧ p ≠ .negInfinity ∧ ∀ reason recorded, k.withdrawn = some (reason, recorded) →
    (H.dateParse (recorded.getD k.validFrom)).isSome = true

end KeyRecord

variable {H : Host}

/-- A comparison that a number passes leaves it below the limit. -/
private theorem lt_of_not_le {a : JsNumber} {i : Int} (ha : a ≠ .nan)
    (h : (JsNumber.ofInt i).le a = false) : a.lt (.ofInt i) = true := by
  by_contra hlt
  rw [Bool.not_eq_true] at hlt
  rw [JsNumber.le_of_not_lt (by simp [JsNumber.ofInt]) ha hlt] at h
  cases h

private theorem isTime_of_lt {a : JsNumber} {i : Int} (h : a.lt (.ofInt i) = true)
    (hneg : a ≠ .negInfinity) : a.IsTime := by
  refine ⟨?_, hneg, ?_⟩
  · rintro rfl
    cases h
  · rintro rfl
    simp [JsNumber.lt, JsNumber.ofInt, JsNumber.position?] at h

/-- The two statuses under which a key is withdrawn. -/
theorem KeyRecord.withdrawn_isSome {k : KeyRecord} :
    k.withdrawn.isSome = true ↔ k.status = .revoked ∨ k.status = .compromised := by
  unfold withdrawn
  cases k.status <;> simp

/-- **Proof of the signing time**: a withdrawn key is trusted only for a time proven before its
recorded withdrawal, exactly where every time proven for it inside its period can be told from
the time its withdrawal is judged by. -/
theorem withdrawn_trusted_iff (t : TrustStore) (q : TrustQuery) :
    (∀ k, t.get q.keyId = some k → (k.status = .revoked ∨ k.status = .compromised) →
      (t.evaluate H q).status = .pass → k.ProvenBeforeWithdrawal H q) ↔
    ∀ k p, t.get q.keyId = some k → (k.status = .revoked ∨ k.status = .compromised) →
      q.provenSignedBefore = some p → q.purpose ∈ k.purposes → k.period H p = .current →
      t.stale H q.now = false → k.Comparable H p := by
  simp only [← KeyRecord.withdrawn_isSome, Option.isSome_iff_exists]
  have hat : ∀ {p}, q.provenSignedBefore = some p → q.signedAt = p := by
    intro p hp
    simp only [TrustQuery.signedAt, hp]
    rfl
  constructor
  · rintro h k p hk ⟨⟨reason, recorded⟩, hw⟩ hp hpurpose hperiod hfresh
    cases hle : (k.limit H recorded).le p with
    | true =>
      -- the proof comes too late: both sides of the comparison are numbers
      obtain ⟨hlimit, hnan⟩ := JsNumber.ne_nan_of_le hle
      cases hparse : H.dateParse (recorded.getD k.validFrom) with
      | none =>
        rw [KeyRecord.limit, dateNumber, hparse] at hlimit
        exact (hlimit rfl).elim
      | some i =>
        rw [KeyRecord.limit, dateNumber, hparse, JsNumber.ofParsed_some] at hle
        refine ⟨hnan, ?_, ?_⟩
        · rintro rfl
          cases hle
        · intro reason' recorded' hw'
          rw [hw] at hw'
          cases hw'
          exact hparse ▸ rfl
    | false =>
      have haccepts : k.Accepts H q := by
        refine ⟨hpurpose, (hat hp).symm ▸ hperiod, ?_⟩
        intro reason' recorded' hw'
        rw [hw] at hw'
        cases hw'
        exact ⟨p, hp, hle⟩
      have hpass := (t.evaluate_pass_iff_accepts H q).mpr ⟨k, hk, haccepts, hfresh⟩
      obtain ⟨p', reason', text, i, hp', ⟨hnan, hneg, _⟩, hw', hparse, _⟩ :=
        h k hk ⟨_, hw⟩ hpass
      rw [hp] at hp'
      cases hp'
      refine ⟨hnan, hneg, ?_⟩
      intro reason'' recorded' hw''
      rw [hw'] at hw''
      cases hw''
      exact hparse ▸ rfl
  · rintro h k hk ⟨⟨reason, recorded⟩, hw⟩ hpass
    obtain ⟨k', hk', haccepts, hfresh⟩ := (t.evaluate_pass_iff_accepts H q).mp hpass
    rw [hk] at hk'
    cases hk'
    obtain ⟨p, hp, hle⟩ := haccepts.proven reason recorded hw
    have hperiod : k.period H p = .current := hat hp ▸ haccepts.current
    obtain ⟨hnan, hneg, hparses⟩ := h k p hk ⟨_, hw⟩ hp haccepts.purpose hperiod hfresh
    obtain ⟨i, hparse⟩ := Option.isSome_iff_exists.mp (hparses reason recorded hw)
    have hnum : dateNumber H (recorded.getD k.validFrom) = .ofInt i := by
      rw [dateNumber, hparse, JsNumber.ofParsed_some]
    rw [KeyRecord.limit, hnum] at hle
    have hlt := lt_of_not_le hnan hle
    cases recorded with
    | some text => exact ⟨p, reason, text, i, hp, isTime_of_lt hlt hneg, hw, hparse, hlt⟩
    | none =>
      -- without a recorded time the limit is the start of validity, and the key not yet valid
      have hstart : dateNumber H k.validFrom = .ofInt i := hnum
      rw [KeyRecord.period, hstart, if_pos hlt] at hperiod
      cases hperiod

/-! ## The time a checkpoint proves -/

/-- The head is signed under a key the store holds, trusts for logs, and trusts now. -/
def SignedByTrustedLog (H : Host) (o : VerifyEnvelopeOptions) (sth : STH) : Prop :=
  (∃ k message, o.trust.get sth.signature.keyId = some k ∧
    sthSigningMessage H (sthCore sth) = .ok message ∧
    H.hybridVerify message sth.signature k.entry = true) ∧
  (o.trust.evaluate H
    { keyId := sth.signature.keyId, purpose := .log, now := o.now }).status = .pass

/-- As many co-signatures count as the verifier asks for. -/
def EnoughWitnesses (H : Host) (o : VerifyEnvelopeOptions) (sth : STH) : Prop :=
  ∃ votes, sth.witnesses.mapM (countsAsWitness H o.trust o.now sth) = .ok votes ∧
    (JsNumber.ofInt (votes.count true)).lt (o.witnessThreshold.getD (.ofInt 0)) = false

/-- A block signs a head under the store's record. -/
theorem signsTreeHead_iff {sth : STH} {sig : SignatureBlock} {record : Option KeyRecord} :
    signsTreeHead H sth sig record = .ok true ↔ ∃ k message, record = some k ∧
      sthSigningMessage H (sthCore sth) = .ok message ∧ H.hybridVerify message sig k.entry = true := by
  cases record with
  | none =>
    constructor
    · intro h
      cases h
    · rintro ⟨k, message, hk, _⟩
      cases hk
  | some k =>
    rw [signsTreeHead, bind_eq_ok]
    constructor
    · rintro ⟨message, hmessage, h⟩
      exact ⟨k, message, rfl, hmessage, Except.ok.inj h⟩
    · rintro ⟨k', message, hk, hmessage, h⟩
      cases hk
      exact ⟨message, hmessage, congrArg Except.ok h⟩

theorem inclusionCheck_pass_iff {env : SignedEnvelope} {cp : Checkpoint} :
    (inclusionCheck H env cp).status = .pass ↔ inclusionVerdict H env cp = .ok true := by
  unfold inclusionCheck
  cases hv : inclusionVerdict H env cp with
  | error e =>
    constructor
    · intro h
      cases h
    · intro h
      cases h
  | ok included => cases included <;> simp [check]

/-- The checkpoint's age does not exceed the caller's limit. -/
def RecentEnough (H : Host) (o : VerifyEnvelopeOptions) (sth : STH) : Prop :=
  ¬(o.maxCheckpointAgeMs.any fun limit =>
    limit.lt (o.now.sub (dateNumber H sth.timestamp))) = true

/-- An attached checkpoint proves its timestamp exactly where it is trusted and includes the
envelope. -/
theorem attachedCheckpoint_proven {env : SignedEnvelope} {o : VerifyEnvelopeOptions}
    {cp : Checkpoint} {p : JsNumber} :
    (∃ result, attachedCheckpoint H env o cp = .ok result ∧ result.provenBefore = some p) ↔
      SignedByTrustedLog H o cp.sth ∧ RecentEnough H o cp.sth ∧ EnoughWitnesses H o cp.sth ∧
        inclusionVerdict H env cp = .ok true ∧ p = dateNumber H cp.sth.timestamp := by
  constructor
  · rintro ⟨result, h, hp⟩
    rw [attachedCheckpoint] at h
    obtain ⟨sthOk, hsth, h⟩ := bind_eq_ok.mp h
    obtain ⟨votes, hvotes, h⟩ := bind_eq_ok.mp h
    cases h
    simp only at hp
    split_ifs at hp with hpass
    · obtain ⟨hhead, hincluded⟩ := hpass
      obtain ⟨⟨hok, hlog, hrecent⟩, hfew⟩ := treeHeadCheck_pass_iff.mp hhead
      subst hok
      exact ⟨⟨signsTreeHead_iff.mp hsth, hlog⟩, hrecent, ⟨votes, hvotes, hfew⟩,
        inclusionCheck_pass_iff.mp hincluded, (Option.some.inj hp).symm⟩
  · rintro ⟨⟨hsigned, hlog⟩, hrecent, ⟨votes, hvotes, hfew⟩, hincluded, rfl⟩
    have hsth := signsTreeHead_iff.mpr hsigned
    have hhead : (treeHeadCheck H o cp.sth true (votes.count true)).status = .pass :=
      treeHeadCheck_pass_iff.mpr ⟨⟨rfl, hlog, hrecent⟩, hfew⟩
    have hresult : attachedCheckpoint H env o cp = .ok
        { inclusion := inclusionCheck H env cp
          checkpoint := treeHeadCheck H o cp.sth true (votes.count true)
          provenBefore := some (dateNumber H cp.sth.timestamp) } := by
      rw [attachedCheckpoint, hsth, ok_bind, hvotes, ok_bind]
      simp only [hhead, inclusionCheck_pass_iff.mpr hincluded, and_self, if_true]
    exact ⟨_, hresult, rfl⟩

/-- The age of a head without a readable timestamp exceeds no limit. -/
private theorem recentEnough_of_unreadable {o : VerifyEnvelopeOptions} {sth : STH}
    (h : H.dateParse sth.timestamp = none) : RecentEnough H o sth := by
  have hnan : dateNumber H sth.timestamp = .nan := by rw [dateNumber, h, JsNumber.ofParsed_none]
  rw [RecentEnough, hnan, JsNumber.sub_nan]
  cases o.maxCheckpointAgeMs <;> simp

/-- What `verifyEnvelope` hands to the trust check as a proven time comes from a checkpoint signed
by a trusted log that includes the envelope, and is a time, exactly where the timestamps of such
checkpoints parse. -/
theorem proven_from_checkpoint_iff (env : SignedEnvelope) (o : VerifyEnvelopeOptions) :
    (∀ result p, checkpointCheck H env o (digestCheck H env (canonicalCheck H env)) = .ok result →
      result.provenBefore = some p → ∃ cp i, env.checkpoint = some cp ∧
        SignedByTrustedLog H o cp.sth ∧ inclusionVerdict H env cp = .ok true ∧
        H.dateParse cp.sth.timestamp = some i ∧ p = .ofInt i) ↔
    ∀ cp, env.checkpoint = some cp → (digestCheck H env (canonicalCheck H env)).status = .pass →
      SignedByTrustedLog H o cp.sth → inclusionVerdict H env cp = .ok true →
      EnoughWitnesses H o cp.sth → (H.dateParse cp.sth.timestamp).isSome = true := by
  have hsection : ∀ cp, env.checkpoint = some cp →
      (digestCheck H env (canonicalCheck H env)).status = .pass →
      checkpointCheck H env o (digestCheck H env (canonicalCheck H env)) =
        attachedCheckpoint H env o cp := by
    intro cp hcp hdigest
    rw [checkpointCheck, hcp]
    exact if_neg (not_not_intro hdigest)
  constructor
  · intro h cp hcp hdigest hsigned hincluded hwitnesses
    cases hparse : H.dateParse cp.sth.timestamp with
    | some i => rfl
    | none =>
      obtain ⟨result, hresult, hp⟩ := attachedCheckpoint_proven.mpr
        ⟨hsigned, recentEnough_of_unreadable hparse, hwitnesses, hincluded, rfl⟩
      obtain ⟨cp', i, hcp', _, _, hparse', _⟩ :=
        h result _ ((hsection cp hcp hdigest).trans hresult) hp
      rw [hcp] at hcp'
      cases hcp'
      rw [hparse] at hparse'
      cases hparse'
  · intro h result p hresult hp
    cases hcp : env.checkpoint with
    | none =>
      rw [checkpointCheck, hcp, Except.ok.injEq] at hresult
      rw [← hresult] at hp
      cases hp
    | some cp =>
      by_cases hdigest : (digestCheck H env (canonicalCheck H env)).status = .pass
      · rw [hsection cp hcp hdigest] at hresult
        obtain ⟨hsigned, _, hwitnesses, hincluded, rfl⟩ :=
          attachedCheckpoint_proven.mp ⟨result, hresult, hp⟩
        obtain ⟨i, hparse⟩ := Option.isSome_iff_exists.mp
          (h cp hcp hdigest hsigned hincluded hwitnesses)
        exact ⟨cp, i, rfl, hsigned, hincluded, hparse, by
          rw [dateNumber, hparse, JsNumber.ofParsed_some]⟩
      · rw [checkpointCheck, hcp] at hresult
        rw [← Except.ok.inj ((if_pos hdigest).symm.trans hresult)] at hp
        cases hp

/-- **Withdrawn keys need real proof** exactly where what is compared can be told apart: the times
proven for withdrawn keys and of their withdrawals are numbers, and so are the timestamps of the
checkpoints that prove them. -/
theorem withdrawn_proof_iff (H : Host) :
    (∀ (t : TrustStore) (q : TrustQuery),
      (∀ k, t.get q.keyId = some k → (k.status = .revoked ∨ k.status = .compromised) →
        (t.evaluate H q).status = .pass → k.ProvenBeforeWithdrawal H q) ↔
      ∀ k p, t.get q.keyId = some k → (k.status = .revoked ∨ k.status = .compromised) →
        q.provenSignedBefore = some p → q.purpose ∈ k.purposes → k.period H p = .current →
        t.stale H q.now = false → k.Comparable H p) ∧
    ∀ (env : SignedEnvelope) (o : VerifyEnvelopeOptions),
      (∀ result p,
        checkpointCheck H env o (digestCheck H env (canonicalCheck H env)) = .ok result →
        result.provenBefore = some p → ∃ cp i, env.checkpoint = some cp ∧
          SignedByTrustedLog H o cp.sth ∧ inclusionVerdict H env cp = .ok true ∧
          H.dateParse cp.sth.timestamp = some i ∧ p = .ofInt i) ↔
      ∀ cp, env.checkpoint = some cp →
        (digestCheck H env (canonicalCheck H env)).status = .pass →
        SignedByTrustedLog H o cp.sth → inclusionVerdict H env cp = .ok true →
        EnoughWitnesses H o cp.sth → (H.dateParse cp.sth.timestamp).isSome = true :=
  ⟨withdrawn_trusted_iff, proven_from_checkpoint_iff⟩

namespace Reference

/-- A key revoked at a time somebody recorded in words. -/
def revokedRecord : KeyRecord :=
  { keyRecord (key "producer" "AAAA") [.evidence] with
    status := .revoked
    revokedAt := some "the day of the incident" }

/-- The key with its revocation recorded, five minutes into the year. -/
def datedRecord : KeyRecord :=
  { revokedRecord with revokedAt := some "2026-01-01T00:05:00.000Z" }

/-- Whether the key is trusted for a signature proven to be a minute into the year. -/
def lateQuery : TrustQuery :=
  { keyId := "producer"
    purpose := .evidence
    now := clock 120000
    provenSignedBefore := some (clock 60000) }

end Reference

open Reference in
/-- The key revoked at a recorded time is trusted, and for a signature proven to precede that. -/
theorem withdrawn_proof_iff_dated :
    ((store [datedRecord]).evaluate host lateQuery).status = .pass ∧
      ∀ k, (store [datedRecord]).get lateQuery.keyId = some k →
        (k.status = .revoked ∨ k.status = .compromised) →
        ((store [datedRecord]).evaluate host lateQuery).status = .pass →
        k.ProvenBeforeWithdrawal host lateQuery := by
  refine ⟨by decide, ((withdrawn_proof_iff host).1 _ _).mpr ?_⟩
  intro k p hk _ hp _ _ _
  have hrecord : (store [datedRecord]).get lateQuery.keyId = some datedRecord := by decide
  rw [hrecord] at hk
  cases hk
  cases hp
  refine ⟨by decide, by decide, ?_⟩
  rintro reason recorded hw
  cases hw
  decide

open Reference in
/-- A revocation without a readable time refuses nothing that is proven. -/
theorem unreadable_revocation_trusted :
    (store [revokedRecord]).get lateQuery.keyId = some revokedRecord ∧
      ((store [revokedRecord]).evaluate host lateQuery).status = .pass ∧
      ¬revokedRecord.ProvenBeforeWithdrawal host lateQuery := by
  refine ⟨by decide, by decide, ?_⟩
  rintro ⟨p, reason, text, i, _, _, hw, hparse, _⟩
  cases hw
  have hnone : host.dateParse "the day of the incident" = none := by decide
  rw [hnone] at hparse
  cases hparse

end CoolSdk
