import CoolSdk.Platform.Sections

/-!
# Claimed signing times

A query without a proven signing time is judged at the time the evidence claims, and only without
that at the verifier's own. A claim therefore decides in which period of the key's life the
signature falls: it is informational exactly where the times compared stand in one period. An
envelope that claims an early time is trusted under a key that has since expired or been
superseded.
-/

namespace CoolSdk

variable (H : Host)

/-- Two answers agree in status and reason. -/
def SameAnswer (c c' : Check) : Prop := c.status = c'.status ∧ c.reason = c'.reason

/-- The query with another claimed time. -/
def TrustQuery.claiming (q : TrustQuery) (claimed : Option JsNumber) : TrustQuery :=
  { q with claimedSignedAt := claimed }

namespace KeyRecord

/-- The key's validity or its turn was over at a time. -/
def EndedBy (k : KeyRecord) (now : JsNumber) : Prop :=
  ((nonEmpty k.validUntil).any fun u => (dateNumber H u).lt now) = true ∨
    (k.status = .rotated ∧ ((nonEmpty k.rotatedAt).any fun r => (dateNumber H r).lt now) = true)

variable {H}

private theorem withdrawn_reason {k : KeyRecord} {w : String × Option String}
    (h : k.withdrawn = some w) : w.1 = "key_compromised" ∨ w.1 = "key_revoked" := by
  unfold withdrawn at h
  cases hs : k.status with
  | active | rotated =>
    rw [hs] at h
    cases h
  | revoked =>
    rw [hs] at h
    cases h
    exact .inr rfl
  | compromised =>
    rw [hs] at h
    cases h
    exact .inl rfl

/-- The period of a key's life that a reason for refusal names. -/
def periodOf : String → KeyPeriod
  | "key_not_yet_valid" => .notYetValid
  | "key_expired" => .expired
  | "key_rotated" => .superseded
  | _ => .current

/-- The answer about a purpose the record has names the period. -/
theorem periodOf_verdict {k : KeyRecord} {q : TrustQuery} (hq : q.purpose ∈ k.purposes)
    (stale : Bool) : periodOf (k.verdict H q stale).2 = k.period H q.signedAt := by
  unfold verdict
  rw [if_neg (not_not_intro hq)]
  cases k.period H q.signedAt with
  | notYetValid | expired | superseded => rfl
  | current =>
    cases hw : k.withdrawn.filter fun w => !decide (Precedes q (k.limit H w.2)) with
    | some w =>
      rcases withdrawn_reason (Option.filter_eq_some_iff.mp hw).1 with hr | hr
      · simp only [hr]
        rfl
      · simp only [hr]
        rfl
    | none => cases stale <;> rfl

/-- Beside the purpose, a record's answer depends on a claim through the period alone. -/
theorem verdict_claiming {k : KeyRecord} {q : TrustQuery} {c c' : Option JsNumber} (stale : Bool)
    (h : k.period H (q.claiming c).signedAt = k.period H (q.claiming c').signedAt) :
    k.verdict H (q.claiming c) stale = k.verdict H (q.claiming c') stale := by
  unfold verdict
  rw [h]
  rfl

end KeyRecord

variable {H}

/-- **A claimed time changes nothing** exactly where a proven one is there, the key is unknown or
not for the purpose, or both times judged stand in one period of the key's life. -/
theorem sameAnswer_iff (t : TrustStore) (q : TrustQuery) (c c' : Option JsNumber) :
    SameAnswer (t.evaluate H (q.claiming c)) (t.evaluate H (q.claiming c')) ↔
      q.provenSignedBefore.isSome = true ∨
      ∀ k, t.get q.keyId = some k → q.purpose ∈ k.purposes →
        k.period H (c.getD q.now) = k.period H (c'.getD q.now) := by
  have hsame : SameAnswer (t.evaluate H (q.claiming c)) (t.evaluate H (q.claiming c')) ↔
      t.verdict H (q.claiming c) = t.verdict H (q.claiming c') := by
    rw [← t.evaluate_verdict, ← t.evaluate_verdict, Prod.mk.injEq]
    rfl
  have hget : ∀ c, t.get (q.claiming c).keyId = t.get q.keyId := fun _ => rfl
  rw [hsame, TrustStore.verdict, TrustStore.verdict, hget, hget]
  cases hp : q.provenSignedBefore with
  | some p =>
    have hat : (q.claiming c).signedAt = (q.claiming c').signedAt := by
      simp only [TrustQuery.signedAt, TrustQuery.claiming, hp]
      rfl
    simp only [Option.isSome_some, true_or, iff_true]
    cases t.get q.keyId with
    | none => rfl
    | some k => exact KeyRecord.verdict_claiming _ (congrArg (k.period H) hat)
  | none =>
    have hat : ∀ c, (q.claiming c).signedAt = c.getD q.now := by
      intro c
      simp only [TrustQuery.signedAt, TrustQuery.claiming, hp]
      rfl
    simp only [Option.isSome_none, Bool.false_eq_true, false_or]
    cases hk : t.get q.keyId with
    | none =>
      simp only [true_iff]
      rintro k ⟨⟩
    | some k =>
      simp only [Option.some.injEq, forall_eq']
      constructor
      · intro h hq
        have hperiod := congrArg (fun v => KeyRecord.periodOf v.2) h
        simp only [KeyRecord.periodOf_verdict (q := q.claiming c) hq,
          KeyRecord.periodOf_verdict (q := q.claiming c') hq, hat] at hperiod
        exact hperiod
      · intro h
        by_cases hq : q.purpose ∈ k.purposes
        · apply KeyRecord.verdict_claiming
          rw [hat, hat]
          exact h hq
        · have hout : ∀ c, k.verdict H (q.claiming c) (t.stale H q.now) =
              (.fail, "wrong_key_purpose") := fun c => if_pos hq
          exact (hout c).trans (hout c').symm

/-- The trust question about a signer of an envelope without a trusted checkpoint. -/
def signerQuery (H : Host) (env : SignedEnvelope) (o : VerifyEnvelopeOptions) (keyId : String) :
    TrustQuery :=
  { keyId
    purpose := o.purposeOf env.core.eventType
    now := o.now
    claimedSignedAt := some (dateNumber H env.core.observedAt) }

/-- Every signer's record accepts the time the envelope claims, and the snapshot is fresh. -/
def AcceptedAsClaimed (H : Host) (env : SignedEnvelope) (o : VerifyEnvelopeOptions) : Prop :=
  o.trust.stale H o.now = false ∧ ∀ sig ∈ env.signatures, ∃ k, o.trust.get sig.keyId = some k ∧
    k.Accepts H (signerQuery H env o sig.keyId)

/-- Some signer's key had expired or been superseded by the time of verification. -/
def SignerEnded (H : Host) (env : SignedEnvelope) (o : VerifyEnvelopeOptions) : Prop :=
  ∃ sig ∈ env.signatures, ∃ k, o.trust.get sig.keyId = some k ∧ k.EndedBy H o.now

/-- Without a trusted checkpoint, the signers of a verified envelope are trusted exactly as their
records accept the time it claims. -/
theorem signer_trusted_iff {env : SignedEnvelope} {o : VerifyEnvelopeOptions}
    {report : VerificationReport} (h : verifyEnvelope H env o = .ok report)
    (hsigned : report.Passes "signature_valid")
    (hunproven : ¬(report.Passes "checkpoint_trusted" ∧ report.Passes "inclusion_proof_valid")) :
    report.Passes "signer_trusted" ↔ AcceptedAsClaimed H env o := by
  obtain ⟨s, hran, hchecks⟩ := sections_of_passes h hsigned
  rw [EnvelopeSections.signature_passes hchecks] at hsigned
  rw [EnvelopeSections.checkpoint_passes hchecks, EnvelopeSections.inclusion_passes hchecks]
    at hunproven
  obtain ⟨_, hsigners, _⟩ := carried_of_signatureCheck hran.sigs hsigned
  have hnone := EnvelopeSections.provenBefore_none hran hunproven
  rw [EnvelopeSections.trusted_passes hchecks, trustCheck_pass_iff hran.trusted hsigned, hnone,
    hsigners, List.forall_mem_map]
  simp only [TrustStore.evaluate_pass_iff_accepts]
  constructor
  · intro hall
    obtain ⟨first, hfirst⟩ := List.exists_mem_of_ne_nil _ (signed_of_signatureCheck hran.sigs hsigned)
    obtain ⟨_, _, _, hfresh⟩ := hall first hfirst
    refine ⟨hfresh, fun sig hsig => ?_⟩
    obtain ⟨k, hk, haccepts, _⟩ := hall sig hsig
    exact ⟨k, hk, haccepts⟩
  · rintro ⟨hfresh, hall⟩ sig hsig
    obtain ⟨k, hk, haccepts⟩ := hall sig hsig
    exact ⟨k, hk, haccepts, hfresh⟩

/-- What the claimed time is to be in the store and in an envelope: two queries that differ in it
are answered alike, and no claimed time makes a key that has ended by now trusted. -/
theorem claimed_time_iff (H : Host) :
    (∀ (t : TrustStore) (q : TrustQuery) c c',
      SameAnswer (t.evaluate H (q.claiming c)) (t.evaluate H (q.claiming c')) ↔
        q.provenSignedBefore.isSome = true ∨
        ∀ k, t.get q.keyId = some k → q.purpose ∈ k.purposes →
          k.period H (c.getD q.now) = k.period H (c'.getD q.now)) ∧
    ∀ env (o : VerifyEnvelopeOptions) report, verifyEnvelope H env o = .ok report →
      report.Passes "signature_valid" →
      ¬(report.Passes "checkpoint_trusted" ∧ report.Passes "inclusion_proof_valid") →
      ((report.Passes "signer_trusted" → ¬SignerEnded H env o) ↔
        ¬(AcceptedAsClaimed H env o ∧ SignerEnded H env o)) := by
  refine ⟨sameAnswer_iff, fun env o report h hsigned hunproven => ?_⟩
  rw [signer_trusted_iff h hsigned hunproven, not_and]

open Reference in
/-- The commit's own envelope, which carries no checkpoint. -/
theorem claimed_time_iff_commit :
    ∃ report, verifyEnvelope host (commitEnvelope sourceKey) commitOptions = .ok report ∧
      ((report.Passes "signer_trusted" →
          ¬SignerEnded host (commitEnvelope sourceKey) commitOptions) ↔
        ¬(AcceptedAsClaimed host (commitEnvelope sourceKey) commitOptions ∧
          SignerEnded host (commitEnvelope sourceKey) commitOptions)) := by
  obtain ⟨report, hreport, hchecks⟩ := ok_of_map_eq commit_report
  have hstatus := (Prod.mk.inj hchecks).2
  refine ⟨report, hreport, (claimed_time_iff host).2 _ _ report hreport ?_ ?_⟩
  · rw [VerificationReport.passes_iff, hstatus]
    rfl
  · rw [VerificationReport.passes_iff, hstatus]
    rintro ⟨⟨⟩, _⟩

namespace Reference

/-- The store of a key whose validity ended a second into 2026. -/
def endedStore : TrustStore :=
  store [{ keyRecord (key "producer" "AAAA") [.evidence] with
    validUntil := some "2026-01-01T00:00:01.000Z" }]

end Reference

open Reference in
/-- A minute later the key is refused without a claim, and trusted for a signature that claims to
be of the year's first moment. -/
theorem claimed_time_decides :
    let q : TrustQuery := { keyId := "producer", purpose := .evidence, now := clock 60000 }
    ((endedStore.evaluate host (q.claiming none)).status,
        (endedStore.evaluate host (q.claiming none)).reason) = (.fail, "key_expired") ∧
      (endedStore.evaluate host (q.claiming (some (clock 0)))).status = .pass := by
  refine ⟨?_, ?_⟩
  · decide
  · decide

end CoolSdk
