import CoolSdk.Platform.Lifecycle
import CoolSdk.Platform.SignerKeys

/-!
# The sections of a verification

A report with a passing check comes from an envelope whose schema is valid, and its checks are
the answers of the sections, each computed from the ones before it. The trust check passes exactly
where the store trusts every signer.
-/

namespace CoolSdk

/-- A check of the report is there and passes. -/
def VerificationReport.Passes (report : VerificationReport) (name : String) : Prop :=
  ∃ c, Entries.get report.checks name = some c ∧ c.status = .pass

theorem VerificationReport.passes_iff {report : VerificationReport} {name : String} :
    report.Passes name ↔
      Entries.get (report.checks.map fun e => (e.1, e.2.status)) name = some .pass := by
  rw [Entries.get_map, Option.map_eq_some_iff]
  rfl

/-- What the sections of a verification come to, in the order they run. -/
structure EnvelopeSections where
  schema : Check
  sigs : SignatureResult
  checkpoint : CheckpointResult
  trusted : Check
  attestation : Check

section

variable (H : Host)

/-- The sections ran, each on what those before it came to. -/
structure EnvelopeSections.RanOn (s : EnvelopeSections) (env : SignedEnvelope)
    (o : VerifyEnvelopeOptions) : Prop where
  schema : s.schema = schemaCheck H o.registry env
  sigs : signatureCheck H env (digestCheck H env (canonicalCheck H env)) = .ok s.sigs
  checkpoint : checkpointCheck H env o (digestCheck H env (canonicalCheck H env)) =
    .ok s.checkpoint
  trusted : trustCheck H env o s.sigs s.checkpoint.provenBefore = .ok s.trusted
  attestation : attestationCheck H env o s.sigs = .ok s.attestation

/-- The checks a report lists, by the sections. -/
def EnvelopeSections.checks (s : EnvelopeSections) (env : SignedEnvelope)
    (o : VerifyEnvelopeOptions) : Checks :=
  [("schema_valid", s.schema), ("canonical_encoding_valid", canonicalCheck H env),
    ("digest_valid", digestCheck H env (canonicalCheck H env)),
    ("signature_valid", s.sigs.signature), ("signer_trusted", s.trusted),
    ("signer_authorized", authorizedCheck env o s.trusted s.sigs.validSigners),
    ("timestamp_valid", timestampCheck H env o s.checkpoint.checkpoint),
    ("inclusion_proof_valid", s.checkpoint.inclusion),
    ("checkpoint_trusted", s.checkpoint.checkpoint), ("attestation_valid", s.attestation),
    ("evidence_complete", completeCheck env o)]

variable {H} {env : SignedEnvelope} {o : VerifyEnvelopeOptions} {report : VerificationReport}

/-- No check passes where the schema is invalid. -/
private theorem not_pass_of_schemaReport {schema : Check} (hschema : schema.status = .fail)
    {verifiedAt : String} : ∀ e ∈ (schemaReport schema verifiedAt).checks, e.2.status ≠ .pass := by
  rintro e he hpass
  obtain ⟨name, _, rfl⟩ := List.mem_map.mp he
  by_cases hname : name = "schema_valid"
  · rw [if_pos hname, hschema] at hpass
    cases hpass
  · rw [if_neg hname] at hpass
    cases hpass

/-- A report with a passing check lists what the sections came to. -/
theorem sections_of_passes (h : verifyEnvelope H env o = .ok report) {name : String}
    (hpass : report.Passes name) :
    ∃ s : EnvelopeSections, s.RanOn H env o ∧ report.checks = s.checks H env o := by
  unfold verifyEnvelope at h
  obtain ⟨verifiedAt, _, h⟩ := bind_eq_ok.mp h
  by_cases hschema : (schemaCheck H o.registry env).status = .fail
  · rw [if_pos hschema] at h
    cases h
    obtain ⟨c, hc, hstatus⟩ := hpass
    exact (not_pass_of_schemaReport hschema _ (Entries.mem_of_get hc) hstatus).elim
  · rw [if_neg hschema] at h
    obtain ⟨checks, hchecks, h⟩ := bind_eq_ok.mp h
    cases h
    unfold envelopeChecks at hchecks
    obtain ⟨sigs, hsigs, hchecks⟩ := bind_eq_ok.mp hchecks
    obtain ⟨cp, hcp, hchecks⟩ := bind_eq_ok.mp hchecks
    obtain ⟨trusted, htrusted, hchecks⟩ := bind_eq_ok.mp hchecks
    obtain ⟨attestation, hattestation, hchecks⟩ := bind_eq_ok.mp hchecks
    cases hchecks
    exact ⟨⟨schemaCheck H o.registry env, sigs, cp, trusted, attestation⟩,
      ⟨rfl, hsigs, hcp, htrusted, hattestation⟩, rfl⟩

namespace EnvelopeSections

variable {s : EnvelopeSections}

theorem signature_passes (hs : report.checks = s.checks H env o) :
    report.Passes "signature_valid" ↔ s.sigs.signature.status = .pass := by
  simp [VerificationReport.Passes, hs, checks, Entries.get]

theorem trusted_passes (hs : report.checks = s.checks H env o) :
    report.Passes "signer_trusted" ↔ s.trusted.status = .pass := by
  simp [VerificationReport.Passes, hs, checks, Entries.get]

theorem inclusion_passes (hs : report.checks = s.checks H env o) :
    report.Passes "inclusion_proof_valid" ↔ s.checkpoint.inclusion.status = .pass := by
  simp [VerificationReport.Passes, hs, checks, Entries.get]

theorem checkpoint_passes (hs : report.checks = s.checks H env o) :
    report.Passes "checkpoint_trusted" ↔ s.checkpoint.checkpoint.status = .pass := by
  simp [VerificationReport.Passes, hs, checks, Entries.get]

/-- A checkpoint proves a signing time only where it is trusted and includes the envelope. -/
theorem provenBefore_none (hs : s.RanOn H env o)
    (h : ¬(s.checkpoint.checkpoint.status = .pass ∧ s.checkpoint.inclusion.status = .pass)) :
    s.checkpoint.provenBefore = none := by
  have hcheckpoint := hs.checkpoint
  unfold checkpointCheck at hcheckpoint
  cases hcp : env.checkpoint with
  | none =>
    simp only [hcp, Except.ok.injEq] at hcheckpoint
    rw [← hcheckpoint]
  | some cp =>
    simp only [hcp] at hcheckpoint
    split_ifs at hcheckpoint with hdigest
    · obtain ⟨cpBefore, _⟩ := s
      cases hcheckpoint
      rfl
    · rw [attachedCheckpoint] at hcheckpoint
      obtain ⟨sthOk, _, hcheckpoint⟩ := bind_eq_ok.mp hcheckpoint
      obtain ⟨witnessKeys, _, hcheckpoint⟩ := bind_eq_ok.mp hcheckpoint
      simp only [Except.ok.injEq] at hcheckpoint
      rw [← hcheckpoint] at h ⊢
      exact if_neg h

end EnvelopeSections

/-- What of the checkpoint check the number of witnesses does not reach. -/
def headTrusted (H : Host) (o : VerifyEnvelopeOptions) (sth : STH) (sthOk : Bool) : Prop :=
  sthOk = true ∧
    (o.trust.evaluate H
      { keyId := sth.signature.keyId, purpose := .log, now := o.now }).status = .pass ∧
    ¬(o.maxCheckpointAgeMs.any fun limit =>
      limit.lt (o.now.sub (dateNumber H sth.timestamp))) = true

theorem treeHeadCheck_pass_iff {sth : STH} {sthOk : Bool} {n : Nat} :
    (treeHeadCheck H o sth sthOk n).status = .pass ↔ headTrusted H o sth sthOk ∧
      (JsNumber.ofInt n).lt (o.witnessThreshold.getD (.ofInt 0)) = false := by
  rw [treeHeadCheck, headTrusted]
  cases sthOk with
  | false => simp [check]
  | true =>
    simp only [Bool.not_true, Bool.false_eq_true, if_false, true_and]
    split
    · rename_i hlog
      refine ⟨fun h => ?_, fun h => absurd h.1.1 hlog⟩
      simp only [check] at h
      split at h <;> cases h
    · rename_i hlog
      split
      · rename_i hstale
        exact ⟨fun h => (by cases h), fun h => absurd hstale h.1.2⟩
      · rename_i hstale
        split
        · rename_i hfew
          refine ⟨fun h => (by cases h), fun h => ?_⟩
          rw [hfew] at h
          cases h.2
        · rename_i hfew
          exact ⟨fun _ => ⟨⟨not_not.mp hlog, hstale⟩, Bool.not_eq_true _ ▸ hfew⟩, fun _ => rfl⟩

/-- A signature check passes for at least one signature. -/
theorem signed_of_signatureCheck {digest : Check} {sigs : SignatureResult}
    (h : signatureCheck H env digest = .ok sigs) (hpass : sigs.signature.status = .pass) :
    env.signatures ≠ [] := by
  intro hnone
  unfold signatureCheck at h
  split_ifs at h
  · cases h
    cases hpass
  · cases h
    cases hpass

private theorem ne_unknown_of_worstOf {results : List Check} {c : Check}
    (h : worstOf results = some c) (hc : c.status = .pass) :
    ∀ r ∈ results, r.status ≠ .unknown := by
  intro r hr hunknown
  simp only [worstOf, Option.orElse_eq_orElse, Option.orElse_eq_or] at h
  rcases Option.or_eq_some_iff.mp h with hfail | ⟨_, h⟩
  · have hstatus := List.find?_some hfail
    rw [of_decide_eq_true hstatus] at hc
    cases hc
  rcases Option.or_eq_some_iff.mp h with hfound | ⟨hnone, _⟩
  · have hstatus := List.find?_some hfound
    rw [of_decide_eq_true hstatus] at hc
    cases hc
  · rw [List.find?_eq_none] at hnone
    exact hnone r hr (decide_eq_true hunknown)

/-- The worst of decided answers passes exactly where all of them do. -/
theorem worstOf_pass_iff {results : List Check} {c : Check} (hc : worstOf results = some c)
    (h : ∀ r ∈ results, r.status = .pass ∨ r.status = .fail ∨ r.status = .unknown) :
    c.status = .pass ↔ ∀ r ∈ results, r.status = .pass := by
  constructor
  · intro hpass r hr
    rcases h r hr with hstatus | hstatus | hstatus
    · exact hstatus
    · exact (ne_fail_of_worstOf hc (by simp [hpass]) r hr hstatus).elim
    · exact (ne_unknown_of_worstOf hc hpass r hr hstatus).elim
  · intro hall
    apply hall
    simp only [worstOf, Option.orElse_eq_orElse, Option.orElse_eq_or] at hc
    rcases Option.or_eq_some_iff.mp hc with hfail | ⟨_, hc⟩
    · exact List.mem_of_find?_eq_some hfail
    rcases Option.or_eq_some_iff.mp hc with hunknown | ⟨_, hc⟩
    · exact List.mem_of_find?_eq_some hunknown
    · exact List.mem_of_mem_head? hc

/-- The trust check passes exactly where the store trusts every signer. -/
theorem trustCheck_pass_iff {sigs : SignatureResult} {provenBefore : Option JsNumber} {c : Check}
    (h : trustCheck H env o sigs provenBefore = .ok c) (hsigs : sigs.signature.status = .pass) :
    c.status = .pass ↔ ∀ id ∈ sigs.validSigners,
      (o.trust.evaluate H
        { keyId := id
          purpose := o.purposeOf env.core.eventType
          now := o.now
          claimedSignedAt := some (dateNumber H env.core.observedAt)
          provenSignedBefore := provenBefore }).status = .pass := by
  unfold trustCheck at h
  rw [if_neg (not_not_intro hsigs)] at h
  simp only at h
  split at h
  · rename_i c' hc
    cases h
    rw [worstOf_pass_iff hc, List.forall_mem_map]
    intro r hr
    obtain ⟨id, _, rfl⟩ := List.mem_map.mp hr
    exact o.trust.evaluate_decided H _
  · cases h

/-! ## The verifier answers -/

private theorem eq_nil_of_worstOf {results : List Check} (h : worstOf results = none) :
    results = [] := by
  simp only [worstOf, Option.orElse_eq_orElse, Option.orElse_eq_or, Option.or_eq_none_iff] at h
  exact List.head?_eq_none_iff.mp h.2.2

/-- Trust is judged where a passing signature check names a signer. -/
theorem exists_trustCheck (env : SignedEnvelope) (o : VerifyEnvelopeOptions)
    {sigs : SignatureResult} (provenBefore : Option JsNumber)
    (h : sigs.signature.status = .pass → sigs.validSigners ≠ []) :
    ∃ trusted, trustCheck H env o sigs provenBefore = .ok trusted := by
  unfold trustCheck
  split
  · exact ⟨_, rfl⟩
  · rename_i hsigs
    dsimp only
    split
    · exact ⟨_, rfl⟩
    · rename_i hnone
      exact absurd (List.map_eq_nil_iff.mp (eq_nil_of_worstOf hnone)) (h (not_not.mp hsigs))

/-- The blocks are judged where the digest they cover is that of the committed bytes. -/
theorem exists_signatureCheck (hsha : ∀ data, (H.sha256 data).length = 32) (env : SignedEnvelope) :
    ∃ sigs, signatureCheck H env (digestCheck H env (canonicalCheck H env)) = .ok sigs := by
  unfold signatureCheck
  split
  · exact ⟨_, rfl⟩
  rename_i hdigest
  split
  · exact ⟨_, rfl⟩
  obtain ⟨bytes, _, hcommit⟩ := commit_of_digestCheck (not_not.mp hdigest)
  have hmessage : ∃ message, signatureMessage env.digest = .ok message := by
    rw [← hcommit, signatureMessage, commit, mhSha256, multihashDigest_toHex (hsha _), ok_bind]
    exact ⟨_, rfl⟩
  obtain ⟨message, hmessage⟩ := hmessage
  have hloop : ∀ sigs run, ∃ out, signatureLoop H env sigs run = .ok out := by
    intro sigs
    induction sigs with
    | nil => exact fun run => ⟨run, rfl⟩
    | cons sig sigs ih =>
      intro run
      rw [signatureLoop]
      refine exists_bind ?_ fun problem _ => ih _
      unfold blockProblem
      split_ifs
      · exact ⟨_, rfl⟩
      · exact ⟨_, rfl⟩
      · rw [hmessage, ok_bind]
        exact ⟨_, rfl⟩
  exact exists_bind (hloop _ _) fun run _ => ⟨_, rfl⟩

/-- The verifier answers on every envelope that carries no checkpoint and no attestation. -/
theorem exists_report (hsha : ∀ data, (H.sha256 data).length = 32)
    (hdate : ∃ text, toISOString o.now = .ok text) (hcheckpoint : env.checkpoint = none)
    (hattestation : env.attestation = none) : ∃ report, verifyEnvelope H env o = .ok report := by
  obtain ⟨verifiedAt, hdate⟩ := hdate
  rw [verifyEnvelope, hdate, ok_bind]
  dsimp only
  split
  · exact ⟨_, rfl⟩
  have hnone : ∃ cp, checkpointCheck H env o (digestCheck H env (canonicalCheck H env)) =
      .ok cp := by
    rw [checkpointCheck, hcheckpoint]
    exact ⟨_, rfl⟩
  have hattested : ∀ sigs, ∃ c, attestationCheck H env o sigs = .ok c := by
    intro sigs
    rw [attestationCheck, hattestation]
    exact ⟨_, rfl⟩
  obtain ⟨sigs, hsigs⟩ := exists_signatureCheck hsha env
  obtain ⟨cp, hcp⟩ := hnone
  have hsigners : sigs.signature.status = .pass → sigs.validSigners ≠ [] := by
    intro hpass
    rw [(carried_of_signatureCheck hsigs hpass).2.1]
    simpa using signed_of_signatureCheck hsigs hpass
  obtain ⟨trusted, htrusted⟩ := exists_trustCheck (H := H) env o cp.provenBefore hsigners
  obtain ⟨attestation, hattestation⟩ := hattested sigs
  simp only [envelopeChecks, hsigs, hcp, htrusted, hattestation, ok_bind]
  exact ⟨_, rfl⟩

end

end CoolSdk
