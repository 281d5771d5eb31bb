import CoolSdk.Phala.NeverThrows
import CoolSdk.Platform.Bundle
import CoolSdk.Platform.Sections

/-!
# Verifying a bundle

The eight checks of `verifyBundle`. Nothing the exporter concluded is trusted: every envelope is
verified again, the manifest is recomputed and references are resolved inside the bundle. The
loop over sequence numbers counts in doubles, so it never passes 2^53; where it does not end,
neither does the verifier.
-/

namespace CoolSdk

/-- The exporter's public key with its id. -/
structure ExporterKey where
  keyId : String
  mlDsaPub : String
  ed25519Pub : String
  deriving DecidableEq, Repr

/-- Everything needed to verify a set of events again somewhere else. -/
structure EvidenceBundle where
  schema : String := "cool.bundle.v1"
  createdAt : String
  title : String
  envelopes : List SignedEnvelope
  decisions : List JsValue.Members
  attachments : Option (List BundleAttachment) := none
  trustSnapshot : TrustSnapshot
  manifest : BundleManifest
  signature : SignatureBlock
  exporterKey : ExporterKey

/-- The attachments of a bundle, none where the member is missing. -/
def EvidenceBundle.attached (b : EvidenceBundle) : List BundleAttachment := b.attachments.getD []

/-- What a bundle is verified against. The trust store and the resolver of the envelope options
are not read. -/
structure VerifyBundleOptions where
  envelope : VerifyEnvelopeOptions
  trust : Option TrustStore := none

/-- The report's line on an envelope. -/
structure BundleEnvelopeResult where
  eventId : String
  eventType : String
  overallStatus : OverallStatus
  reasons : List String
  deriving DecidableEq, Repr

/-- One envelope's place in time. -/
structure BundleEntry where
  at_ : String
  eventId : String
  eventType : String
  digest : Multihash
  overallStatus : OverallStatus
  deriving DecidableEq, Repr

/-- The report on a bundle. -/
structure BundleReport where
  schema : String := "cool.bundle-report.v1"
  overallStatus : OverallStatus
  outcome : Outcome
  checks : Checks
  envelopes : List BundleEnvelopeResult
  entries : List BundleEntry
  reasons : List String
  deriving DecidableEq, Repr

namespace JsNumber

/-- What `n` goes through in `for (let n = 0; n <= bound; n++)`. Adding one to 2^53 gives 2^53
again, so a loop whose bound is that large does not end. -/
def countedTo : JsNumber → Option (List Nat)
  | nan | negInfinity => some []
  | negZero => some [0]
  | finite q =>
    if q < 0 then some [] else if 2 ^ 53 ≤ q then none else some (List.range (q.floor.toNat + 1))
  | infinity => none

end JsNumber

section

variable (H : Host)

/-- The check of the recomputed manifest against the stated one. -/
def manifestCheck (recomputed stated : BundleManifest) : Check :=
  if recomputed.digest = stated.digest then
    check .pass "manifest_matches"
      (toString recomputed.entries.length ++ " entries; " ++ recomputed.digest)
  else check .fail "manifest_mismatch"
    "the bundle contents do not match its manifest (added, removed or altered entries)"

/-- The check of the exporter's signature over the stated manifest. -/
def exporterCheck (b : EvidenceBundle) : Except String Check := do
  let message ← multihashDigest b.manifest.digest
  let exporterOk := H.hybridVerify message b.signature
      { mlDsaPub := b.exporterKey.mlDsaPub, ed25519Pub := b.exporterKey.ed25519Pub } &&
    decide (b.signature.keyId = b.exporterKey.keyId)
  .ok (if exporterOk then
      { check .pass "exporter_signed" ("manifest signed by " ++ b.exporterKey.keyId) with
        limitation := some "proves who exported the bundle, not that the exporter is trusted" }
    else check .fail "exporter_signature_invalid" "the manifest signature does not verify")

/-- Where the trust in the signers comes from. -/
def trustSourceCheck (trust : Option TrustStore) : Check :=
  if trust.isSome then
    check .pass "verifier_trust" "signers judged against the verifier's own trust snapshot"
  else check .unknown "self_asserted_trust" ("no trust snapshot supplied: signers judged against " ++
    "the exporter's snapshot, which proves nothing about trust")

/-- The check over the reports on the envelopes. -/
def envelopesCheck (reports : List VerificationReport) : Check :=
  let failed := reports.filter fun r => decide (r.overallStatus = .fail)
  let unknown := reports.filter fun r => decide (r.overallStatus = .unknown)
  let count (l : List VerificationReport) : String :=
    toString l.length ++ " of " ++ toString reports.length
  if failed ≠ [] then check .fail "envelope_failed" (count failed ++ " envelope(s) failed")
  else if unknown ≠ [] then
    check .unknown "envelope_unknown" (count unknown ++ " envelope(s) could not be decided")
  else check .pass "all_envelopes_valid" (toString reports.length ++ " envelope(s) verified")

/-- The completeness check of a report. -/
def VerificationReport.completeness (r : VerificationReport) : Check :=
  (Entries.get r.checks "evidence_complete").getD (NC "")

/-- Whether every reference resolves inside the bundle. -/
def resolvedCheck (reports : List VerificationReport) : Check :=
  let missing := reports.filter fun r => decide (r.completeness.status = .fail)
  if missing ≠ [] then
    check .fail "missing_evidence" ("; ".intercalate (missing.map fun r =>
      (r.subject.map ReportSubject.eventId).getD "undefined" ++ ": " ++ r.completeness.detail))
  else check .pass "references_resolved" "every reference resolves inside the bundle"

/-- Whether every decision an envelope cites is in the bundle. -/
def decisionsCheck (b : EvidenceBundle) : Except String Check := do
  let digests ← b.decisions.mapM fun d => do
    let bytes ← H.canonicalCbor (.object d)
    .ok (mhSha256 H bytes)
  let unbound := b.envelopes.filter fun e =>
    e.core.policy.any fun p => !digests.contains p.decisionRef
  .ok (if unbound ≠ [] then
      check .fail "decision_missing"
        (toString unbound.length ++ " envelope(s) cite a policy decision not in the bundle")
    else check .pass "decisions_bound"
      (toString b.decisions.length ++ " decision(s); every citation resolves"))

/-- The digest of the JSON form of a body. -/
def bodyDigest (body : JsValue) : Except String Multihash := do
  let clone ← H.jsonClone body
  let bytes ← H.canonicalCbor clone
  .ok (mhSha256 H bytes)

/-- Whether an attachment's digest is that of its body; whatever is thrown on the way is a
mismatch. -/
def attachmentBound (a : BundleAttachment) : Bool :=
  match bodyDigest H a.body with
  | .ok digest => decide (digest = a.digest)
  | .error _ => false

/-- The check of the attachments against their digests. -/
def attachmentsCheck (b : EvidenceBundle) : Check :=
  let bad := b.attached.filter fun a => !attachmentBound H a
  if bad ≠ [] then check .fail "attachment_mismatch"
    (toString bad.length ++ " attachment(s) do not match their digest")
  else check (if b.attached ≠ [] then .pass else .notApplicable)
    (if b.attached ≠ [] then "attachments_bound" else "no_attachments")
    (toString b.attached.length ++ " attachment(s)")

/-- Add an envelope's number to those of its epoch. -/
def addSequence (byEpoch : OrderedMap JsNumber (List JsNumber)) (e : SignedEnvelope) :
    OrderedMap JsNumber (List JsNumber) :=
  match e.core.sequence with
  | none => byEpoch
  | some s =>
    byEpoch.set s.epoch.mapKey ((byEpoch.get s.epoch.mapKey).getD [] ++ [s.number])

/-- The sequence numbers of the envelopes, by epoch. -/
def sequencesByEpoch (envelopes : List SignedEnvelope) : OrderedMap JsNumber (List JsNumber) :=
  envelopes.foldl addSequence .empty

/-- The numbers missing in an epoch, where the loop over them ends. -/
def missingNumbers (numbers : List JsNumber) : Option (List Nat) :=
  (JsNumber.maxOf numbers).countedTo.map fun ns =>
    ns.filter fun n => !(numbers.map JsNumber.mapKey).contains (JsNumber.ofInt n).mapKey

/-- The gaps of all epochs. -/
def sequenceGaps (byEpoch : OrderedMap JsNumber (List JsNumber)) : Option (List String) :=
  (byEpoch.entries.mapM fun e => (missingNumbers e.2).map fun ns =>
    ns.map fun n => H.numberText e.1 ++ "." ++ toString n).map List.flatten

/-- What the sequence check does not establish. -/
def sequenceLimitation : String :=
  "a dropped final receipt is only detectable once a later one arrives"

/-- Sequenced receipts must be contiguous per epoch. -/
def sequenceCheck (envelopes : List SignedEnvelope) : Option Check :=
  let byEpoch := sequencesByEpoch envelopes
  (sequenceGaps H byEpoch).map fun gaps =>
    if byEpoch.entries = [] then
      check .notApplicable "no_sequences" "no sequenced evidence in this bundle"
    else if gaps ≠ [] then
      { check .fail "sequence_gap" ("missing " ++ ", ".intercalate gaps ++
          " — the history for those intervals is incomplete") with
        limitation := some sequenceLimitation }
    else
      { check .pass "sequences_contiguous" (toString (byEpoch.values.map List.length).sum ++
          " sequenced receipt(s), no gaps") with
        limitation := some sequenceLimitation }

/-- The order of the report's entries: by time, then by digest. -/
def compareEntries (a b : BundleEntry) : JsNumber :=
  if a.at_ = b.at_ then H.localeCompare a.digest b.digest else H.localeCompare a.at_ b.at_

/-- The names of the checks, in the order of the report. -/
def bundleCheckNames : List String :=
  ["manifest_valid", "exporter_signature_valid", "trust_source", "envelopes_valid",
    "evidence_complete", "decisions_bound", "attachments_bound", "sequence_complete"]

/-- The report on a bundle's checks and envelopes. -/
def bundleReport (b : EvidenceBundle) (checks : Checks) (reports : List VerificationReport) :
    BundleReport :=
  { overallStatus := (overallOf checks bundleCheckNames).1
    outcome := (classifyOutcome checks bundleCheckNames).1
    checks
    envelopes := (b.envelopes.zip reports).map fun (e, r) =>
      { eventId := e.core.eventId
        eventType := e.core.eventType
        overallStatus := r.overallStatus
        reasons := r.reasons }
    entries := H.sort (compareEntries H) ((b.envelopes.zip reports).map fun (e, r) =>
      { at_ := e.core.occurredAt
        eventId := e.core.eventId
        eventType := e.core.eventType
        digest := e.digest
        overallStatus := r.overallStatus })
    reasons := (overallOf checks bundleCheckNames).2 }

/-- The trust store a bundle is verified against. -/
def bundleTrust (b : EvidenceBundle) (trust : Option TrustStore) : Except String TrustStore :=
  match trust with
  | some t => .ok t
  | none => TrustStore.ofSnapshot b.trustSnapshot

/-- Verify a bundle, recomputing everything; no report where the loop over sequence numbers does
not end. -/
def verifyBundle (b : EvidenceBundle) (o : VerifyBundleOptions) :
    Except String (Option BundleReport) :=
  if b.schema ≠ "cool.bundle.v1" then .error "not a cool.bundle.v1 bundle"
  else do
    let recomputed ← manifestOf H b.envelopes b.decisions b.attached
    let exporter ← exporterCheck H b
    let trust ← bundleTrust b o.trust
    let reports ← b.envelopes.mapM fun e => verifyEnvelope H e
      { o.envelope with
        trust
        resolve := some fun ref => (b.envelopes.map SignedEnvelope.digest).contains ref }
    let decisions ← decisionsCheck H b
    .ok ((sequenceCheck H b.envelopes).map fun sequence =>
      bundleReport H b
        [("manifest_valid", manifestCheck recomputed b.manifest),
          ("exporter_signature_valid", exporter), ("trust_source", trustSourceCheck o.trust),
          ("envelopes_valid", envelopesCheck reports),
          ("evidence_complete", resolvedCheck reports), ("decisions_bound", decisions),
          ("attachments_bound", attachmentsCheck H b), ("sequence_complete", sequence)]
        reports)

/-- What a bundle's verification computes before it reports. -/
structure BundleSections where
  recomputed : BundleManifest
  exporter : Check
  reports : List VerificationReport
  decisions : Check
  sequence : Check

/-- The sections ran on a bundle. -/
structure BundleSections.RanOn (s : BundleSections) (b : EvidenceBundle) : Prop where
  recomputed : manifestOf H b.envelopes b.decisions b.attached = .ok s.recomputed
  exporter : exporterCheck H b = .ok s.exporter
  decisions : decisionsCheck H b = .ok s.decisions
  sequence : sequenceCheck H b.envelopes = some s.sequence

/-- The checks a bundle's report lists, by the sections. -/
def BundleSections.checks (s : BundleSections) (b : EvidenceBundle) (o : VerifyBundleOptions) :
    Checks :=
  [("manifest_valid", manifestCheck s.recomputed b.manifest),
    ("exporter_signature_valid", s.exporter), ("trust_source", trustSourceCheck o.trust),
    ("envelopes_valid", envelopesCheck s.reports), ("evidence_complete", resolvedCheck s.reports),
    ("decisions_bound", s.decisions), ("attachments_bound", attachmentsCheck H b),
    ("sequence_complete", s.sequence)]

end

/-- A check of the report is there and passes. -/
def BundleReport.Passes (report : BundleReport) (name : String) : Prop :=
  ∃ c, Entries.get report.checks name = some c ∧ c.status = .pass

section

variable {H : Host} {b : EvidenceBundle} {o : VerifyBundleOptions}

/-- A report lists what the sections came to. -/
theorem sections_of_verifyBundle {report : BundleReport}
    (h : verifyBundle H b o = .ok (some report)) :
    ∃ s : BundleSections, s.RanOn H b ∧ report.checks = s.checks H b o := by
  unfold verifyBundle at h
  split_ifs at h with hschema
  obtain ⟨recomputed, hrecomputed, h⟩ := bind_eq_ok.mp h
  obtain ⟨exporter, hexporter, h⟩ := bind_eq_ok.mp h
  obtain ⟨trust, _, h⟩ := bind_eq_ok.mp h
  obtain ⟨reports, _, h⟩ := bind_eq_ok.mp h
  obtain ⟨decisions, hdecisions, h⟩ := bind_eq_ok.mp h
  obtain ⟨sequence, hsequence, rfl⟩ := Option.map_eq_some_iff.mp (Except.ok.inj h)
  exact ⟨⟨recomputed, exporter, reports, decisions, sequence⟩,
    ⟨hrecomputed, hexporter, hdecisions, hsequence⟩, rfl⟩

/-- The verifier answers on a bundle of envelopes without checkpoints and attestations, under a
store of its own, where its manifest is recomputed. -/
theorem exists_bundleReport (hsha : ∀ data, (H.sha256 data).length = 32)
    (hmanifest : ∃ m, manifestOf H b.envelopes b.decisions b.attached = .ok m)
    (hschema : b.schema = "cool.bundle.v1")
    (hdigest : ∃ message, multihashDigest b.manifest.digest = .ok message)
    (htrust : o.trust.isSome = true) (hdate : ∃ text, toISOString o.envelope.now = .ok text)
    (henvelopes : ∀ e ∈ b.envelopes, e.checkpoint = none ∧ e.attestation = none)
    (hdecisions : b.decisions = []) (hsequence : (sequenceCheck H b.envelopes).isSome = true) :
    ∃ report, verifyBundle H b o = .ok (some report) := by
  obtain ⟨sequence, hsequence⟩ := Option.isSome_iff_exists.mp hsequence
  obtain ⟨trust, htrust⟩ := Option.isSome_iff_exists.mp htrust
  obtain ⟨message, hdigest⟩ := hdigest
  have hexporter : ∃ c, exporterCheck H b = .ok c := by
    rw [exporterCheck, hdigest, ok_bind]
    exact ⟨_, rfl⟩
  have hdecided : ∃ c, decisionsCheck H b = .ok c := by
    rw [decisionsCheck, hdecisions, List.mapM_nil]
    exact ⟨_, rfl⟩
  obtain ⟨manifest, hmanifest⟩ := hmanifest
  obtain ⟨exporter, hexporter⟩ := hexporter
  obtain ⟨decided, hdecided⟩ := hdecided
  have hreports : ∀ o' : VerifyEnvelopeOptions, o'.now = o.envelope.now →
      ∃ reports, b.envelopes.mapM (fun e => verifyEnvelope H e o') = .ok reports := by
    intro o' hnow
    refine exists_mapM fun e he => ?_
    exact exists_report hsha (hnow ▸ hdate) (henvelopes e he).1 (henvelopes e he).2
  obtain ⟨reports, hreports⟩ := hreports
    { o.envelope with
      trust
      resolve := some fun ref => (b.envelopes.map SignedEnvelope.digest).contains ref } rfl
  have hstore : bundleTrust b o.trust = .ok trust := by
    rw [htrust]
    rfl
  rw [verifyBundle, if_neg (not_not_intro hschema), hmanifest, ok_bind, hexporter, ok_bind, hstore,
    ok_bind, hreports, ok_bind, hdecided, ok_bind, hsequence]
  exact ⟨_, rfl⟩

end

/-! ## Bundles of the reference host -/

namespace Reference

/-- The key an exporter signs with. -/
def exporterKey : KeyPair := key "exporter-1" "CCCC"

/-- The manifest of envelopes alone. -/
def manifestFor (envelopes : List SignedEnvelope) : BundleManifest :=
  match manifestOf totalHost envelopes [] [] with
  | .ok manifest => manifest
  | .error _ => { entries := [], digest := "" }

theorem manifestOf_manifestFor (envelopes : List SignedEnvelope) :
    manifestOf totalHost envelopes [] [] = .ok (manifestFor envelopes) := rfl

/-- The exporter's bundle of envelopes alone. -/
def bundleOf (envelopes : List SignedEnvelope) : EvidenceBundle :=
  { createdAt := "2026-01-01T00:00:01.000Z"
    title := "release"
    envelopes
    decisions := []
    trustSnapshot :=
      { schema := "cool.trust-store.v1", id := "snapshot-1", asOf := "2026-01-01T00:00:00.000Z",
        keys := [] }
    manifest := manifestFor envelopes
    signature := match signManifest totalHost (manifestFor envelopes) exporterKey with
      | .ok signature => signature
      | .error _ => { alg := "", mlDsa := "", ed25519 := "", keyId := "" }
    exporterKey :=
      { keyId := exporterKey.keyId
        mlDsaPub := exporterKey.directoryEntry.mlDsaPub
        ed25519Pub := exporterKey.directoryEntry.ed25519Pub } }

/-- The digest a manifest states is one that can be signed. -/
theorem digest_manifestFor (envelopes : List SignedEnvelope) :
    ∃ message, multihashDigest (manifestFor envelopes).digest = .ok message := by
  have hmanifest := manifestOf_manifestFor envelopes
  rw [manifestOf, List.mapM_nil] at hmanifest
  obtain ⟨_, _, hmanifest⟩ := bind_eq_ok.mp hmanifest
  obtain ⟨digest, hdigest, hmanifest⟩ := bind_eq_ok.mp hmanifest
  obtain ⟨bytes, _, hdigest⟩ := bind_eq_ok.mp hdigest
  cases hdigest
  rw [← Except.ok.inj hmanifest]
  exact ⟨_, multihashDigest_toHex (length_digest _)⟩

/-- What a verifier with a store of its own asks of a bundle. -/
def bundleOptions (keys : List KeyRecord) : VerifyBundleOptions :=
  { envelope := { commitOptions with trust := store keys }
    trust := some (store keys) }

/-- The verifier answers on the exporter's bundle. -/
theorem exists_report_bundleOf {envelopes : List SignedEnvelope}
    (henvelopes : ∀ e ∈ envelopes, e.checkpoint = none ∧ e.attestation = none)
    (hsequence : (sequenceCheck totalHost envelopes).isSome = true) (keys : List KeyRecord) :
    ∃ report, verifyBundle totalHost (bundleOf envelopes) (bundleOptions keys) =
      .ok (some report) := by
  have hdate : toISOString (clock 1000) = .ok "2026-01-01T00:00:01.000Z" := by decide
  exact exists_bundleReport length_digest ⟨_, manifestOf_manifestFor envelopes⟩ rfl
    (digest_manifestFor envelopes) rfl ⟨_, hdate⟩ henvelopes rfl hsequence

end Reference

end CoolSdk
