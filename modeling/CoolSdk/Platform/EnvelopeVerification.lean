import CoolSdk.Core.Fallible
import CoolSdk.Platform.Envelope

/-!
# Verifying an envelope

The eleven checks of `verifyEnvelope` and their fold. A section of the source that may throw
is an `Except`; a check whose prerequisite failed says so and is never a pass. The Nitro
verifier, the authorization policy and the evidence store are the caller's.
-/

namespace CoolSdk

/-- What the report on an attached Nitro document says. -/
structure NitroReport where
  overallStatus : OverallStatus
  reasons : List String
  documentSha256 : String
  parserName : String
  parserVersion : String
  deriving DecidableEq, Repr

/-- The purpose signers are trusted for, fixed or by event type. -/
inductive PurposeOption
  | fixed (purpose : KeyPurpose)
  | byEventType (f : String → KeyPurpose)

/-- What an envelope is verified against. -/
structure VerifyEnvelopeOptions where
  registry : PayloadRegistry
  trust : TrustStore
  purpose : Option PurposeOption := none
  /-- Verification time, the clock's reading when the caller names none. -/
  now : JsNumber
  clockSkewMs : Option JsNumber := none
  requireCheckpoint : Bool := false
  maxCheckpointAgeMs : Option JsNumber := none
  witnessThreshold : Option JsNumber := none
  requireAttestation : Bool := false
  /-- The Nitro verifier on a document and the key it must bind. -/
  nitro : Bytes → String → Option DirectoryEntry → Except String NitroReport
  /-- The policy that decides `signer_authorized`, on the core and a signer's key id. -/
  authorize : Option (EnvelopeCore → String → Check) := none
  /-- Whether a referenced digest resolves. -/
  resolve : Option (Multihash → Bool) := none

/-- What a report is about. -/
structure ReportSubject where
  eventId : String
  eventType : String
  digest : String
  deriving DecidableEq, Repr

/-- The report on an envelope. -/
structure VerificationReport where
  schema : String := "cool.verification-report.v1"
  subject : Option ReportSubject
  overallStatus : OverallStatus
  outcome : Outcome
  checks : Checks
  reasons : List String
  verifiedAt : String
  deriving DecidableEq, Repr

/-- The skew allowed between clocks unless the caller names another. -/
def defaultClockSkewMs : JsNumber := .ofInt 300000

namespace VerifyEnvelopeOptions

/-- The skew allowed between clocks. -/
def skew (o : VerifyEnvelopeOptions) : JsNumber := o.clockSkewMs.getD defaultClockSkewMs

/-- The purpose the signers of an event must be trusted for. -/
def purposeOf (o : VerifyEnvelopeOptions) (eventType : String) : KeyPurpose :=
  match o.purpose with
  | none => .evidence
  | some (.fixed purpose) => purpose
  | some (.byEventType f) => f eventType

end VerifyEnvelopeOptions

/-- A check that was not evaluated because an earlier one failed. -/
def NC (why : String) : Check := check .notChecked "prerequisite_failed" why

section

variable (H : Host)

/-- The entry an envelope carries for a key id. -/
def SignedEnvelope.carried (env : SignedEnvelope) (keyId : String) : CarriedKey :=
  match env.keyDirectory.get keyId with
  | some entry => .entry entry
  | none => if isInherited keyId then .inherited else .absent

/-- The schema check: the format, the core's schema and its payload. -/
def schemaCheck (registry : PayloadRegistry) (env : SignedEnvelope) : Check :=
  if env.format ≠ "cool.signed-envelope.v1" ∨ env.core.schema ≠ "cool.envelope.v1" then
    check .fail "unsupported_schema" "not a cool.envelope.v1 signed envelope"
  else
    let problems := match registry.get env.core.payloadSchema with
      | none => ["unknown payload schema " ++ env.core.payloadSchema]
      | some ps =>
        if ps.eventType ≠ env.core.eventType then
          ["payload schema " ++ env.core.payloadSchema ++ " is not for " ++ env.core.eventType]
        else registry.validate H env.core.payloadSchema (.object env.core.payload)
    if problems ≠ [] then
      { check .fail "payload_invalid" ("; ".intercalate problems) with
        algorithm := some env.core.payloadSchema }
    else
      { check .pass "schema_valid" ("cool.envelope.v1 with payload " ++ env.core.payloadSchema) with
        algorithm := some env.core.payloadSchema }

/-- The names of the checks, in the order of the report. -/
def envelopeCheckNames : List String :=
  ["schema_valid", "canonical_encoding_valid", "digest_valid", "signature_valid",
    "signer_trusted", "signer_authorized", "timestamp_valid", "inclusion_proof_valid",
    "checkpoint_trusted", "attestation_valid", "evidence_complete"]

/-- The report on an envelope whose schema is invalid. -/
def schemaReport (schema : Check) (verifiedAt : String) : VerificationReport :=
  let skipped := NC "not evaluated: the envelope schema is invalid"
  let checks : Checks := envelopeCheckNames.map fun name =>
    (name, if name = "schema_valid" then schema else skipped)
  { subject := none
    overallStatus := .fail
    outcome := (classifyOutcome checks ["schema_valid"]).1
    checks
    reasons := ["schema_valid: " ++ schema.reason]
    verifiedAt }

/-- The comparisons of the encoding check, each of which may throw. -/
def encodingVerdict (env : SignedEnvelope) : Except String Check := do
  let bytes ← fromBase64 H env.coreCbor
  let decoded ← H.cborDecode bytes
  let again ← H.canonicalCbor decoded
  if !bytesEqual again bytes then
    .ok { check .fail "non_canonical_encoding" "core_cbor is not in deterministic (CDE) form" with
      algorithm := some "cbor-cde" }
  else do
    let own ← canonicalize H env.core
    .ok (if !bytesEqual own bytes then
        { check .fail "core_mismatch" "the readable core does not match the committed bytes" with
          algorithm := some "cbor-cde" }
      else
        { check .pass "canonical" "committed bytes are canonical and match the core" with
          algorithm := some "cbor-cde" })

/-- The encoding check. Whatever is thrown on the way is a malformed encoding. -/
def canonicalCheck (env : SignedEnvelope) : Check :=
  match encodingVerdict H env with
  | .ok c => c
  | .error err => check .fail "malformed_encoding" ("core_cbor did not decode: " ++ err)

/-- The digest check, over the committed bytes. -/
def digestCheck (env : SignedEnvelope) (canonical : Check) : Check :=
  match fromBase64 H env.coreCbor with
  | .error _ => NC "not evaluated: encoding check failed"
  | .ok bytes =>
    if canonical.status ≠ .pass then NC "not evaluated: encoding check failed"
    else if env.digestAlg ≠ "sha-256" ∨ usableAlgorithm env.digestAlg .digest = none then
      check .fail "unsupported_algorithm"
        ("digest algorithm " ++ env.digestAlg ++ " is not accepted")
    else if commit H bytes = env.digest then
      { check .pass "digest_matches" env.digest with
        algorithm := some "sha-256", evidenceRef := some env.digest }
    else
      { check .fail "digest_mismatch" "recomputed digest differs from the stated digest" with
        algorithm := some "sha-256" }

/-- What is wrong with one signature block: nothing when it verifies under the carried entry. -/
def blockProblem (env : SignedEnvelope) (sig : SignatureBlock) : Except String (Option String) :=
  if usableAlgorithm sig.alg .signature = none then
    .ok (some (sig.keyId ++ ": unsupported algorithm " ++ sig.alg))
  else if env.carried sig.keyId = .absent then
    .ok (some (sig.keyId ++ ": public key not carried"))
  else do
    let message ← signatureMessage env.digest
    .ok (if (env.carried sig.keyId).verifies H message sig then none
      else some (sig.keyId ++ ": does not verify"))

/-- The key ids that verified and the problems of the others. -/
structure SignatureRun where
  validSigners : List String := []
  failures : List String := []

/-- Record what one block came to. -/
def SignatureRun.add (sig : SignatureBlock) (run : SignatureRun) : Option String → SignatureRun
  | none => { run with validSigners := run.validSigners ++ [sig.keyId] }
  | some problem => { run with failures := run.failures ++ [problem] }

/-- The loop over the signature blocks. -/
def signatureLoop (env : SignedEnvelope) :
    List SignatureBlock → SignatureRun → Except String SignatureRun
  | [], run => .ok run
  | sig :: rest, run => do
    let problem ← blockProblem H env sig
    signatureLoop env rest (run.add sig problem)

/-- The signature check with the key ids that verified. -/
structure SignatureResult where
  signature : Check
  validSigners : List String := []

/-- What the loop over the blocks comes to. -/
def SignatureRun.result (run : SignatureRun) : SignatureResult :=
  { signature := if run.failures ≠ [] then
      { check .fail "signature_invalid" ("; ".intercalate run.failures) with
        algorithm := some "ml-dsa-65+ed25519" }
      else
      { check .pass "signature_valid" ("verified for " ++ ", ".intercalate run.validSigners) with
        algorithm := some "ml-dsa-65+ed25519" }
    validSigners := run.validSigners }

/-- The signature check. -/
def signatureCheck (env : SignedEnvelope) (digest : Check) : Except String SignatureResult :=
  if digest.status ≠ .pass then .ok { signature := NC "not evaluated: digest check failed" }
  else if env.signatures = [] then
    .ok { signature := check .fail "unsigned" "the envelope carries no signature" }
  else do
    let run ← signatureLoop H env env.signatures {}
    .ok run.result

/-- Whether an audit path leads from the envelope's leaf to the checkpoint's root. -/
def inclusionVerdict (env : SignedEnvelope) (cp : Checkpoint) : Except String Bool := do
  let leaf ← envelopeLeaf env
  let path ← cp.auditPath.mapM multihashDigest
  let root ← multihashDigest cp.sth.rootHash
  .ok (verifyInclusion H (leafHash H leaf) cp.leafIndex cp.sth.treeSize path root)

/-- The inclusion check. Whatever is thrown on the way is an invalid proof. -/
def inclusionCheck (env : SignedEnvelope) (cp : Checkpoint) : Check :=
  let included := match inclusionVerdict H env cp with
    | .ok included => included
    | .error _ => false
  if included then
    { check .pass "included" ("leaf " ++ toString cp.leafIndex ++ " of " ++
        toString cp.sth.treeSize ++ " in " ++ cp.sth.logId) with
      algorithm := some "rfc6962-sha-256" }
  else
    { check .fail "inclusion_invalid" "the audit path does not lead to the checkpoint root" with
      algorithm := some "rfc6962-sha-256" }

/-- Whether a block signs a tree head under a record of the store; an unknown key does not. -/
def signsTreeHead (sth : STH) (sig : SignatureBlock) (record : Option KeyRecord) :
    Except String Bool :=
  match record with
  | none => .ok false
  | some k => do
    let message ← sthSigningMessage H (sthCore sth)
    .ok (H.hybridVerify message sig k.entry)

/-- Whether a co-signature comes from a trusted external witness. -/
def countsAsWitness (trust : TrustStore) (now : JsNumber) (sth : STH) (w : Witness) :
    Except String Bool :=
  if !w.external || (trust.get w.id).isNone ||
      decide ((trust.evaluate H { keyId := w.id, purpose := .witness, now }).status ≠ .pass) then
    .ok false
  else signsTreeHead H sth ⟨w.alg, w.id, w.mlDsa, w.ed25519⟩ (trust.get w.id)

/-- The checkpoint check, given whether the head's signature verifies and who witnessed it. -/
def treeHeadCheck (o : VerifyEnvelopeOptions) (sth : STH) (sthOk : Bool) (witnesses : Nat) :
    Check :=
  let logTrust := o.trust.evaluate H
    { keyId := sth.signature.keyId, purpose := .log, now := o.now }
  let age := o.now.sub (dateNumber H sth.timestamp)
  let need := o.witnessThreshold.getD (.ofInt 0)
  if !sthOk then
    check .fail "checkpoint_signature_invalid" ("tree head signature by " ++
      sth.signature.keyId ++ " does not verify against the trusted key")
  else if logTrust.status ≠ .pass then
    check (if logTrust.status = .unknown then .unknown else .fail) logTrust.reason logTrust.detail
  else if (o.maxCheckpointAgeMs.any fun limit => limit.lt age) = true then
    check .unknown "checkpoint_stale" ("checkpoint is " ++ H.numberText age ++ " ms old (limit " ++
      H.numberText (o.maxCheckpointAgeMs.getD .nan) ++ ")")
  else if (JsNumber.ofInt witnesses).lt need then
    check .fail "insufficient_witnesses" (toString witnesses ++
      " trusted witness signature(s), " ++ H.numberText need ++ " required")
  else
    { check .pass "checkpoint_trusted" ("tree head " ++ toString sth.treeSize ++
        " signed by trusted log key; " ++ toString witnesses ++ " trusted witness(es)") with
      limitation := some ("a trusted checkpoint shows what the log committed to, " ++
        "not that every event was logged") }

/-- The inclusion and checkpoint checks, with the signing time they prove. -/
structure CheckpointResult where
  inclusion : Check
  checkpoint : Check
  provenBefore : Option JsNumber := none

/-- The two checks of an attached checkpoint. -/
def attachedCheckpoint (env : SignedEnvelope) (o : VerifyEnvelopeOptions) (cp : Checkpoint) :
    Except String CheckpointResult := do
  let inclusion := inclusionCheck H env cp
  let sthOk ← signsTreeHead H cp.sth cp.sth.signature (o.trust.get cp.sth.signature.keyId)
  let witnessKeys ← cp.sth.witnesses.mapM (countsAsWitness H o.trust o.now cp.sth)
  let checkpoint := treeHeadCheck H o cp.sth sthOk (witnessKeys.count true)
  .ok
    { inclusion
      checkpoint
      provenBefore := if checkpoint.status = .pass ∧ inclusion.status = .pass then
        some (dateNumber H cp.sth.timestamp) else none }

/-- The checkpoint section. -/
def checkpointCheck (env : SignedEnvelope) (o : VerifyEnvelopeOptions) (digest : Check) :
    Except String CheckpointResult :=
  match env.checkpoint with
  | none =>
    let absent := if o.requireCheckpoint then
        check .fail "checkpoint_required" "the envelope carries no transparency checkpoint"
      else check .notChecked "no_checkpoint" "the envelope carries no transparency checkpoint"
    .ok { inclusion := absent, checkpoint := absent }
  | some cp =>
    if digest.status ≠ .pass then
      let skipped := NC "not evaluated: digest check failed"
      .ok { inclusion := skipped, checkpoint := skipped }
    else attachedCheckpoint H env o cp

/-- The first refusal, else the first undecided answer, else the first answer. -/
def worstOf (results : List Check) : Option Check :=
  (results.find? fun c => decide (c.status = .fail)) <|>
    (results.find? fun c => decide (c.status = .unknown)) <|> results.head?

/-- The trust check of the signers that verified. -/
def trustCheck (env : SignedEnvelope) (o : VerifyEnvelopeOptions) (sigs : SignatureResult)
    (provenBefore : Option JsNumber) : Except String Check :=
  if sigs.signature.status ≠ .pass then .ok (NC "not evaluated: no valid signature")
  else
    let results := sigs.validSigners.map fun id => o.trust.evaluate H
      { keyId := id
        purpose := o.purposeOf env.core.eventType
        now := o.now
        claimedSignedAt := some (dateNumber H env.core.observedAt)
        provenSignedBefore := provenBefore }
    match worstOf results with
    | some c => .ok c
    | none => .error "Cannot read properties of undefined (reading 'status')"

/-- The authorization check of the first signer. -/
def authorizedCheck (env : SignedEnvelope) (o : VerifyEnvelopeOptions) (trusted : Check)
    (validSigners : List String) : Check :=
  match o.authorize with
  | none => check .notChecked "no_policy_context"
      "authorization needs policy context; none supplied"
  | some authorize =>
    if trusted.status ≠ .pass then NC "not evaluated: signer not trusted"
    else authorize env.core (validSigners.headD "")

/-- The time check. -/
def timestampCheck (env : SignedEnvelope) (o : VerifyEnvelopeOptions) (checkpoint : Check) :
    Check :=
  let occurred := dateNumber H env.core.occurredAt
  let observed := dateNumber H env.core.observedAt
  let late (cp : Checkpoint) : Bool := decide (checkpoint.status = .pass) &&
    ((dateNumber H cp.sth.timestamp).add o.skew).lt observed
  if occurred.isNaN || observed.isNaN then check .fail "invalid_time" "unparseable time field"
  else if (observed.add o.skew).lt occurred then
    check .fail "occurred_after_observed" ("occurred_at " ++ env.core.occurredAt ++
      " is after observed_at " ++ env.core.observedAt)
  else if (o.now.add o.skew).lt observed then
    check .fail "time_in_future" ("observed_at " ++ env.core.observedAt ++ " is in the future")
  else if env.checkpoint.any late then
    check .fail "observed_after_checkpoint"
      "observed_at is later than the checkpoint that includes it"
  else
    { check .pass "times_consistent" "occurred ≤ observed ≤ now (within skew)" with
      limitation := some ("event-reported and collector-observed times only; " ++
        "no RFC 3161 trusted timestamp (not implemented)") }

/-- A verdict as the status of a check. -/
def OverallStatus.checkStatus : OverallStatus → CheckStatus
  | .pass => .pass
  | .fail => .fail
  | .unknown => .unknown

/-- The check a Nitro report comes to. -/
def nitroCheck (report : NitroReport) : Check :=
  { check report.overallStatus.checkStatus
      (if report.overallStatus = .pass then "attestation_valid" else "attestation_not_valid")
      (if "; ".intercalate report.reasons = "" then "all Nitro checks passed"
        else "; ".intercalate report.reasons) with
    evidenceRef := some report.documentSha256
    algorithm := some (report.parserName ++ "/" ++ report.parserVersion) }

/-- The attestation check. The key it must bind is the first signer's carried one. -/
def attestationCheck (env : SignedEnvelope) (o : VerifyEnvelopeOptions) (sigs : SignatureResult) :
    Except String Check :=
  match env.attestation with
  | none => .ok (if o.requireAttestation then
        check .fail "attestation_required" "attestation is required but absent"
      else check .notApplicable "no_attestation" "the envelope does not rely on attestation")
  | some attached =>
    if sigs.signature.status ≠ .pass then .ok (NC "not evaluated: no valid signature")
    else do
      let document ← fromBase64 H attached.document
      if !decide (referenced H env.core document) then
        .ok (check .fail "attestation_not_bound"
          "the attached document is not the one the signed core references")
      else do
        let signer := sigs.validSigners.headD ""
        let report ← o.nitro document signer (env.keyDirectory.get signer)
        .ok (nitroCheck report)

/-- The completeness check over every reference. -/
def completeCheck (env : SignedEnvelope) (o : VerifyEnvelopeOptions) : Check :=
  let refs := env.core.provenance.refs ++ env.core.relations.map Relation.ref
  match o.resolve with
  | none => check .notChecked "no_resolver" "no evidence store supplied to resolve references"
  | some resolve =>
    let missing := refs.filter fun ref => !resolve ref
    if missing ≠ [] then
      check .fail "missing_evidence" ("missing: " ++ ", ".intercalate missing)
    else check .pass "references_resolved" (toString refs.length ++ " reference(s) resolved")

/-- The checks a verdict needs. -/
def requiredChecks (env : SignedEnvelope) (o : VerifyEnvelopeOptions) : List String :=
  ["schema_valid", "canonical_encoding_valid", "digest_valid", "signature_valid",
    "signer_trusted", "timestamp_valid", "attestation_valid"] ++
    (if env.checkpoint.isSome || o.requireCheckpoint then
      ["inclusion_proof_valid", "checkpoint_trusted"] else []) ++
    (if o.authorize.isSome then ["signer_authorized"] else []) ++
    if o.resolve.isSome then ["evidence_complete"] else []

/-- The report on an envelope whose schema is valid. -/
def envelopeReport (env : SignedEnvelope) (o : VerifyEnvelopeOptions) (checks : Checks)
    (verifiedAt : String) : VerificationReport :=
  let required := requiredChecks env o
  { subject := some ⟨env.core.eventId, env.core.eventType, env.digest⟩
    overallStatus := (overallOf checks required).1
    outcome := (classifyOutcome checks required).1
    checks
    reasons := (overallOf checks required).2
    verifiedAt }

/-- The checks of an envelope whose schema is valid, under their names. -/
def envelopeChecks (env : SignedEnvelope) (o : VerifyEnvelopeOptions) (schema : Check) :
    Except String Checks := do
  let canonical := canonicalCheck H env
  let digest := digestCheck H env canonical
  let sigs ← signatureCheck H env digest
  let cp ← checkpointCheck H env o digest
  let trusted ← trustCheck H env o sigs cp.provenBefore
  let authorized := authorizedCheck env o trusted sigs.validSigners
  let timestamp := timestampCheck H env o cp.checkpoint
  let attestation ← attestationCheck H env o sigs
  .ok [("schema_valid", schema), ("canonical_encoding_valid", canonical),
    ("digest_valid", digest), ("signature_valid", sigs.signature), ("signer_trusted", trusted),
    ("signer_authorized", authorized), ("timestamp_valid", timestamp),
    ("inclusion_proof_valid", cp.inclusion), ("checkpoint_trusted", cp.checkpoint),
    ("attestation_valid", attestation), ("evidence_complete", completeCheck env o)]

/-- Verify an envelope. -/
def verifyEnvelope (env : SignedEnvelope) (o : VerifyEnvelopeOptions) :
    Except String VerificationReport := do
  let verifiedAt ← toISOString o.now
  let schema := schemaCheck H o.registry env
  if schema.status = .fail then .ok (schemaReport schema verifiedAt)
  else do
    let checks ← envelopeChecks H env o schema
    .ok (envelopeReport env o checks verifiedAt)

end

end CoolSdk
