import CoolSdk.Phala.ReferencePlane
import CoolSdk.Platform.ProvenTime
import CoolSdk.Platform.Publishing
import CoolSdk.Platform.Signing

/-!
# The envelope pipeline

Create, sign, publish, verify. Under a store that trusts the signers and the log, every
checkpoint the log ever hands out for a signed envelope makes it pass, at any later time: unless
the schema names a field after a member that all objects inherit and cleaning has dropped it.
-/

namespace CoolSdk

/-- The store has a key for a purpose, active and valid from some time until now. -/
structure TrustStore.HoldsActive (H : Host) (t : TrustStore) (keyId : String)
    (purpose : KeyPurpose) (k : KeyRecord) (since now : JsNumber) : Prop where
  held : t.get keyId = some k
  purpose : purpose ∈ k.purposes
  active : k.status = .active
  valid : ∀ at_, since.le at_ = true → at_.le now = true → k.period H at_ = .current

/-- A verifier that trusts the signers of a core and the log, has no more demands than that, and
looks at a checkpoint that was made after the core and before now. -/
structure VerifyEnvelopeOptions.Ready (H : Host) (o : VerifyEnvelopeOptions)
    (registry : PayloadRegistry) (core : EnvelopeCore) (keys : List EnvelopeSigner)
    (logKey : KeyPair) (cp : Checkpoint) : Prop where
  registry : o.registry = registry
  purpose : o.purposeOf core.eventType = .evidence
  skew : (JsNumber.ofInt 0).le o.skew = true
  date : ∃ text, toISOString o.now = .ok text
  anyAge : o.maxCheckpointAgeMs = none
  anyWitnesses : o.witnessThreshold = none
  noAttestation : o.requireAttestation = false
  noPolicy : o.authorize = none
  noResolver : o.resolve = none
  occurred : (dateNumber H core.occurredAt).le (dateNumber H core.observedAt) = true
  observed : (dateNumber H core.observedAt).le (dateNumber H cp.sth.timestamp) = true
  logged : (dateNumber H cp.sth.timestamp).le o.now = true
  signers : ∀ k ∈ keys, ∃ record,
    o.trust.HoldsActive H k.keyId .evidence record (dateNumber H core.observedAt) o.now
  log : ∃ record, o.trust.HoldsActive H logKey.keyId .log record o.now o.now ∧
    record.entry = logKey.directoryEntry
  fresh : o.trust.stale H o.now = false

section

variable {H : Host}

/-- An active key that is valid at the time judged is trusted. -/
theorem TrustStore.HoldsActive.evaluate_pass {t : TrustStore} {k : KeyRecord} {since : JsNumber}
    {q : TrustQuery} (h : t.HoldsActive H q.keyId q.purpose k since q.now)
    (hsince : since.le q.signedAt = true) (hnow : q.signedAt.le q.now = true)
    (hfresh : t.stale H q.now = false) : (t.evaluate H q).status = .pass := by
  rw [t.evaluate_pass_iff_accepts H q]
  refine ⟨k, h.held, ⟨h.purpose, h.valid _ hsince hnow, ?_⟩, hfresh⟩
  intro reason recorded hwithdrawn
  rw [KeyRecord.withdrawn, h.active] at hwithdrawn
  cases hwithdrawn

/-- The schema check of an envelope of a created core passes exactly where the payload keeps
what could be mistaken for an inherited member. -/
theorem schemaCheck_created {core : EnvelopeCore} {input : EnvelopeInput}
    {registry : PayloadRegistry} {schema : PayloadSchema}
    (h : core.CreatedFrom H input registry schema) {env : SignedEnvelope}
    (hformat : env.format = "cool.signed-envelope.v1") (hcore : env.core = core) :
    (schemaCheck H registry env).status =
      if schema.Kept input.payload then .pass else .fail := by
  obtain ⟨observedAt, ulid, hbuilt⟩ := h.built
  have hschema : core.schema = "cool.envelope.v1" := by rw [hbuilt]; rfl
  have hpayload : core.payload = JsValue.cleanMembers input.payload [] := by rw [hbuilt]; rfl
  have hvalid := payloadProblems_clean_iff input.distinct h.valid
  have hproblems : registry.validate H core.payloadSchema (.object core.payload) =
      payloadProblems H schema (JsValue.cleanMembers input.payload []) := by
    simp only [PayloadRegistry.validate, h.registered, ownMembers?, hpayload]
  rw [schemaCheck, hcore, if_neg (by simp [hformat, hschema])]
  simp only [h.registered, h.describes, ne_eq, not_true_eq_false, if_false, hproblems]
  by_cases hkept : schema.Kept input.payload
  · rw [if_pos hkept, if_neg (not_not_intro (hvalid.mpr hkept))]
    rfl
  · rw [if_neg hkept, if_pos fun hnil => hkept (hvalid.mp hnil)]
    rfl

/-- The times of a core that the verifier is ready for are consistent. -/
theorem VerifyEnvelopeOptions.Ready.timestampCheck_pass {o : VerifyEnvelopeOptions}
    {registry : PayloadRegistry} {core : EnvelopeCore} {keys : List EnvelopeSigner}
    {logKey : KeyPair} {cp : Checkpoint} (h : o.Ready H registry core keys logKey cp)
    {env : SignedEnvelope} (hcore : env.core = core) (hcp : env.checkpoint = some cp)
    (checkpoint : Check) : (timestampCheck H env o checkpoint).status = .pass := by
  obtain ⟨hoccurred, hobserved⟩ := JsNumber.ne_nan_of_le h.occurred
  have hfirst := JsNumber.add_lt_of_le h.occurred h.skew
  have hsecond := JsNumber.add_lt_of_le (JsNumber.le_trans h.observed h.logged) h.skew
  have hthird := JsNumber.add_lt_of_le h.observed h.skew
  simp only [timestampCheck, hcore, hcp, JsNumber.isNaN, hoccurred, hobserved, decide_false,
    Bool.or_false, Bool.false_eq_true, if_false, hfirst, hsecond, hthird, Option.any_some,
    Bool.and_false]
  rfl

section

variable {core : EnvelopeCore} {input : EnvelopeInput} {registry : PayloadRegistry}
  {schema : PayloadSchema} {keys : List EnvelopeSigner} {bytes message : Bytes}
  {env : SignedEnvelope} {logKey : KeyPair} {cp : Checkpoint} {o : VerifyEnvelopeOptions}

/-- A created core is clean. -/
theorem EnvelopeCore.CreatedFrom.settled (h : core.CreatedFrom H input registry schema) :
    JsValue.Settled core.payload := by
  obtain ⟨observedAt, ulid, hbuilt⟩ := h.built
  rw [hbuilt]
  exact JsValue.settled_cleanMembers input.payload

/-- Where a head has a signing message, every co-signature on it counts or does not. -/
private theorem enoughWitnesses {sth : STH} {message : Bytes}
    (hmessage : sthSigningMessage H (sthCore sth) = .ok message) (ho : o.witnessThreshold = none) :
    EnoughWitnesses H o sth := by
  have hvote : ∀ w ∈ sth.witnesses, ∃ b, countsAsWitness H o.trust o.now sth w = .ok b := by
    intro w _
    unfold countsAsWitness
    split
    · exact ⟨false, rfl⟩
    · unfold signsTreeHead
      cases o.trust.get w.id with
      | none => exact ⟨false, rfl⟩
      | some k => exact ⟨_, by rw [hmessage]; rfl⟩
  obtain ⟨votes, hvotes⟩ := exists_mapM hvote
  refine ⟨votes, hvotes, ?_⟩
  rw [ho, Option.getD_none, JsNumber.lt_ofInt, decide_eq_false_iff_not]
  omega

/-- A checkpoint that vouches for the envelope proves its timestamp. -/
theorem attachedCheckpoint_of_vouches (hready : o.Ready H registry core keys logKey cp)
    (hlog : (localSigner H logKey).Signs H) (hvouches : Vouches H logKey env.digest cp) :
    ∃ result, attachedCheckpoint H env o cp = .ok result ∧
      result.provenBefore = some (dateNumber H cp.sth.timestamp) := by
  obtain ⟨message, hmessage, hsignature⟩ := hvouches.signed
  obtain ⟨record, hheld, hentry⟩ := hready.log
  have hkeyId : cp.sth.signature.keyId = logKey.keyId := by
    rw [hsignature]
    exact hlog.keyId message
  have hverified : H.hybridVerify message cp.sth.signature record.entry = true := by
    rw [hentry, hsignature]
    exact hlog.verifies message
  have hnow : o.now.le o.now = true := by
    obtain ⟨_, hnumber⟩ := JsNumber.ne_nan_of_le hready.logged
    exact JsNumber.le_of_not_lt hnumber hnumber (JsNumber.lt_self _)
  have htrusted : (o.trust.evaluate H
      { keyId := cp.sth.signature.keyId, purpose := .log, now := o.now }).status = .pass := by
    rw [hkeyId]
    exact TrustStore.HoldsActive.evaluate_pass hheld hnow hnow hready.fresh
  rw [attachedCheckpoint_proven]
  refine ⟨⟨⟨record, message, hkeyId ▸ hheld.held, hmessage, hverified⟩, htrusted⟩, ?_,
    enoughWitnesses hmessage hready.anyWitnesses, hvouches.included env rfl, rfl⟩
  simp [RecentEnough, hready.anyAge]

/-- A checkpoint result that proves a time passes both checks. -/
private theorem passes_of_proven {result : CheckpointResult} {p : JsNumber}
    (h : attachedCheckpoint H env o cp = .ok result) (hp : result.provenBefore = some p) :
    result.inclusion.status = .pass ∧ result.checkpoint.status = .pass := by
  rw [attachedCheckpoint] at h
  obtain ⟨sthOk, _, h⟩ := bind_eq_ok.mp h
  obtain ⟨votes, _, h⟩ := bind_eq_ok.mp h
  cases h
  simp only at hp
  split_ifs at hp with hpass
  exact ⟨hpass.2, hpass.1⟩

/-- Every signer is trusted at the time its checkpoint proves. -/
private theorem trustCheck_ready (hready : o.Ready H registry core keys logKey cp)
    (hkeys : keys ≠ []) (hcore : env.core = core) {sigs : SignatureResult}
    (hsigs : sigs.signature.status = .pass)
    (hsigners : sigs.validSigners = keys.map EnvelopeSigner.keyId) :
    ∃ trusted, trustCheck H env o sigs (some (dateNumber H cp.sth.timestamp)) = .ok trusted ∧
      trusted.status = .pass := by
  have hsome : sigs.signature.status = .pass → sigs.validSigners ≠ [] := by
    intro _
    simpa [hsigners] using hkeys
  obtain ⟨trusted, htrusted⟩ := exists_trustCheck (H := H) env o
    (some (dateNumber H cp.sth.timestamp)) hsome
  refine ⟨trusted, htrusted, ?_⟩
  rw [trustCheck_pass_iff htrusted hsigs, hsigners, List.forall_mem_map]
  intro k hk
  obtain ⟨record, hheld⟩ := hready.signers k hk
  rw [hcore, hready.purpose]
  exact TrustStore.HoldsActive.evaluate_pass hheld hready.observed hready.logged hready.fresh

private theorem accepted_of_pass {c : Check} (h : c.status = .pass) : c.accepted = true := by
  rw [Check.accepted, h]
  rfl

/-- The checks a verdict with a checkpoint needs, each of them passing or not applying. -/
private theorem allAccepted_checks {schema canonical digest signature trusted authorized timestamp
    inclusion checkpoint attestation complete : Check} (hschema : schema.status = .pass)
    (hcanonical : canonical.status = .pass) (hdigest : digest.status = .pass)
    (hsignature : signature.status = .pass) (htrusted : trusted.status = .pass)
    (htimestamp : timestamp.status = .pass) (hinclusion : inclusion.status = .pass)
    (hcheckpoint : checkpoint.status = .pass) (hattestation : attestation.status = .notApplicable) :
    AllAccepted [("schema_valid", schema), ("canonical_encoding_valid", canonical),
        ("digest_valid", digest), ("signature_valid", signature), ("signer_trusted", trusted),
        ("signer_authorized", authorized), ("timestamp_valid", timestamp),
        ("inclusion_proof_valid", inclusion), ("checkpoint_trusted", checkpoint),
        ("attestation_valid", attestation), ("evidence_complete", complete)]
      ["schema_valid", "canonical_encoding_valid", "digest_valid", "signature_valid",
        "signer_trusted", "timestamp_valid", "attestation_valid", "inclusion_proof_valid",
        "checkpoint_trusted"] := by
  simp only [AllAccepted, List.forall_mem_cons]
  exact ⟨⟨schema, rfl, accepted_of_pass hschema⟩, ⟨canonical, rfl, accepted_of_pass hcanonical⟩,
    ⟨digest, rfl, accepted_of_pass hdigest⟩, ⟨signature, rfl, accepted_of_pass hsignature⟩,
    ⟨trusted, rfl, accepted_of_pass htrusted⟩, ⟨timestamp, rfl, accepted_of_pass htimestamp⟩,
    ⟨attestation, rfl, by rw [Check.accepted, hattestation]; rfl⟩,
    ⟨inclusion, rfl, accepted_of_pass hinclusion⟩,
    ⟨checkpoint, rfl, accepted_of_pass hcheckpoint⟩, List.forall_mem_nil _⟩

/-- A payload that lost a field whose name all objects inherit is refused. -/
theorem verify_not_kept (hcreated : core.CreatedFrom H input registry schema)
    (hsigned : env.SignedBy H core keys bytes message)
    (hready : o.Ready H registry core keys logKey cp) (hkept : ¬schema.Kept input.payload) :
    ∃ report, verifyEnvelope H (withCheckpoint env cp) o = .ok report ∧
      report.overallStatus = .fail := by
  obtain ⟨verifiedAt, hdate⟩ := hready.date
  have hsigned := hsigned.withCheckpoint cp
  have hcore : (withCheckpoint env cp).core = core := by
    rw [hsigned.core, hcreated.settled.cleanMembers_eq]
  have hschema := schemaCheck_created hcreated hsigned.format hcore
  rw [if_neg hkept] at hschema
  rw [verifyEnvelope, hdate, ok_bind]
  simp only [hready.registry, hschema, if_true]
  exact ⟨_, rfl, rfl⟩

/-- The verdict on a signed envelope with a checkpoint that vouches for it. -/
theorem verify_signed_iff (hcreated : core.CreatedFrom H input registry schema)
    (hback : ReadsBack H bytes) (hkeys : keys ≠ [])
    (hids : (keys.map EnvelopeSigner.keyId).Nodup) (hsign : ∀ k ∈ keys, k.Signs H)
    (hlog : (localSigner H logKey).Signs H) (hsigned : env.SignedBy H core keys bytes message)
    (hattestation : env.attestation = none) (hvouches : Vouches H logKey env.digest cp)
    (hready : o.Ready H registry core keys logKey cp) :
    (∃ report, verifyEnvelope H (withCheckpoint env cp) o = .ok report ∧
      report.overallStatus = .pass) ↔ schema.Kept input.payload := by
  by_cases hkept : schema.Kept input.payload
  case neg =>
    obtain ⟨report, hreport, hfail⟩ := verify_not_kept hcreated hsigned hready hkept
    simp only [hreport, Except.ok.injEq, exists_eq_left', hfail, reduceCtorEq, hkept]
  obtain ⟨verifiedAt, hdate⟩ := hready.date
  have hsigned := hsigned.withCheckpoint cp
  have hclean := hcreated.settled
  have hcore : (withCheckpoint env cp).core = core := by
    rw [hsigned.core, hclean.cleanMembers_eq]
  have hschema := schemaCheck_created hcreated hsigned.format hcore
  rw [if_pos hkept] at hschema
  rw [verifyEnvelope, hdate, ok_bind]
  simp only [hready.registry]
  have hcanonical := hsigned.canonicalCheck_pass hback hclean
  have hdigest := hsigned.digestCheck_pass hback hcanonical
  obtain ⟨sigs, hsigs, hsignature, hsigners⟩ :=
    hsigned.signatureCheck_pass hkeys hids hsign hdigest
  obtain ⟨result, hresult, hproven⟩ :=
    attachedCheckpoint_of_vouches hready hlog
      (show Vouches H logKey (withCheckpoint env cp).digest cp from hvouches)
  obtain ⟨hinclusion, hcheckpoint⟩ := passes_of_proven hresult hproven
  obtain ⟨trusted, htrusted, htrust⟩ := trustCheck_ready hready hkeys hcore hsignature hsigners
  have htimestamp := hready.timestampCheck_pass hcore rfl result.checkpoint
  have hcp : checkpointCheck H (withCheckpoint env cp) o
      (digestCheck H (withCheckpoint env cp) (canonicalCheck H (withCheckpoint env cp))) =
      .ok result := by
    simp only [checkpointCheck, hdigest, ne_eq, not_true_eq_false, if_false]
    exact hresult
  have hattested : attestationCheck H (withCheckpoint env cp) o sigs =
      .ok (check .notApplicable "no_attestation" "the envelope does not rely on attestation") := by
    have hnone : (withCheckpoint env cp).attestation = none := hattestation
    simp only [attestationCheck, hnone, hready.noAttestation, Bool.false_eq_true, if_false]
  simp only [hkept, iff_true]
  rw [hschema]
  simp only [envelopeChecks, hsigs, hcp, hproven, htrusted, hattested, ok_bind, reduceCtorEq,
    if_false]
  refine ⟨_, rfl, ?_⟩
  have hrequired : requiredChecks (withCheckpoint env cp) o =
      ["schema_valid", "canonical_encoding_valid", "digest_valid", "signature_valid",
        "signer_trusted", "timestamp_valid", "attestation_valid", "inclusion_proof_valid",
        "checkpoint_trusted"] := by
    simp [requiredChecks, withCheckpoint, hready.noPolicy, hready.noResolver]
  apply AllAccepted.overallOf_pass
  rw [hrequired]
  exact allAccepted_checks hschema hcanonical hdigest hsignature htrust htimestamp hinclusion
    hcheckpoint rfl

/-- **The envelope pipeline is complete**: what was created is signed, the log takes it once and
answers while it has room, and every checkpoint it has ever handed out for it makes the envelope
pass, exactly where the payload keeps every field whose name all objects inherit. -/
theorem published_envelope_passes_iff (hsha : ∀ data, (H.sha256 data).length = 32)
    {sources : CreationSources} (hcreate : createEnvelope H input registry sources = .ok core)
    (hschema : registry.get core.payloadSchema = some schema)
    (hbytes : canonicalize H core = .ok bytes) (hback : ReadsBack H bytes) (hkeys : keys ≠ [])
    (hids : (keys.map EnvelopeSigner.keyId).Nodup) (hsign : ∀ k ∈ keys, k.Signs H)
    (hlog : (localSigner H logKey).Signs H) (logId : String) :
    ∃ env, signEnvelope H core keys none = .ok env ∧
      ∀ s, (logService H logId logKey).Reachable s →
        (∀ cp, (env.digest, cp) ∈ s.issued → ∀ o, o.Ready H registry core keys logKey cp →
          ((∃ report, verifyEnvelope H (withCheckpoint env cp) o = .ok report ∧
            report.overallStatus = .pass) ↔ schema.Kept input.payload)) ∧
        (∀ clock timestamp, toISOString clock = .ok timestamp → EncodesHeads H logId timestamp →
          s.service.size < 2 ^ 30 → ∃ cp, cp.sth.timestamp = timestamp ∧
            (s.service.publish env clock).1 = .ok (withCheckpoint env cp) ∧
            (env.digest, cp) ∈ (s.serve (.publish env clock)).issued) ∧
        ∀ (clock : JsNumber) (calls : List LogCall) (again : SignedEnvelope) (clock' : JsNumber),
          again.digest = env.digest →
          let later := calls.foldl ServedLog.serve (s.serve (.publish env clock))
          (later.service.publish again clock').2 = later.service := by
  obtain ⟨schema', hcreated⟩ := createdFrom_of_createEnvelope hcreate
  obtain rfl := Option.some.inj (hcreated.registered.symm.trans hschema)
  obtain ⟨env, message, hsigning, hsigned, _, hattestation⟩ :=
    exists_signEnvelope hsha hbytes hkeys
  obtain ⟨leaf, hleaf⟩ := hsigned.exists_leaf hsha
  refine ⟨env, hsigning, ?_⟩
  intro s hs
  have hsound := ServedLog.sound_of_reachable hsha hs
  refine ⟨?_, ?_, ?_⟩
  · intro cp hissued o hready
    exact verify_signed_iff hcreated hback hkeys hids hsign hlog hsigned hattestation
      (hsound.issued _ _ hissued) hready
  · intro clock timestamp hclock hencodes hroom
    obtain ⟨cp, hpublish, htimestamp⟩ :=
      hsound.indexed.exists_publish hsha hroom hclock hencodes hleaf
    refine ⟨cp, htimestamp, hpublish, ?_⟩
    simp [ServedLog.serve, ServedLog.answer, hpublish, withCheckpoint]
  · intro clock calls again clock' hagain
    apply TransparencyLog.publish_of_published
    rw [hagain]
    apply ServedLog.published_of_calls
    exact TransparencyLog.published_of_publish hleaf clock

end

end

/-! ## A field named like a method -/

namespace Reference

/-- A schema with an optional field that is named like a method of every object. -/
def tagSchema : PayloadSchema :=
  { id := "scm.tag.v1"
    eventType := "scm.tag"
    fields := .ofList [("name", .r .string), ("toString", .o .string)] }

def tagRegistry : PayloadRegistry := ⟨.ofList [("scm.tag.v1", tagSchema)]⟩

/-- A tag, with what is given for its text. -/
def tagInput (text : JsValue) : EnvelopeInput :=
  { eventType := "scm.tag"
    occurredAt := "2026-01-01T00:00:00.000Z"
    observedAt := some "2026-01-01T00:00:00.000Z"
    source := { system := "git" }
    actor := { id := "user:alice", type := .human }
    action := "tag"
    resource := { type := "repository", ref := "acme/payments" }
    payload := [("name", .str "v1.0"), ("toString", text)]
    distinct := by simp }

def tagSources : CreationSources := { ulid := "01KDVM0000ABCDEFGHJKMNPQRS", now := clock 0 }

/-- The core of a tag. -/
def tagCore (text : JsValue) : EnvelopeCore :=
  coreOf totalHost (tagInput text) "scm.tag.v1" "2026-01-01T00:00:00.000Z" tagSources.ulid

/-- The canonical bytes of a tag. -/
def tagBytes (text : JsValue) : Bytes := (canonicalCbor (toJs (tagCore text))).toOption.getD []

/-- The key of the log. -/
def treeKey : KeyPair := key "log-1" "CCCC"

/-- The answer of a new log to an envelope and the log after it. -/
def publishedTag (env : SignedEnvelope) : Except String SignedEnvelope × TransparencyLog totalHost :=
  (TransparencyLog.new "log-1" treeKey).publish env (clock 1000)

/-- A verifier that trusts the source and the log. -/
def tagOptions : VerifyEnvelopeOptions :=
  { registry := tagRegistry
    trust := store [keyRecord sourceKey [.evidence], keyRecord treeKey [.log]]
    now := clock 2000
    nitro := fun _ _ _ => .error "no Nitro document" }

theorem tag_created {text : JsValue}
    (h : payloadProblems totalHost tagSchema (tagInput text).payload = []) :
    createEnvelope totalHost (tagInput text) tagRegistry tagSources = .ok (tagCore text) := by
  have hid : (tagInput .null).schemaId tagRegistry = some "scm.tag.v1" := by decide
  have htimes : ((tagInput .null).times.find? fun t => (dateNumber totalHost t).isNaN) = none := by
    decide
  exact createEnvelope_eq_ok hid rfl rfl h htimes rfl rfl

theorem tag_encodes (text : JsValue) :
    canonicalize totalHost (tagCore text) = .ok (tagBytes text) := rfl

/-- A key of the reference host signs what verifies under it. -/
theorem localSigner_signs (k : KeyPair) : (localSigner totalHost k).Signs totalHost :=
  ⟨fun _ => rfl, fun _ => rfl, fun message => hybridVerify_hybridSign message k⟩

/-- Bytes that decode to a value with their encoding are read back. -/
theorem readsBack {bytes : Bytes}
    (h : (cborDecode bytes).map (fun v => decide (totalHost.canonicalCbor v = .ok bytes)) =
      .ok true) : ReadsBack totalHost bytes := by
  refine ⟨atob_toBase64 bytes, ?_⟩
  obtain ⟨v, hv, hencodes⟩ := ok_of_map_eq h
  exact ⟨v, hv, of_decide_eq_true hencodes⟩

/-- A record of the reference store is current from its start on. -/
theorem period_keyRecord (k : KeyPair) (purposes : List KeyPurpose) {at_ : JsNumber}
    (h : (dateNumber totalHost "2026-01-01T00:00:00.000Z").le at_ = true) :
    (keyRecord k purposes).period totalHost at_ = .current := by
  have hstart : at_.lt (dateNumber totalHost (keyRecord k purposes).validFrom) = false :=
    JsNumber.not_lt_of_le h
  rw [KeyRecord.period, hstart]
  rfl

/-- The verifier is ready for a checkpoint of the second after a tag. -/
theorem tag_ready (text : JsValue) {cp : Checkpoint}
    (hcp : cp.sth.timestamp = "2026-01-01T00:00:01.000Z") :
    tagOptions.Ready totalHost tagRegistry (tagCore text) [localSigner totalHost sourceKey]
      treeKey cp where
  registry := rfl
  purpose := rfl
  skew := by decide
  date := exists_of_isOk (by decide)
  anyAge := rfl
  anyWitnesses := rfl
  noAttestation := rfl
  noPolicy := rfl
  noResolver := rfl
  occurred := by
    change (dateNumber totalHost "2026-01-01T00:00:00.000Z").le
      (dateNumber totalHost "2026-01-01T00:00:00.000Z") = true
    decide
  observed := by
    rw [hcp]
    change (dateNumber totalHost "2026-01-01T00:00:00.000Z").le _ = true
    decide
  logged := by
    rw [hcp]
    decide
  signers k hk := by
    obtain rfl := List.mem_singleton.mp hk
    refine ⟨keyRecord sourceKey [.evidence], by decide, by decide, rfl, ?_⟩
    intro at_ hsince _
    exact period_keyRecord _ _ hsince
  log := by
    refine ⟨keyRecord treeKey [.log], ⟨by decide, by decide, rfl, ?_⟩, rfl⟩
    intro at_ hsince _
    exact period_keyRecord _ _ (JsNumber.le_trans (by decide) hsince)
  fresh := rfl

end Reference

open Reference in
/-- A tag with a text passes once it is published. -/
theorem published_envelope_passes_iff_tag :
    ∃ core env cp report,
      createEnvelope totalHost (tagInput (.str "v1.0 of payments")) tagRegistry tagSources =
        .ok core ∧
      signEnvelope totalHost core [localSigner totalHost sourceKey] none = .ok env ∧
      (publishedTag env).1 = .ok (withCheckpoint env cp) ∧
      verifyEnvelope totalHost (withCheckpoint env cp) tagOptions = .ok report ∧
      report.overallStatus = .pass := by
  have hcreated : createEnvelope totalHost (tagInput (.str "v1.0 of payments")) tagRegistry
      tagSources = .ok (tagCore (.str "v1.0 of payments")) := tag_created (by decide)
  have hschema : tagRegistry.get (tagCore (.str "v1.0 of payments")).payloadSchema =
      some tagSchema := rfl
  have hreads : (cborDecode (tagBytes (.str "v1.0 of payments"))).map (fun v =>
      decide (totalHost.canonicalCbor v = .ok (tagBytes (.str "v1.0 of payments")))) =
      .ok true := by decide +kernel
  have hsha : ∀ data, (totalHost.sha256 data).length = 32 := length_digest
  have hids : ([localSigner totalHost sourceKey].map EnvelopeSigner.keyId).Nodup :=
    List.nodup_singleton _
  obtain ⟨env, hsigned, hruns⟩ := published_envelope_passes_iff hsha hcreated hschema
    (tag_encodes _) (readsBack hreads) (List.cons_ne_nil _ _) hids
    (List.forall_mem_singleton.mpr (localSigner_signs sourceKey)) (localSigner_signs treeKey)
    "log-1"
  have hstart : (logService totalHost "log-1" treeKey).Reachable
      { service := .new "log-1" treeKey } := .start rfl
  obtain ⟨_, hanswers, _⟩ := hruns _ hstart
  obtain ⟨cp, htimestamp, hpublish, hissued⟩ := hanswers (clock 1000) "2026-01-01T00:00:01.000Z"
    (by decide) (fun _ _ _ _ => ⟨_, rfl⟩) (by decide)
  obtain ⟨hpasses, _⟩ := hruns _ (hstart.snoc trivial rfl)
  obtain ⟨report, hreport, hpass⟩ :=
    (hpasses cp hissued tagOptions (tag_ready _ htimestamp)).mpr (by decide)
  exact ⟨_, env, cp, report, hcreated, hsigned, hpublish, hreport, hpass⟩

open Reference in
/-- A tag whose text is undefined is created, signed and published, and then refused. -/
theorem emptied_tag_refused :
    ∃ core env cp report,
      createEnvelope totalHost (tagInput .undefined) tagRegistry tagSources = .ok core ∧
      signEnvelope totalHost core [localSigner totalHost sourceKey] none = .ok env ∧
      (publishedTag env).1 = .ok (withCheckpoint env cp) ∧
      tagOptions.Ready totalHost tagRegistry core [localSigner totalHost sourceKey] treeKey cp ∧
      verifyEnvelope totalHost (withCheckpoint env cp) tagOptions = .ok report ∧
      report.overallStatus = .fail := by
  have hcreate : createEnvelope totalHost (tagInput .undefined) tagRegistry tagSources =
      .ok (tagCore .undefined) := tag_created (by decide)
  obtain ⟨schema, hcreated⟩ := createdFrom_of_createEnvelope hcreate
  obtain rfl : tagSchema = schema := Option.some.inj hcreated.registered
  have hsha : ∀ data, (totalHost.sha256 data).length = 32 := length_digest
  obtain ⟨env, message, henv, hsigned, _⟩ := exists_signEnvelope hsha (tag_encodes .undefined)
    (List.cons_ne_nil (localSigner totalHost sourceKey) [])
  obtain ⟨leaf, hleaf⟩ := hsigned.exists_leaf hsha
  have hnew : (TransparencyLog.new "log-1" treeKey).Indexed "log-1" treeKey :=
    TransparencyLog.indexed_new (H := totalHost) "log-1" treeKey
  have hclock : toISOString (clock 1000) = .ok "2026-01-01T00:00:01.000Z" := by decide
  obtain ⟨cp, hpublish, htimestamp⟩ :=
    hnew.exists_publish hsha (by decide) hclock (fun _ _ _ _ => ⟨_, rfl⟩) hleaf
  have hready := tag_ready .undefined htimestamp
  obtain ⟨report, hreport, hfail⟩ := verify_not_kept hcreated hsigned hready (by decide)
  exact ⟨_, env, cp, report, hcreate, henv, hpublish, hready, hreport, hfail⟩

end CoolSdk
