import CoolSdk.Authz.ReferenceSigning
import CoolSdk.Platform.EnvelopeVerification

/-!
# The keys behind a pass

The signature check reads the key directory the envelope carries, the trust check asks the
verifier's store about key ids alone. A pass therefore says that every key id is known to the
store, and not that the store's key signed: that holds exactly where no block is accepted under
the carried entry and refused under the recorded one.
-/

namespace CoolSdk

section

variable (H : Host)

/-- The message every signature of a core must cover, recomputed from the core. -/
def recomputedMessage (core : EnvelopeCore) : Except String Bytes := do
  let bytes ← canonicalize H core
  signatureMessage (commit H bytes)

/-- A block verifies over the recomputed digest under the key the store records for its id. -/
def VerifiesUnderStore (env : SignedEnvelope) (trust : TrustStore) (sig : SignatureBlock) : Prop :=
  ∃ message k, recomputedMessage H env.core = .ok message ∧ trust.get sig.keyId = some k ∧
    H.hybridVerify message sig k.entry = true

/-- A block is signed under a substituted key: the carried entry accepts it over the stated
digest, the store's entry for the same key id refuses it. -/
def Substituted (env : SignedEnvelope) (trust : TrustStore) (sig : SignatureBlock) : Prop :=
  ∃ message entry k, signatureMessage env.digest = .ok message ∧
    env.keyDirectory.get sig.keyId = some entry ∧ trust.get sig.keyId = some k ∧
    H.hybridVerify message sig entry = true ∧ H.hybridVerify message sig k.entry = false

variable {H}

/-- A passing encoding check read the core's own canonical bytes. -/
theorem canonicalize_of_canonicalCheck {env : SignedEnvelope}
    (h : (canonicalCheck H env).status = .pass) :
    ∃ bytes, fromBase64 H env.coreCbor = .ok bytes ∧ canonicalize H env.core = .ok bytes := by
  unfold canonicalCheck at h
  cases hv : encodingVerdict H env with
  | error err =>
    rw [hv] at h
    cases h
  | ok c =>
    rw [hv] at h
    unfold encodingVerdict at hv
    obtain ⟨bytes, hbytes, hv⟩ := bind_eq_ok.mp hv
    obtain ⟨decoded, _, hv⟩ := bind_eq_ok.mp hv
    obtain ⟨again, _, hv⟩ := bind_eq_ok.mp hv
    by_cases hagain : (!bytesEqual again bytes) = true
    · rw [if_pos hagain] at hv
      cases hv
      cases h
    · rw [if_neg hagain] at hv
      obtain ⟨own, hown, hv⟩ := bind_eq_ok.mp hv
      by_cases heq : (!bytesEqual own bytes) = true
      · rw [if_pos heq] at hv
        cases hv
        cases h
      · rw [Bool.not_eq_true', Bool.not_eq_false, bytesEqual_iff] at heq
        exact ⟨bytes, hbytes, heq ▸ hown⟩

/-- A passing digest check recomputed the digest from the core. -/
theorem commit_of_digestCheck {env : SignedEnvelope}
    (h : (digestCheck H env (canonicalCheck H env)).status = .pass) :
    ∃ bytes, canonicalize H env.core = .ok bytes ∧ commit H bytes = env.digest := by
  unfold digestCheck at h
  cases hb : fromBase64 H env.coreCbor with
  | error err =>
    rw [hb] at h
    cases h
  | ok bytes =>
    simp only [hb] at h
    by_cases hc : (canonicalCheck H env).status = .pass
    · rw [if_neg (not_not_intro hc)] at h
      obtain ⟨bytes', hb', hcore⟩ := canonicalize_of_canonicalCheck hc
      rw [hb] at hb'
      cases hb'
      split_ifs at h with halg hdigest
      · cases h
      · exact ⟨bytes, hcore, hdigest⟩
      · cases h
    · rw [if_pos hc] at h
      cases h

/-- A block without a problem verifies under the entry carried for its key id. -/
theorem carried_of_blockProblem {env : SignedEnvelope} {sig : SignatureBlock}
    (h : blockProblem H env sig = .ok none) :
    ∃ message entry, signatureMessage env.digest = .ok message ∧
      env.keyDirectory.get sig.keyId = some entry ∧ H.hybridVerify message sig entry = true := by
  unfold blockProblem at h
  by_cases halg : usableAlgorithm sig.alg .signature = none
  · rw [if_pos halg] at h
    cases h
  rw [if_neg halg] at h
  by_cases habsent : env.carried sig.keyId = .absent
  · rw [if_pos habsent] at h
    cases h
  rw [if_neg habsent] at h
  obtain ⟨message, hmessage, h⟩ := bind_eq_ok.mp h
  have hverifies : (env.carried sig.keyId).verifies H message sig = true := by
    by_contra hno
    simp only [hno, if_false, Except.ok.injEq, reduceCtorEq] at h
  unfold SignedEnvelope.carried at hverifies
  cases hentry : env.keyDirectory.get sig.keyId with
  | none =>
    rw [hentry] at hverifies
    by_cases hinherited : isInherited sig.keyId = true
    · simp only [hinherited, if_true, CarriedKey.verifies, Bool.false_eq_true] at hverifies
    · simp only [hinherited, Bool.false_eq_true, if_false, CarriedKey.verifies] at hverifies
  | some entry =>
    rw [hentry] at hverifies
    exact ⟨message, entry, hmessage, rfl, hverifies⟩

/-- A loop that ends without failures found no problem, and lists every key id in order. -/
theorem signatureLoop_ok {env : SignedEnvelope} {sigs : List SignatureBlock}
    {run out : SignatureRun} (h : signatureLoop H env sigs run = .ok out)
    (hout : out.failures = []) :
    run.failures = [] ∧ out.validSigners = run.validSigners ++ sigs.map SignatureBlock.keyId ∧
      ∀ sig ∈ sigs, blockProblem H env sig = .ok none := by
  induction sigs generalizing run with
  | nil =>
    cases h
    exact ⟨hout, by simp, by simp⟩
  | cons sig rest ih =>
    obtain ⟨problem, hproblem, h⟩ := bind_eq_ok.mp h
    obtain ⟨hfailures, hsigners, hrest⟩ := ih h
    cases problem with
    | none =>
      refine ⟨hfailures, ?_, List.forall_mem_cons.mpr ⟨hproblem, hrest⟩⟩
      simpa [SignatureRun.add] using hsigners
    | some problem => simp [SignatureRun.add] at hfailures

/-- A passing signature check: the digest is the core's, and every block verifies under the
entry carried for its key id. -/
theorem carried_of_signatureCheck {env : SignedEnvelope} {sigs : SignatureResult}
    (h : signatureCheck H env (digestCheck H env (canonicalCheck H env)) = .ok sigs)
    (hpass : sigs.signature.status = .pass) :
    (∃ bytes, canonicalize H env.core = .ok bytes ∧ commit H bytes = env.digest) ∧
      sigs.validSigners = env.signatures.map SignatureBlock.keyId ∧
      ∀ sig ∈ env.signatures, blockProblem H env sig = .ok none := by
  unfold signatureCheck at h
  by_cases hdigest : (digestCheck H env (canonicalCheck H env)).status = .pass
  · rw [if_neg (not_not_intro hdigest)] at h
    by_cases hsigned : env.signatures = []
    · rw [if_pos hsigned] at h
      cases h
      cases hpass
    · rw [if_neg hsigned] at h
      obtain ⟨run, hrun, h⟩ := bind_eq_ok.mp h
      cases h
      have hfailures : run.failures = [] := by
        by_contra hne
        rw [SignatureRun.result, if_pos hne] at hpass
        cases hpass
      obtain ⟨_, hsigners, hblocks⟩ := signatureLoop_ok hrun hfailures
      exact ⟨commit_of_digestCheck hdigest, hsigners, hblocks⟩
  · rw [if_pos hdigest] at h
    cases h
    cases hpass

/-- Where the worst answer neither refuses nor is undecided, no answer refuses. -/
theorem ne_fail_of_worstOf {results : List Check} {c : Check} (h : worstOf results = some c)
    (hc : c.status ≠ .fail) : ∀ r ∈ results, r.status ≠ .fail := by
  intro r hr hfail
  obtain ⟨refused, hfind⟩ : ∃ refused,
      results.find? (fun c => decide (c.status = .fail)) = some refused := by
    rw [← Option.isSome_iff_exists, List.find?_isSome]
    exact ⟨r, hr, decide_eq_true hfail⟩
  have hrefused := List.find?_some hfind
  unfold worstOf at h
  rw [hfind] at h
  cases h
  exact hc (of_decide_eq_true hrefused)

/-- A key id the store does not refuse is in the store. -/
theorem get_of_evaluate_ne_fail {trust : TrustStore} {q : TrustQuery}
    (h : (trust.evaluate H q).status ≠ .fail) : ∃ k, trust.get q.keyId = some k := by
  cases hk : trust.get q.keyId with
  | some k => exact ⟨k, rfl⟩
  | none =>
    simp only [TrustStore.evaluate, hk, TrustStore.cite, ne_eq, not_true_eq_false] at h

private theorem get_signer_trusted (a b c d e : Check) (rest : Checks) :
    Entries.get (("schema_valid", a) :: ("canonical_encoding_valid", b) :: ("digest_valid", c) ::
      ("signature_valid", d) :: ("signer_trusted", e) :: rest) "signer_trusted" = some e := by
  simp [Entries.get]

/-- The sections behind an accepted trust check. -/
theorem sections_of_pass {env : SignedEnvelope} {o : VerifyEnvelopeOptions}
    {report : VerificationReport} (h : verifyEnvelope H env o = .ok report)
    (hpass : report.overallStatus = .pass) :
    ∃ sigs provenBefore trusted,
      signatureCheck H env (digestCheck H env (canonicalCheck H env)) = .ok sigs ∧
      trustCheck H env o sigs provenBefore = .ok trusted ∧ trusted.accepted = true := by
  unfold verifyEnvelope at h
  obtain ⟨verifiedAt, _, h⟩ := bind_eq_ok.mp h
  by_cases hschema : (schemaCheck H o.registry env).status = .fail
  · rw [if_pos hschema] at h
    cases h
    cases hpass
  · rw [if_neg hschema] at h
    obtain ⟨checks, hchecks, h⟩ := bind_eq_ok.mp h
    cases h
    have hall := allAccepted_of_overallOf hpass
    unfold envelopeChecks at hchecks
    obtain ⟨sigs, hsigs, hchecks⟩ := bind_eq_ok.mp hchecks
    obtain ⟨cp, _, hchecks⟩ := bind_eq_ok.mp hchecks
    obtain ⟨trusted, htrusted, hchecks⟩ := bind_eq_ok.mp hchecks
    obtain ⟨attestation, _, hchecks⟩ := bind_eq_ok.mp hchecks
    cases hchecks
    exact ⟨sigs, cp.provenBefore, trusted, hsigs, htrusted,
      hall.of_get "signer_trusted" (by simp [requiredChecks]) (get_signer_trusted ..)⟩

/-- What a pass does establish: the digest is the core's, every block verifies under the entry
carried for its key id, and the store knows that id. -/
theorem carried_of_pass {env : SignedEnvelope} {o : VerifyEnvelopeOptions}
    {report : VerificationReport} (h : verifyEnvelope H env o = .ok report)
    (hpass : report.overallStatus = .pass) :
    (∃ bytes, canonicalize H env.core = .ok bytes ∧ commit H bytes = env.digest) ∧
      ∀ sig ∈ env.signatures, blockProblem H env sig = .ok none ∧
        ∃ k, o.trust.get sig.keyId = some k := by
  obtain ⟨sigs, provenBefore, trusted, hsigs, htrusted, haccepted⟩ := sections_of_pass h hpass
  unfold trustCheck at htrusted
  by_cases hsignature : sigs.signature.status = .pass
  · obtain ⟨hdigest, hsigners, hblocks⟩ := carried_of_signatureCheck hsigs hsignature
    refine ⟨hdigest, fun sig hsig => ⟨hblocks sig hsig, ?_⟩⟩
    rw [if_neg (not_not_intro hsignature)] at htrusted
    simp only at htrusted
    split at htrusted
    · rename_i c hworst
      cases htrusted
      have hne : trusted.status ≠ .fail := by
        intro hfail
        simp [Check.accepted, hfail] at haccepted
      have hid : sig.keyId ∈ sigs.validSigners :=
        hsigners ▸ List.mem_map_of_mem (f := SignatureBlock.keyId) hsig
      exact get_of_evaluate_ne_fail
        (ne_fail_of_worstOf hworst hne _ (List.mem_map_of_mem (f := _) hid))
    · cases htrusted
  · rw [if_pos hsignature] at htrusted
    cases htrusted
    cases haccepted

/-- Carrying the store's own entry substitutes nothing. -/
theorem not_substituted_of_same_entry {env : SignedEnvelope} {trust : TrustStore}
    {sig : SignatureBlock}
    (h : env.keyDirectory.get sig.keyId = (trust.get sig.keyId).map KeyRecord.entry) :
    ¬Substituted H env trust sig := by
  rintro ⟨message, entry, k, _, hentry, hk, hverified, hrefused⟩
  rw [hentry, hk, Option.map_some, Option.some.injEq] at h
  rw [← h, hverified] at hrefused
  cases hrefused

/-- Behind a pass, every signature verifies under the verifier's own key exactly where no block
is signed under a substituted one. -/
theorem store_signed_iff {env : SignedEnvelope} {o : VerifyEnvelopeOptions}
    {report : VerificationReport} (h : verifyEnvelope H env o = .ok report)
    (hpass : report.overallStatus = .pass) :
    (∀ sig ∈ env.signatures, VerifiesUnderStore H env o.trust sig) ↔
      ∀ sig ∈ env.signatures, ¬Substituted H env o.trust sig := by
  obtain ⟨⟨bytes, hbytes, hcommit⟩, hblocks⟩ := carried_of_pass h hpass
  have hsame : recomputedMessage H env.core = signatureMessage env.digest := by
    rw [recomputedMessage, hbytes, ok_bind, hcommit]
  constructor
  · rintro hstore sig hsig ⟨message, entry, k, hmessage, _, hk, _, hrefused⟩
    obtain ⟨message', k', hmessage', hk', hverified⟩ := hstore sig hsig
    rw [hsame, hmessage] at hmessage'
    rw [hk] at hk'
    cases hmessage'
    cases hk'
    rw [hverified] at hrefused
    cases hrefused
  · intro hnone sig hsig
    obtain ⟨hblock, k, hk⟩ := hblocks sig hsig
    obtain ⟨message, entry, hmessage, hentry, hverified⟩ := carried_of_blockProblem hblock
    refine ⟨message, k, hsame.trans hmessage, hk, ?_⟩
    by_contra hrefused
    exact hnone sig hsig
      ⟨message, entry, k, hmessage, hentry, hk, hverified, Bool.not_eq_true _ ▸ hrefused⟩

end

/-! ## Two envelopes -/

namespace Reference

/-- The registry of one family. -/
def commitRegistry : PayloadRegistry :=
  ⟨.ofList [("scm.commit.v1",
    { id := "scm.commit.v1"
      eventType := "scm.commit"
      fields := .ofList [("repository", .r .string), ("commit", .r .string), ("tree", .o .string),
        ("branch", .o .string), ("author", .r .string), ("committer", .o .string),
        ("signed", .r .bool)] })]⟩

/-- A commit observed when it occurred. -/
def commitCore : EnvelopeCore :=
  { eventId := "evt-1"
    eventType := "scm.commit"
    payloadSchema := "scm.commit.v1"
    occurredAt := "2026-01-01T00:00:00.000Z"
    observedAt := "2026-01-01T00:00:00.000Z"
    source := { system := "git" }
    actor := { id := "user:alice", type := .human }
    action := "push"
    resource := { type := "repository", ref := "acme/payments" }
    provenance := { collectionMethod := .emitted, refs := [] }
    payload := [("repository", .str "acme/payments"), ("commit", .str "9f1c"),
      ("author", .str "alice"), ("signed", .bool true)] }

/-- The key the verifier trusts for evidence. -/
def sourceKey : KeyPair := Reference.key "source-1" "AAAA"

/-- A key of another party that claims the same id. -/
def rogueKey : KeyPair := Reference.key "source-1" "BBBB"

/-- The verifier's options: it trusts the source key alone and asks for nothing more. -/
def commitOptions : VerifyEnvelopeOptions :=
  { registry := commitRegistry
    trust := store [keyRecord sourceKey [.evidence]]
    now := Reference.clock 1000
    nitro := fun _ _ _ => .error "no Nitro document" }

/-- The commit signed by a key, its block and its directory entry; unsigned where that fails. -/
def commitEnvelope (key : KeyPair) : SignedEnvelope :=
  match signEnvelope host commitCore [localSigner host key] none with
  | .ok env => env
  | .error _ =>
    { core := commitCore, coreCbor := "", digest := "", signatures := [], keyDirectory := .empty }

/-- Whoever signs it, the commit is committed as its canonical bytes. -/
theorem exists_commitEnvelope (k : KeyPair) :
    ∃ bytes, canonicalize host commitCore = .ok bytes ∧
      (commitEnvelope k).core = commitCore ∧ (commitEnvelope k).coreCbor = toBase64 bytes ∧
      (commitEnvelope k).digestAlg = "sha-256" ∧
      (commitEnvelope k).digest = commit host bytes := by
  have hencodes : (canonicalize host commitCore).isOk = true := by decide +kernel
  have hclean : JsValue.cleanMembers commitCore.payload [] = commitCore.payload := rfl
  obtain ⟨bytes, hbytes⟩ := exists_of_isOk hencodes
  obtain ⟨message, hmessage⟩ := exists_signatureMessage (H := host) length_digest bytes
  refine ⟨bytes, hbytes, ?_⟩
  unfold commitEnvelope
  rw [signEnvelope, if_neg (List.cons_ne_nil _ _), if_neg (by simp), hbytes, ok_bind]
  simp only [hmessage, ok_bind, hclean, and_self]

/-- The encoding check of the commit passes, whoever signs it. -/
theorem canonicalCheck_commitEnvelope (k : KeyPair) :
    canonicalCheck host (commitEnvelope k) =
      { check .pass "canonical" "committed bytes are canonical and match the core" with
        algorithm := some "cbor-cde" } := by
  obtain ⟨bytes, hbytes, hcore, hcbor, _, _⟩ := exists_commitEnvelope k
  have hread : fromBase64 host (commitEnvelope k).coreCbor = canonicalize host commitCore := by
    rw [hcbor, hbytes]
    exact atob_toBase64 bytes
  rw [canonicalCheck, encodingVerdict, hread, hcore]
  decide +kernel

/-- The digest check of the commit passes, whoever signs it. -/
theorem digestCheck_commitEnvelope (k : KeyPair) {canonical : Check}
    (hcanonical : canonical.status = .pass) :
    digestCheck host (commitEnvelope k) canonical =
      { check .pass "digest_matches" (commitEnvelope k).digest with
        algorithm := some "sha-256", evidenceRef := some (commitEnvelope k).digest } := by
  obtain ⟨bytes, _, _, hcbor, halg, hdigest⟩ := exists_commitEnvelope k
  have hread : fromBase64 host (commitEnvelope k).coreCbor = .ok bytes := by
    rw [hcbor]
    exact atob_toBase64 bytes
  have haccepted : ¬((commitEnvelope k).digestAlg ≠ "sha-256" ∨
      usableAlgorithm (commitEnvelope k).digestAlg .digest = none) := by
    rw [halg]
    decide
  rw [digestCheck, hread]
  simp only [hcanonical, ne_eq, not_true_eq_false, if_false, if_neg haccepted, hdigest, if_true]

end Reference

open Reference in
/-- The envelope of the trusted key passes every check that was asked for. -/
theorem commit_report :
    (verifyEnvelope host (commitEnvelope sourceKey) commitOptions).map
      (fun report => (report.overallStatus, report.checks.map fun e => (e.1, e.2.status))) =
      .ok (.pass, envelopeCheckNames.zip [.pass, .pass, .pass, .pass, .pass, .notChecked, .pass,
        .notChecked, .notChecked, .notApplicable, .notChecked]) := by
  simp only [verifyEnvelope, envelopeChecks, canonicalCheck_commitEnvelope]
  rw [digestCheck_commitEnvelope _ rfl]
  decide +kernel

open Reference in
/-- The envelope of the trusted key passes and is signed under the store's key. -/
theorem store_signed_commit :
    (∃ report, verifyEnvelope host (commitEnvelope sourceKey) commitOptions = .ok report ∧
        report.overallStatus = .pass) ∧
      ∀ sig ∈ (commitEnvelope sourceKey).signatures,
        VerifiesUnderStore host (commitEnvelope sourceKey) commitOptions.trust sig := by
  have hsame : ∀ sig ∈ (commitEnvelope sourceKey).signatures,
      (commitEnvelope sourceKey).keyDirectory.get sig.keyId =
        (commitOptions.trust.get sig.keyId).map KeyRecord.entry := by decide +kernel
  obtain ⟨report, hreport, hchecks⟩ := ok_of_map_eq commit_report
  have hpass : report.overallStatus = .pass := (Prod.mk.inj hchecks).1
  exact ⟨⟨report, hreport, hpass⟩, (store_signed_iff hreport hpass).mpr
    fun sig hsig => not_substituted_of_same_entry (hsame sig hsig)⟩

open Reference in
/-- A party without the trusted secret key signs with its own, carries its own public key under
the trusted key id, and passes. -/
theorem rogue_key_passes :
    (∃ report, verifyEnvelope host (commitEnvelope rogueKey) commitOptions = .ok report ∧
        report.overallStatus = .pass) ∧
      ∃ sig ∈ (commitEnvelope rogueKey).signatures,
        ¬VerifiesUnderStore host (commitEnvelope rogueKey) commitOptions.trust sig := by
  have hrun : (verifyEnvelope host (commitEnvelope rogueKey) commitOptions).map
      VerificationReport.overallStatus = .ok .pass := by
    simp only [verifyEnvelope, envelopeChecks, canonicalCheck_commitEnvelope]
    rw [digestCheck_commitEnvelope _ rfl]
    decide +kernel
  have hrefused : ∀ sig ∈ (commitEnvelope rogueKey).signatures,
      ((recomputedMessage host (commitEnvelope rogueKey).core).map fun message =>
        (commitOptions.trust.get sig.keyId).map fun k =>
          host.hybridVerify message sig k.entry) = .ok (some false) := by decide +kernel
  refine ⟨ok_of_map_eq hrun, ?_⟩
  obtain ⟨sig, hsig⟩ := List.exists_mem_of_ne_nil (commitEnvelope rogueKey).signatures
    (by decide +kernel)
  refine ⟨sig, hsig, ?_⟩
  rintro ⟨message, k, hmessage, hk, hverified⟩
  have h := hrefused sig hsig
  rw [hmessage, hk] at h
  simp only [Except.map, Option.map_some, hverified, Except.ok.injEq, Option.some.injEq,
    Bool.true_eq_false] at h

end CoolSdk
