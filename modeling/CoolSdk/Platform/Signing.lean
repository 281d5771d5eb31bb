import CoolSdk.Platform.Creation
import CoolSdk.Platform.Sections

/-!
# What signing produces

The encoding, the digest and the signatures of an envelope that was just signed pass, whatever
checkpoint it is given later: base64 and the canonical codec read back what they wrote, the core
is clean, and every signer's entry is in the directory under its id.
-/

namespace CoolSdk

/-- What a signer produces names it and verifies under the entry it publishes. -/
structure EnvelopeSigner.Signs (H : Host) (k : EnvelopeSigner) : Prop where
  alg : ∀ message, (k.sign message).alg = "ml-dsa-65+ed25519"
  keyId : ∀ message, (k.sign message).keyId = k.keyId
  verifies : ∀ message, H.hybridVerify message (k.sign message) k.directoryEntry = true

/-- Bytes are read back from base64 as they were, and decode to a value that encodes to them. -/
structure ReadsBack (H : Host) (bytes : Bytes) : Prop where
  base64 : H.atob (utf8 (toBase64 bytes)) = .ok bytes
  canonical : ∃ v, H.cborDecode bytes = .ok v ∧ H.canonicalCbor v = .ok bytes

section

variable {H : Host}

/-- Where the canonical bytes of the core come from, and the message that was signed. -/
structure SignedEnvelope.SignedBy (H : Host) (env : SignedEnvelope) (core : EnvelopeCore)
    (keys : List EnvelopeSigner) (bytes message : Bytes) : Prop where
  encoded : canonicalize H core = .ok bytes
  covered : signatureMessage (commit H bytes) = .ok message
  format : env.format = "cool.signed-envelope.v1"
  core : env.core = { core with payload := JsValue.cleanMembers core.payload [] }
  coreCbor : env.coreCbor = toBase64 bytes
  digestAlg : env.digestAlg = "sha-256"
  digest : env.digest = commit H bytes
  signatures : env.signatures = keys.map fun k => k.sign message
  keyDirectory : env.keyDirectory = .ofList (keys.map fun k => (k.keyId, k.directoryEntry))

/-- A core that has canonical bytes is signed by whoever is asked to, with the attestation document
it references if there is one. -/
theorem exists_signEnvelope_attested (hsha : ∀ data, (H.sha256 data).length = 32) {core : EnvelopeCore}
    {bytes : Bytes} (hbytes : canonicalize H core = .ok bytes) {keys : List EnvelopeSigner}
    (hkeys : keys ≠ []) {attestation : Option Bytes}
    (hreferenced : ∀ document ∈ attestation, referenced H core document) :
    ∃ env message, signEnvelope H core keys attestation = .ok env ∧
      env.SignedBy H core keys bytes message ∧ env.checkpoint = none ∧
      env.attestation = attestation.map fun document => ⟨"aws-nitro", toBase64 document⟩ := by
  obtain ⟨message, hmessage⟩ := exists_signatureMessage hsha bytes
  have hguard : ¬(attestation.any fun document => !decide (referenced H core document)) = true := by
    rw [Option.any_eq_true]
    rintro ⟨document, hdocument, hnot⟩
    simp [hreferenced document hdocument] at hnot
  rw [signEnvelope, if_neg hkeys, if_neg hguard, hbytes, ok_bind]
  simp only [hmessage, ok_bind]
  exact ⟨_, message, rfl, ⟨hbytes, hmessage, rfl, rfl, rfl, rfl, rfl, rfl, rfl⟩, rfl, rfl⟩

/-- A core that has canonical bytes is signed by whoever is asked to. -/
theorem exists_signEnvelope (hsha : ∀ data, (H.sha256 data).length = 32) {core : EnvelopeCore}
    {bytes : Bytes} (hbytes : canonicalize H core = .ok bytes) {keys : List EnvelopeSigner}
    (hkeys : keys ≠ []) :
    ∃ env message, signEnvelope H core keys none = .ok env ∧
      env.SignedBy H core keys bytes message ∧ env.checkpoint = none ∧ env.attestation = none := by
  have hnone : ∀ document ∈ (none : Option Bytes), referenced H core document := nofun
  exact exists_signEnvelope_attested hsha hbytes hkeys hnone

namespace SignedEnvelope.SignedBy

variable {env : SignedEnvelope} {core : EnvelopeCore} {keys : List EnvelopeSigner}
  {bytes message : Bytes} (h : env.SignedBy H core keys bytes message)

include h

/-- A log can store the envelope. -/
theorem exists_leaf (hsha : ∀ data, (H.sha256 data).length = 32) :
    ∃ leaf, envelopeLeaf env = .ok leaf := by
  rw [envelopeLeaf, h.digest, commit, mhSha256, multihashDigest_toHex (hsha _)]
  exact ⟨_, rfl⟩

/-- A checkpoint changes nothing about the signing. -/
theorem withCheckpoint (cp : Checkpoint) :
    (withCheckpoint env cp).SignedBy H core keys bytes message :=
  ⟨h.encoded, h.covered, h.format, h.core, h.coreCbor, h.digestAlg, h.digest, h.signatures,
    h.keyDirectory⟩

/-- The committed bytes of a clean core are canonical and match it. -/
theorem canonicalCheck_pass (hback : ReadsBack H bytes) (hclean : JsValue.Settled core.payload) :
    (canonicalCheck H env).status = .pass := by
  obtain ⟨v, hdecode, hencode⟩ := hback.canonical
  have hread : fromBase64 H env.coreCbor = .ok bytes := by
    rw [h.coreCbor]
    exact hback.base64
  have hcore : env.core = core := by rw [h.core, hclean.cleanMembers_eq]
  have hown : canonicalize H env.core = .ok bytes := hcore ▸ h.encoded
  have hself : bytesEqual bytes bytes = true := (bytesEqual_iff _ _).mpr rfl
  rw [canonicalCheck, encodingVerdict, hread, ok_bind, hdecode, ok_bind, hencode, ok_bind]
  simp only [hself, Bool.not_true, Bool.false_eq_true, if_false, hown, ok_bind]
  rfl

/-- The digest is that of the committed bytes. -/
theorem digestCheck_pass (hback : ReadsBack H bytes) {canonical : Check}
    (hcanonical : canonical.status = .pass) : (digestCheck H env canonical).status = .pass := by
  have hread : fromBase64 H env.coreCbor = .ok bytes := by
    rw [h.coreCbor]
    exact hback.base64
  have halg : ¬(env.digestAlg ≠ "sha-256" ∨ usableAlgorithm env.digestAlg .digest = none) := by
    rw [h.digestAlg]
    decide
  rw [digestCheck, hread]
  simp only [hcanonical, ne_eq, not_true_eq_false, if_false, if_neg halg, h.digest, if_true]
  rfl

/-- The directory reads the entry of every signer. -/
theorem carried (hids : (keys.map EnvelopeSigner.keyId).Nodup) {k : EnvelopeSigner}
    (hk : k ∈ keys) : env.carried k.keyId = .entry k.directoryEntry := by
  let directory : KeyDirectory :=
    ⟨keys.map fun k => (k.keyId, k.directoryEntry), by rwa [List.map_map]⟩
  have hdirectory : env.keyDirectory = directory :=
    h.keyDirectory.trans (OrderedMap.ofList_entries directory)
  have hget : env.keyDirectory.get k.keyId = some k.directoryEntry := by
    rw [hdirectory]
    exact Entries.get_of_mem directory.nodup (List.mem_map_of_mem hk)
  rw [SignedEnvelope.carried, hget]

/-- The block of a signer verifies. -/
theorem blockProblem_none (hids : (keys.map EnvelopeSigner.keyId).Nodup) {k : EnvelopeSigner}
    (hk : k ∈ keys) (hsigns : k.Signs H) : blockProblem H env (k.sign message) = .ok none := by
  have halg : usableAlgorithm (k.sign message).alg .signature ≠ none := by
    rw [hsigns.alg]
    decide
  have hcarried : env.carried (k.sign message).keyId = .entry k.directoryEntry := by
    rw [hsigns.keyId, h.carried hids hk]
  rw [blockProblem, if_neg halg, hcarried, if_neg (by simp), h.digest, h.covered, ok_bind]
  simp only [CarriedKey.verifies, hsigns.verifies, if_true]

private theorem signatureLoop_signed (hids : (keys.map EnvelopeSigner.keyId).Nodup)
    (hsign : ∀ k ∈ keys, k.Signs H) {signers : List EnvelopeSigner} (hsub : signers ⊆ keys)
    (run : SignatureRun) :
    signatureLoop H env (signers.map fun k => k.sign message) run =
      .ok { run with validSigners := run.validSigners ++ signers.map EnvelopeSigner.keyId } := by
  induction signers generalizing run with
  | nil => simp [signatureLoop]
  | cons k signers ih =>
    have hk := hsub List.mem_cons_self
    rw [List.map_cons, signatureLoop, h.blockProblem_none hids hk (hsign k hk), ok_bind,
      ih fun _ hk => hsub (List.mem_cons_of_mem _ hk)]
    simp only [SignatureRun.add, (hsign k hk).keyId, List.map_cons, List.append_assoc,
      List.singleton_append]

/-- The signature check of a signed envelope passes for all of its signers. -/
theorem signatureCheck_pass (hkeys : keys ≠ []) (hids : (keys.map EnvelopeSigner.keyId).Nodup)
    (hsign : ∀ k ∈ keys, k.Signs H) {digest : Check} (hdigest : digest.status = .pass) :
    ∃ sigs, signatureCheck H env digest = .ok sigs ∧ sigs.signature.status = .pass ∧
      sigs.validSigners = keys.map EnvelopeSigner.keyId := by
  have hnonempty : env.signatures ≠ [] := by
    rw [h.signatures]
    simpa using hkeys
  have hloop := signatureLoop_signed h hids hsign (List.Subset.refl keys) {}
  rw [signatureCheck, if_neg (not_not_intro hdigest), if_neg hnonempty, h.signatures, hloop,
    ok_bind]
  refine ⟨_, rfl, ?_, ?_⟩
  · simp [SignatureRun.result, check]
  · simp [SignatureRun.result]

end SignedEnvelope.SignedBy

end

end CoolSdk
