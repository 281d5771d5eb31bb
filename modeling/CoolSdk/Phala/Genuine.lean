import CoolSdk.Phala.Booted
import CoolSdk.Phala.Transparency

/-!
# Genuine receipts

What a booted plane seals over a log that its log key signs passes the domains of the verifier,
the attestation and the enclave as simulated ones. One lemma a domain.
-/

namespace CoolSdk

variable {H : Host} {K : KeyHost} {σ ι : Type} {L : EvidenceLog σ ι} {leafHashes : σ → List Bytes}

/-! ## Logs that a key signs -/

/-- A head signed by a key at a reading of the clock, listing only the log's own co-signature. -/
structure STH.SignedBy (H : Host) (logKey : KeyPair) (timestamp : String) (sth : STH) : Prop where
  logId : sth.logId ≠ ""
  timestamp : sth.timestamp = timestamp
  signed : ∃ message, sthSigningMessage H (sthCore sth) = .ok message ∧
    sth.signature = H.hybridSign message logKey
  witnesses : sth.witnesses = [selfWitness sth.signature]
  root : ∃ digest, multihashFromDigest digest = .ok sth.rootHash

/-- A log whose heads a key signs over a tree of 32-byte hashes, in the states of an invariant. -/
structure EvidenceLog.Serves (H : Host) (L : EvidenceLog σ ι) (leafHashes : σ → List Bytes)
    (logKey : KeyPair) (Good : σ → Prop) : Prop where
  tree : L.KeepsTree H leafHashes
  hashes : ∀ s, Good s → ∀ a ∈ leafHashes s, a.length = 32
  append : ∀ io leafData s, Good s → Good (L.append io leafData s).2
  head : ∀ io timestamp s, Good s → Good (L.buildSTH io timestamp s).2
  signed : ∀ io timestamp s sth, Good s → (L.buildSTH io timestamp s).1 = .ok sth →
    sth.SignedBy H logKey timestamp

private theorem signTreeHead_signedBy {logId : String} {logKey : KeyPair} {treeSize : Nat}
    {leaves : List Bytes} {timestamp : String} {sth : STH} (hlogId : logId ≠ "")
    (h : signTreeHead H logId logKey treeSize leaves timestamp = .ok sth) :
    sth.SignedBy H logKey timestamp := by
  simp only [signTreeHead, rootHashOf, bind_eq_ok] at h
  obtain ⟨rootHash, ⟨root, _, hroot⟩, message, hmessage, h⟩ := h
  cases h
  exact ⟨hlogId, rfl, ⟨message, hmessage, rfl⟩, rfl, ⟨root, hroot⟩⟩

/-- The log in memory serves a plane whose log key it holds. -/
theorem MemoryLog.serves (hsha : ∀ data, (H.sha256 data).length = 32) (logKey : KeyPair) :
    (MemoryLog.evidenceLog (H := H)).Serves H MemoryLog.leafHashes logKey
      fun log => log.logId ≠ "" ∧ log.logKey = logKey where
  tree := MemoryLog.keepsTree
  hashes log _ a ha := by
    rw [log.hashed] at ha
    obtain ⟨leafData, _, rfl⟩ := List.mem_map.mp ha
    exact hsha _
  append _ _ _ h := h
  head _ _ _ h := h
  signed _ _ _ _ h hok := h.2 ▸ signTreeHead_signedBy h.1 hok

/-- The log in a file serves a plane whose log key it was opened with. -/
theorem FileLog.serves (hsha : ∀ data, (H.sha256 data).length = 32) (logKey : KeyPair) :
    (FileLog.evidenceLog H).Serves H FileLog.leafHashes logKey
      fun log => (log.logId ≠ "" ∧ log.logKey = logKey) ∧ ∀ a ∈ log.leafHashes, a.length = 32 where
  tree := FileLog.keepsTree
  hashes _ h := h.2
  append io leafData log h := by
    cases io with
    | failed landed error => exact h
    | written =>
      refine ⟨h.1, fun a ha => ?_⟩
      rcases List.mem_append.mp ha with ha | ha
      · exact h.2 a ha
      · obtain rfl := List.mem_singleton.mp ha
        exact hsha _
  head _ _ _ h := h
  signed io _ log sth h hok := by
    obtain ⟨head, hhead, hok⟩ := bind_eq_ok.mp hok
    cases io with
    | written =>
      cases hok
      exact h.1.2 ▸ signTreeHead_signedBy h.1.1 hhead
    | failed landed error => cases hok

/-! ## What sealing puts into a receipt -/

/-- What an issued receipt says of its record and its head. -/
structure ReceiptV2.SealedBy (H : Host) (r : ReceiptV2) (recordKey logKey : KeyPair)
    (core : RecordCoreV2) (clock : String) (leafHashes : List Bytes) : Prop where
  record : r.record.core = core
  binding : bindingHashV2 H core = .ok r.bindingHash
  signed : ∃ message, recordSigningMessageV2 H core r.bindingHash = .ok message ∧
    r.record.signature = H.hybridSign message recordKey
  taken : r.TakenFrom H leafHashes
  head : r.sth.SignedBy H logKey clock
  hashes : ∀ a ∈ leafHashes, a.length = 32

theorem EvidencePlane.seal_sealedBy {logKey : KeyPair} {Good : σ → Prop}
    (hL : L.Serves H leafHashes logKey Good) {recordKey : KeyPair} {core : RecordCoreV2}
    {clock : String} {leafIo headIo : ι} {s s' : σ} {r : ReceiptV2} (hs : Good s)
    (h : EvidencePlane.seal H L recordKey core clock leafIo headIo s = (.ok r, s')) :
    r.SealedBy H recordKey logKey core clock (leafHashes s') := by
  have htaken := EvidencePlane.seal_takenFrom hL.tree h
  rw [EvidencePlane.seal] at h
  split at h
  · cases h
  · rename_i record binding leafData hsign
    simp only [signRecord, bind_eq_ok] at hsign
    obtain ⟨_, hbinding, message, hmessage, _, _, hsign⟩ := hsign
    cases hsign
    split at h
    · cases h
    · rename_i landed t happended
      have ht := hL.append leafIo leafData s hs
      rw [happended] at ht
      split at h
      · cases h
      · rename_i sth t' hhead
        have ht' := hL.head headIo clock t ht
        have hsigned := hL.signed headIo clock t sth ht (by rw [hhead])
        rw [hhead] at ht'
        split at h
        · cases h
        · cases h
          exact ⟨rfl, hbinding, ⟨message, hmessage, rfl⟩, htaken, hsigned, hL.hashes _ ht'⟩

/-- Sealing keeps the log in the states of its invariant. -/
theorem EvidencePlane.seal_good {logKey : KeyPair} {Good : σ → Prop}
    (hL : L.Serves H leafHashes logKey Good) (recordKey : KeyPair) (core : RecordCoreV2)
    (clock : String) (leafIo headIo : ι) {s : σ} (hs : Good s) :
    Good (EvidencePlane.seal H L recordKey core clock leafIo headIo s).2 := by
  rw [EvidencePlane.seal]
  split
  · exact hs
  · rename_i record binding leafData _
    have ht := hL.append leafIo leafData s hs
    split
    · rename_i happended
      rwa [happended] at ht
    · rename_i landed t happended
      rw [happended] at ht
      have ht' := hL.head headIo clock t ht
      split
      · rename_i hhead
        rwa [hhead] at ht'
      · rename_i hhead
        rw [hhead] at ht'
        split
        · exact ht'
        · exact ht'

/-! ## The log part of a sealed receipt -/

section

variable (hsha : ∀ data, (H.sha256 data).length = 32)

include hsha

private theorem isMultihash_bindingHash {core : RecordCoreV2} {binding : Multihash}
    (h : bindingHashV2 H core = .ok binding) : isMultihash binding = true := by
  obtain ⟨bytes, _, h⟩ := bind_eq_ok.mp h
  cases h
  exact isMultihash_toHex (hsha _)

omit hsha in
private theorem isMultihash_auditPath {leaves : List Bytes} {i : Int} {path : List Multihash}
    (h : auditPathOf H leaves i = .ok path) : ∀ mh ∈ path, isMultihash mh = true := by
  obtain ⟨digests, _, h⟩ := bind_eq_ok.mp h
  intro mh hmem
  obtain ⟨digest, _, hdigest⟩ := exists_of_mem_mapM h hmem
  exact isMultihash_of_fromDigest hdigest

omit hsha in
/-- The proof of a sealed receipt has the form the schema asks for. -/
theorem ReceiptV2.TakenFrom.formed {r : ReceiptV2} {leaves : List Bytes}
    (h : r.TakenFrom H leaves) : r.inclusion.Formed ∧ r.inclusion.leafIndex < r.sth.treeSize := by
  obtain ⟨leafData, _, hget⟩ := h.leaf
  have hlt := (List.getElem?_eq_some_iff.mp hget).1
  have hsize := h.head.1
  refine ⟨⟨?_, isMultihash_auditPath h.path⟩, by omega⟩
  rw [h.size]
  omega

/-- The audit path of a sealed receipt leads to the root of its head. -/
theorem ReceiptV2.TakenFrom.reconstructs {r : ReceiptV2} {leaves : List Bytes}
    (h : r.TakenFrom H leaves) (hl : ∀ a ∈ leaves, a.length = 32) :
    reconstructsRoot H r.bindingHash r.inclusion (sthCore r.sth) = .ok true := by
  obtain ⟨leafData, hleaf, hget⟩ := h.leaf
  have hmax : leaves.length ≤ 2 ^ 30 := by
    obtain ⟨root, hroot, _⟩ := bind_eq_ok.mp h.head.2
    exact length_le_of_merkleRoot hroot
  have hverifies := verifies_of_auditPathOf hsha hmax hl hget h.path h.head.1 h.head.2
  unfold Inclusion.verifies at hverifies
  split at hverifies
  · rename_i auditPath root hpath hroot
    rw [Bool.and_eq_true] at hverifies
    have hroot' : multihashDigest (sthCore r.sth).rootHash = .ok root := hroot
    simp only [reconstructsRoot, hleaf, hpath, hroot', ok_bind]
    exact congrArg Except.ok hverifies.2
  · cases hverifies

end

/-! ## The verdict -/

/-- What a genuine receipt of a simulated plane is found to be. -/
structure VerdictV2.Genuine (v : VerdictV2) : Prop where
  ok : v.ok = true
  binding : v.checks.binding = .pass
  signature : v.checks.signature = .pass
  inclusion : v.checks.inclusion = .pass
  attestation : v.checks.attestation = .simulated
  enclave : v.checks.enclave = .simulated

section

variable {plane : EvidencePlane} {core : TypedCore} {r : ReceiptV2} {clock : String}
  {leaves : List Bytes}

private theorem signature_pass (hlaws : SigningLaws H K) (hplane : plane.Booted H K)
    (h : r.SealedBy H plane.keys.record plane.keys.log core.members clock leaves) :
    verifySignatureDomain H (plane.fields core r) = .ok .pass := by
  obtain ⟨message, hmessage, hsigned⟩ := h.signed
  have hkeyId : r.record.signature.keyId = plane.keys.record.keyId := by
    rw [hsigned, hlaws.sign]
    rfl
  have hread : carriedKey (plane.fields core r).directory
      (plane.fields core r).record.signature.keyId = .entry plane.keys.record.directoryEntry := by
    change carriedKey plane.directory r.record.signature.keyId = _
    rw [hkeyId, hplane.readRecord]
  have hverify : CarriedKey.verifies H message r.record.signature
      (.entry plane.keys.record.directoryEntry) = true := by
    rw [hsigned]
    exact hlaws.verifies hplane.record message
  rw [verifySignatureDomain, hread]
  change (recordSigningMessageV2 H core.members r.bindingHash >>= _) = _
  rw [hmessage, ok_bind]
  exact congrArg Except.ok (if_pos hverify)

private theorem inclusion_pass (hlaws : SigningLaws H K)
    (hsha : ∀ data, (H.sha256 data).length = 32) (hplane : plane.Booted H K)
    (h : r.SealedBy H plane.keys.record plane.keys.log core.members clock leaves) :
    verifyInclusionDomain H (plane.fields core r) = .ok .pass := by
  obtain ⟨message, hmessage, hsigned⟩ := h.head.signed
  have hkeyId : r.sth.signature.keyId = plane.keys.log.keyId := by
    rw [hsigned, hlaws.sign]
    rfl
  have hread : carriedKey plane.directory r.sth.signature.keyId =
      .entry plane.keys.log.directoryEntry := by
    rw [hkeyId, hplane.readLog]
  have hverify : CarriedKey.verifies H message r.sth.signature
      (.entry plane.keys.log.directoryEntry) = true := by
    rw [hsigned]
    exact hlaws.verifies hplane.log message
  have hsize : r.inclusion.treeSize = (sthCore r.sth).treeSize := h.taken.size
  have hindex : ¬(sthCore r.sth).treeSize ≤ r.inclusion.leafIndex :=
    Nat.not_le.mpr h.taken.formed.2
  have hroot := h.taken.reconstructs hsha h.hashes
  simp only [verifyInclusionDomain, EvidencePlane.fields, hsize, hindex, hroot, hread, hmessage,
    ne_eq, not_true_eq_false, if_false, ok_bind]
  exact congrArg Except.ok (if_pos hverify)

/-- The log's own co-signature does not count, and counting it does not throw. -/
private theorem witnesses_absent
    (h : r.SealedBy H plane.keys.record plane.keys.log core.members clock leaves) :
    verifyWitnessesDomain H (plane.fields core r) (.ofInt 0) = .ok .absent := by
  obtain ⟨message, hmessage, _⟩ := h.head.signed
  have hself : witnessCounts H message plane.directory (toJs (selfWitness r.sth.signature)) =
      .ok false := by
    have hexternal : (toJs (selfWitness r.sth.signature)).read "external" = .ok (.bool false) := by
      simp [toJs, selfWitness, JsValue.read, JsValue.member, Entries.get]
    simp only [witnessCounts, externalWitness, hexternal, ok_bind]
    rfl
  have hcount : countExternal H
      { core := sthCore r.sth, signature := r.sth.signature,
        witnesses := r.sth.witnesses.map toJs } plane.directory = .ok 0 := by
    simp only [countExternal, hmessage, h.head.witnesses, ok_bind, List.map_cons, List.map_nil,
      List.mapM_cons, List.mapM_nil, hself, pure_bind]
    rfl
  simp only [verifyWitnessesDomain, EvidencePlane.fields, hcount, ok_bind]
  exact congrArg Except.ok (if_neg (by decide))

private theorem registersOk_of_formed {m : Measurement} (h : m.Formed) :
    registersOk H m.registers = .ok true := by
  simp only [Measurement.registers, registersOk, JsValue.toText, ok_bind, h.mrtd, h.rtmr0,
    h.rtmr1, h.rtmr2, h.rtmr3, if_true]

private theorem attestation_simulated (hplane : plane.Booted H K) :
    verifyAttestationDomain H (plane.fields core r) {} = .ok .simulated := by
  have hformed := hplane.attestation.quote plane.quote hplane.quote
  obtain ⟨message, signature, entry, hmessage, hsignature, hread, hverify⟩ := hplane.signed
  have hstructure : checkQuoteStructure H plane.quote.fields = .ok true := by
    have hregisters : registersOk H plane.quote.fields.registers = .ok true :=
      registersOk_of_formed hformed.measurement
    have hreport : isMultihash plane.quote.fields.reportData = true := hformed.reportData
    have hraw : plane.quote.fields.root = "cool-sim-root" ↔ plane.quote.fields.raw = none :=
      iff_of_true hplane.simulated.1 hplane.simulated.2
    simp only [checkQuoteStructure, hregisters, hreport, hraw, ok_bind]
    rfl
  have hchain : chainToRoot H (plane.fields core r) {} plane.quote.fields =
      .ok (some { ok := true, root := "cool-sim-root" }) := by
    have hroot : plane.quote.fields.root = "cool-sim-root" := hplane.simulated.1
    have hsig : plane.quote.fields.signature = some signature := hsignature
    have hdir : (plane.fields core r).directory = plane.directory := rfl
    have hbody : plane.quote.fields.body = toJs plane.quote.body := rfl
    simp only [chainToRoot, hroot, if_true, simulatedQuoteVerifier, hsig, hdir, hread, hbody,
      hmessage, ok_bind, CarriedKey.verifies, hverify]
    rfl
  have hquote : (plane.fields core r).quote = some plane.quote.fields := by
    rw [EvidencePlane.fields, hplane.quote]
    rfl
  simp only [verifyAttestationDomain, hquote, hstructure, ok_bind, hchain]
  exact congrArg Except.ok (by simp [attestationStatus])

/-- A core of a plane: its runtime block is the plane's, up to the workload's GPU. -/
def EvidencePlane.Owns (plane : EvidencePlane) (core : TypedCore) : Prop :=
  ∃ gpu, core.runtime = { plane.runtime with gpu := gpu }

private theorem enclave_simulated (hlaws : SigningLaws H K) (hplane : plane.Booted H K)
    (hcore : plane.Owns core)
    (h : r.SealedBy H plane.keys.record plane.keys.log core.members clock leaves) :
    verifyEnclaveDomain H (plane.fields core r) {} .simulated = .ok .simulated := by
  obtain ⟨gpu, hruntime⟩ := hcore
  obtain ⟨digest, hdigest, htee⟩ := hplane.runtime
  obtain ⟨message, _, hsigned⟩ := h.signed
  have hquote : (plane.fields core r).quote = some plane.quote.fields := by
    rw [EvidencePlane.fields, hplane.quote]
    rfl
  have hteeQuote : (plane.fields core r).record.teeQuote = some digest := by
    change core.runtime.teeQuote = _
    rw [hruntime]
    exact htee
  have hmeasurement : (plane.fields core r).record.enclaveMeasurement =
      some plane.quote.fields.measurement := by
    change core.runtime.enclaveMeasurement = _
    rw [hruntime]
    exact hplane.measurement
  have hvalue : quoteDigest H plane.quote.fields.value = .ok digest := hdigest
  have hreport : CarriedKey.reportData H (carriedKey (plane.fields core r).directory
      (plane.fields core r).record.signature.keyId) = .ok (some plane.quote.fields.reportData) := by
    have hkeyId : r.record.signature.keyId = plane.keys.record.keyId := by
      rw [hsigned, hlaws.sign]
      rfl
    change CarriedKey.reportData H (carriedKey plane.directory r.record.signature.keyId) = _
    rw [hkeyId, hplane.readRecord]
    exact congrArg (Except.map some) hplane.reportData
  have hpin : ((pinnedMeasurement (plane.fields core r) {}).any fun pin =>
      decide (pin ≠ plane.quote.fields.measurement)) = false := by
    change (Option.any _ plane.attestation.expectedMeasurement) = false
    cases hexpected : plane.attestation.expectedMeasurement with
    | none => rfl
    | some m =>
      have hm : m = plane.quote.fields.measurement := hplane.expected m hexpected
      simp [hm]
  simp only [verifyEnclaveDomain, hquote, hteeQuote, hvalue, hmeasurement, hreport, hpin, ok_bind,
    ne_eq, not_true_eq_false, if_false, Bool.false_and, Bool.false_eq_true, if_true]
  rfl

/-- A receipt that a booted plane sealed is genuine. -/
theorem EvidencePlane.Booted.genuine (A : Anchor.AnchorHost) (hlaws : SigningLaws H K)
    (hsha : ∀ data, (H.sha256 data).length = 32) (hplane : plane.Booted H K)
    (hform : core.Formed) (hcore : plane.Owns core) (hclock : clock ≠ "")
    (h : r.SealedBy H plane.keys.record plane.keys.log core.members clock leaves) :
    ∃ v, verifyReceiptV2 H A (plane.receipt r) {} = .ok v ∧ v.Genuine := by
  obtain ⟨message, _, hsigned⟩ := h.signed
  obtain ⟨headMessage, _, hheadSigned⟩ := h.head.signed
  obtain ⟨rootDigest, hroot⟩ := h.head.root
  have hsth : r.sth.Formed := {
    logId := h.head.logId
    treeSize := by
      have := h.taken.formed.2
      omega
    rootHash := isMultihash_of_fromDigest hroot
    timestamp := by
      rw [h.head.timestamp]
      exact hclock
    signature := hheadSigned ▸ hlaws.formed hplane.logKeyId headMessage }
  have hvalid : validateReceiptV2Shape (plane.receipt r) = [] :=
    EvidencePlane.receipt_valid h.record hform (hsigned ▸ hlaws.formed hplane.recordId message)
      (isMultihash_bindingHash hsha h.binding) h.taken.formed.1 hsth hplane.attestation
      hplane.directory
  have hread : readReceipt (plane.receipt r) = .ok (plane.fields core r) :=
    EvidencePlane.readReceipt_receipt h.record
  have hbinding : bindingHashV2 H (plane.fields core r).record.core = .ok r.bindingHash :=
    h.binding
  have hverify : verifyFields H A (plane.fields core r) {} =
      .ok (verdictOf (plane.fields core r) {}
        { binding := .pass, signature := .pass, inclusion := .pass, witnesses := .absent,
          attestation := .simulated, enclave := .simulated, anchor := .absent }) := by
    have hwitnesses : verifyWitnessesDomain H (plane.fields core r)
        ((({} : VerifyArgsV2).witnessThreshold).getD (.ofInt 0)) = .ok .absent :=
      witnesses_absent h
    simp only [verifyFields, hbinding, signature_pass hlaws hplane h,
      inclusion_pass hlaws hsha hplane h, hwitnesses, attestation_simulated hplane,
      enclave_simulated hlaws hplane hcore h, ok_bind]
    have hpass : r.bindingHash = (plane.fields core r).bindingHash := rfl
    rw [if_pos hpass]
    rfl
  rw [verifyReceiptV2, if_neg (not_not.mpr hvalid), hread, ok_bind, hverify]
  exact ⟨_, rfl, ⟨rfl, rfl, rfl, rfl, rfl, rfl⟩⟩

end

end CoolSdk
