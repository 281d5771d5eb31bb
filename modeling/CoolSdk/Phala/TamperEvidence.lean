import CoolSdk.Phala.ReferencePlane

/-!
# Receipts cannot be edited

Two accepted receipts with the same record signature under the same key have the same core, the
same binding hash and, where the core names a quote and both carry one, the same quote. The
signature fixes the core, the core fixes the binding hash and the quote's digest, and the digest
fixes the quote, whose report data commits to the key.
-/

namespace CoolSdk

open JsValue (Members member)

section

variable {H : Host} {A : Anchor.AnchorHost} {receipt : JsValue} {options : VerifyArgsV2}

/-! ## What acceptance gives -/

/-- What the verifier has established of an accepted receipt. -/
structure Established (H : Host) (r : ReceiptFields) (message : Bytes) (key : DirectoryEntry) :
    Prop where
  binding : bindingHashV2 H r.record.core = .ok r.bindingHash
  signed : recordSigningMessageV2 H r.record.core r.bindingHash = .ok message
  carried : carriedKey r.directory r.record.signature.keyId = .entry key
  verified : H.hybridVerify message r.record.signature key = true
  /-- A named quote that is carried has the digest the record names, and commits to the key. -/
  quote : ∀ quote teeQuote, r.quote = some quote → r.record.teeQuote = some teeQuote →
    quoteDigest H quote.value = .ok teeQuote ∧
      enclaveReportData H (.str key.mlDsaPub) (.str key.ed25519Pub) = .ok quote.reportData

/-- The verdict is ok only where no domain stands in the way. -/
theorem checks_of_ok {r : ReceiptFields} {checks : VerdictChecksV2}
    (h : (verdictOf r options checks).ok = true) :
    checks.binding = .pass ∧ checks.signature = .pass ∧ checks.enclave ≠ .fail := by
  simp only [verdictOf, Bool.and_eq_true, decide_eq_true_eq] at h
  obtain ⟨⟨⟨⟨⟨⟨hbinding, hsignature⟩, _⟩, henclave⟩, _⟩, _⟩, _⟩ := h
  exact ⟨hbinding, hsignature, henclave⟩

/-- A passing signature was verified under an entry of the directory. -/
theorem key_of_signature {r : ReceiptFields} (h : verifySignatureDomain H r = .ok .pass) :
    ∃ message key, recordSigningMessageV2 H r.record.core r.bindingHash = .ok message ∧
      carriedKey r.directory r.record.signature.keyId = .entry key ∧
      H.hybridVerify message r.record.signature key = true := by
  rw [verifySignatureDomain] at h
  cases hkey : carriedKey r.directory r.record.signature.keyId with
  | absent =>
    rw [hkey] at h
    cases h
  | inherited =>
    simp only [hkey, bind_eq_ok] at h
    obtain ⟨_, _, h⟩ := h
    cases h
  | entry key =>
    simp only [hkey, bind_eq_ok] at h
    obtain ⟨message, hmessage, h⟩ := h
    by_cases hverify : H.hybridVerify message r.record.signature key = true
    · exact ⟨message, key, hmessage, rfl, hverify⟩
    · simp only [CarriedKey.verifies, hverify] at h
      cases h

/-- An enclave domain that does not fail has compared the quote it finds. -/
theorem quote_of_enclave {r : ReceiptFields} {attestation status : DomainStatusV2}
    (h : verifyEnclaveDomain H r options attestation = .ok status) (hstatus : status ≠ .fail)
    {quote : QuoteFields} {teeQuote : Multihash} (hquote : r.quote = some quote)
    (htee : r.record.teeQuote = some teeQuote) :
    quoteDigest H quote.value = .ok teeQuote ∧
      (carriedKey r.directory r.record.signature.keyId).reportData H =
        .ok (some quote.reportData) := by
  rw [verifyEnclaveDomain, hquote, htee] at h
  obtain ⟨digest, hdigest, h⟩ := bind_eq_ok.mp h
  split at h
  · cases h
    exact absurd rfl hstatus
  · rename_i hsame
    rw [not_not.mp hsame] at hdigest
    split at h
    · cases h
      exact absurd rfl hstatus
    · obtain ⟨expected, hexpected, h⟩ := bind_eq_ok.mp h
      split at h
      · cases h
        exact absurd rfl hstatus
      · rename_i hreport
        rw [not_not.mp hreport] at hexpected
        exact ⟨hdigest, hexpected⟩

theorem established_of_ok {verdict : VerdictV2} {r : ReceiptFields}
    (h : verifyReceiptV2 H A receipt options = .ok verdict) (hok : verdict.ok = true)
    (hr : readReceipt receipt = .ok r) : ∃ message key, Established H r message key := by
  rw [verifyReceiptV2] at h
  split at h
  · cases h
    cases hok
  · rw [hr, ok_bind] at h
    simp only [verifyFields, bind_eq_ok] at h
    obtain ⟨recomputed, hrecomputed, signature, hsignature, _, _, _, _, attestation, _, enclave,
      henclave, h⟩ := h
    cases h
    obtain ⟨hbinding, hpass, hnotFail⟩ := checks_of_ok hok
    simp only at hbinding hpass hnotFail
    subst hpass
    obtain ⟨message, key, hmessage, hkey, hverify⟩ := key_of_signature hsignature
    refine ⟨message, key, ?_, hmessage, hkey, hverify, ?_⟩
    · split at hbinding
      · rename_i hsame
        rw [hrecomputed, hsame]
      · cases hbinding
    · intro quote teeQuote hquote htee
      obtain ⟨hdigest, hreport⟩ := quote_of_enclave henclave hnotFail hquote htee
      rw [hkey, CarriedKey.reportData] at hreport
      obtain ⟨commitment, hcommitment, hsome⟩ := ok_of_map_eq hreport
      cases hsome
      exact ⟨hdigest, hcommitment⟩

/-! ## The quote digest is part of the core -/

theorem readRecord_teeQuote {v : JsValue} {r : RecordFields} (h : readRecord v = .ok r) :
    ∃ runtime quote, (JsValue.object r.core).read "runtime" = .ok runtime ∧
      runtime.read "tee_quote" = .ok quote ∧ JsValue.orNull JsValue.text quote = .ok r.teeQuote := by
  simp only [readRecord, bind_eq_ok] at h
  obtain ⟨ms, hms, _, _, _, _, _, _, _, _, _, _, _, _, runtime, hruntime, _, _, _, _, _, _, teeQuote,
    ⟨quote, hquote, hteeQuote⟩, h⟩ := h
  cases h
  refine ⟨runtime, quote, ?_, hquote, hteeQuote⟩
  cases v with
  | object _ =>
    cases hms
    rw [← hruntime]
    exact congrArg (fun o => Except.ok (o.getD .undefined))
      (Entries.get_erase_ne ms (by decide : ("signature" : String) ≠ "runtime"))
  | _ => cases hms

theorem readReceipt_record {r : ReceiptFields} (h : readReceipt receipt = .ok r) :
    ∃ v, readRecord v = .ok r.record := by
  simp only [readReceipt, bind_eq_ok] at h
  obtain ⟨record, ⟨v, _, hrecord⟩, _, _, _, _, _, _, _, _, _, _, _, _, _, _, _, _, h⟩ := h
  cases h
  exact ⟨v, hrecord⟩

/-- Cores that are equal up to member order name the same quote. -/
theorem teeQuote_congr {r₁ r₂ : RecordFields} {v₁ v₂ : JsValue} (h₁ : readRecord v₁ = .ok r₁)
    (h₂ : readRecord v₂ = .ok r₂) (hplain₁ : (JsValue.object r₁.core).plain = true)
    (hplain₂ : (JsValue.object r₂.core).plain = true)
    (h : (JsValue.object r₁.core).sortKeys = (JsValue.object r₂.core).sortKeys) {s : Multihash}
    (hs : r₁.teeQuote = some s) : r₂.teeQuote = some s := by
  obtain ⟨runtime₁, quote₁, hruntime₁, hquote₁, htee₁⟩ := readRecord_teeQuote h₁
  obtain ⟨runtime₂, quote₂, hruntime₂, hquote₂, htee₂⟩ := readRecord_teeQuote h₂
  have hruntime := JsValue.read_congr hplain₁ hplain₂ h hruntime₁ hruntime₂
  have hquote := JsValue.read_congr (JsValue.plain_read hplain₁ hruntime₁)
    (JsValue.plain_read hplain₂ hruntime₂) hruntime hquote₁ hquote₂
  rcases orNull_cases htee₁ with ⟨_, hnone⟩ | ⟨t, ht, hsome⟩
  · rw [hs] at hnone
    cases hnone
  · rw [hs] at hsome
    cases hsome
    cases quote₁ with
    | str t =>
      cases ht
      rw [JsValue.eq_str_of_sortKeys hquote.symm] at htee₂
      exact (Except.ok.inj htee₂).symm
    | _ => cases ht

/-! ## Two receipts -/

variable {r₁ r₂ : ReceiptFields}

/-- The signature of the first receipt verifies for one of their two messages only. -/
def SignsOnce (H : Host) (r₁ r₂ : ReceiptFields) : Prop :=
  ∀ m₁ m₂ key, recordSigningMessageV2 H r₁.record.core r₁.bindingHash = .ok m₁ →
    recordSigningMessageV2 H r₂.record.core r₂.bindingHash = .ok m₂ →
    H.hybridVerify m₁ r₁.record.signature key = true →
    H.hybridVerify m₂ r₁.record.signature key = true → m₁ = m₂

/-- The encodings of the quotes that two receipts carry do not collide. -/
def QuotesApart (H : Host) (r₁ r₂ : ReceiptFields) : Prop :=
  ∀ q₁ q₂ b₁ b₂, r₁.quote = some q₁ → r₂.quote = some q₂ → H.canonicalCbor q₁.value = .ok b₁ →
    H.canonicalCbor q₂.value = .ok b₂ → H.sha256 b₁ = H.sha256 b₂ → b₁ = b₂

/-- Two receipts are evidence of the same record, sealed under the same key and quote. The order
of members is no part of a value. -/
structure SameEvidence (H : Host) (r₁ r₂ : ReceiptFields) (key : DirectoryEntry) : Prop where
  core : (JsValue.object r₁.record.core).sortKeys = (JsValue.object r₂.record.core).sortKeys
  fields : ∀ name, (member r₁.record.core name).sortKeys = (member r₂.record.core name).sortKeys
  bindingHash : r₁.bindingHash = r₂.bindingHash
  quote : ∀ q₁ q₂, r₁.record.teeQuote ≠ none → r₁.quote = some q₁ → r₂.quote = some q₂ →
    q₁.value.sortKeys = q₂.value.sortKeys ∧ q₁.reportData = q₂.reportData ∧
      enclaveReportData H (.str key.mlDsaPub) (.str key.ed25519Pub) = .ok q₁.reportData

/-- The signed message is the encoded core and 32 bytes. -/
private theorem encoding_of_message {core : RecordCoreV2} {binding : Multihash} {message : Bytes}
    (h : recordSigningMessageV2 H core binding = .ok message) :
    ∃ b digest, H.canonicalCbor (.object core) = .ok b ∧ digest.length = 32 ∧
      message = b ++ digest := by
  simp only [recordSigningMessageV2, bind_eq_ok] at h
  obtain ⟨b, hb, digest, hdigest, h⟩ := h
  cases h
  refine ⟨b, digest, hb, ?_, rfl⟩
  rw [multihashDigest] at hdigest
  split at hdigest
  · cases hdigest
  · obtain ⟨d, _, hd⟩ := bind_eq_ok.mp hdigest
    by_cases hlength : d.length ≠ 32
    · simp only [if_pos hlength] at hd
      cases hd
    · simp only [if_neg hlength] at hd
      cases hd
      exact not_not.mp hlength

/-- Where one signature under one key covers two records, they are the same record. -/
theorem sameEvidence_of_established {message₁ message₂ : Bytes} {key : DirectoryEntry}
    (hlaws : CanonicalLaws H.canonicalCbor) (h₁ : Established H r₁ message₁ key)
    (h₂ : Established H r₂ message₂ key) {v₁ v₂ : JsValue}
    (hread₁ : readRecord v₁ = .ok r₁.record) (hread₂ : readRecord v₂ = .ok r₂.record)
    (hplain₁ : (JsValue.object r₁.record.core).plain = true)
    (hplain₂ : (JsValue.object r₂.record.core).plain = true)
    (hquote₁ : ∀ q, r₁.quote = some q → q.value.plain = true)
    (hquote₂ : ∀ q, r₂.quote = some q → q.value.plain = true)
    (hsignature : r₁.record.signature = r₂.record.signature) (honce : SignsOnce H r₁ r₂)
    (hapart : QuotesApart H r₁ r₂) : SameEvidence H r₁ r₂ key := by
  have hverified₂ := h₂.verified
  rw [← hsignature] at hverified₂
  have hmessages := honce _ _ key h₁.signed h₂.signed h₁.verified hverified₂
  obtain ⟨b₁, d₁, hb₁, hd₁, hm₁⟩ := encoding_of_message h₁.signed
  obtain ⟨b₂, d₂, hb₂, hd₂, hm₂⟩ := encoding_of_message h₂.signed
  have hencoding : b₁ = b₂ := by
    rw [hm₁, hm₂] at hmessages
    exact (List.append_inj' hmessages (hd₁.trans hd₂.symm)).1
  have hcore := hlaws.injective _ _ _ hplain₁ hplain₂ hb₁ (hencoding ▸ hb₂)
  refine ⟨hcore, JsValue.member_congr hplain₁ hplain₂ hcore, ?_, ?_⟩
  · have hbinding₁ := h₁.binding
    have hbinding₂ := h₂.binding
    rw [bindingHashV2, hb₁, ok_bind] at hbinding₁
    rw [bindingHashV2, hb₂, ok_bind, ← hencoding] at hbinding₂
    exact Except.ok.inj (hbinding₁.symm.trans hbinding₂)
  · intro q₁ q₂ htee hq₁ hq₂
    obtain ⟨teeQuote, htee₁⟩ := Option.ne_none_iff_exists'.mp htee
    have htee₂ := teeQuote_congr hread₁ hread₂ hplain₁ hplain₂ hcore htee₁
    obtain ⟨hdigest₁, hreport₁⟩ := h₁.quote q₁ teeQuote hq₁ htee₁
    obtain ⟨hdigest₂, hreport₂⟩ := h₂.quote q₂ teeQuote hq₂ htee₂
    obtain ⟨c₁, hc₁, hcommit₁⟩ := bind_eq_ok.mp hdigest₁
    obtain ⟨c₂, hc₂, hcommit₂⟩ := bind_eq_ok.mp hdigest₂
    have hsha := (mhSha256_eq_iff H c₁ c₂).mp (Except.ok.inj (hcommit₁.trans hcommit₂.symm))
    have hsame := hapart q₁ q₂ c₁ c₂ hq₁ hq₂ hc₁ hc₂ hsha
    exact ⟨hlaws.injective _ _ _ (hquote₁ q₁ hq₁) (hquote₂ q₂ hq₂) hc₁ (hsame ▸ hc₂),
      Except.ok.inj (hreport₁.symm.trans hreport₂), hreport₁⟩

/-- Two accepted receipts with the same signature block and the same entry for its key have the
same core and binding hash, and the same quote where the core names one and both carry it. -/
theorem receipt_tamper_evidence (hlaws : CanonicalLaws H.canonicalCbor)
    {receipt₁ receipt₂ : JsValue} (hplain₁ : receipt₁.plain = true)
    (hplain₂ : receipt₂.plain = true) {options₁ options₂ : VerifyArgsV2}
    {verdict₁ verdict₂ : VerdictV2}
    (h₁ : verifyReceiptV2 H A receipt₁ options₁ = .ok verdict₁) (hok₁ : verdict₁.ok = true)
    (h₂ : verifyReceiptV2 H A receipt₂ options₂ = .ok verdict₂) (hok₂ : verdict₂.ok = true)
    (hr₁ : readReceipt receipt₁ = .ok r₁) (hr₂ : readReceipt receipt₂ = .ok r₂)
    (hsignature : r₁.record.signature = r₂.record.signature)
    (hkey : carriedKey r₁.directory r₁.record.signature.keyId =
      carriedKey r₂.directory r₂.record.signature.keyId)
    (honce : SignsOnce H r₁ r₂) (hapart : QuotesApart H r₁ r₂) :
    ∃ key, carriedKey r₁.directory r₁.record.signature.keyId = .entry key ∧
      SameEvidence H r₁ r₂ key := by
  obtain ⟨message₁, key, hestablished₁⟩ := established_of_ok h₁ hok₁ hr₁
  obtain ⟨message₂, key₂, hestablished₂⟩ := established_of_ok h₂ hok₂ hr₂
  have hsame : key₂ = key := by
    have hentry := hestablished₁.carried.symm.trans (hkey.trans hestablished₂.carried)
    cases hentry
    rfl
  subst hsame
  obtain ⟨v₁, hv₁⟩ := readReceipt_record hr₁
  obtain ⟨v₂, hv₂⟩ := readReceipt_record hr₂
  have hread₁ := readReceipt_readFrom hr₁
  have hread₂ := readReceipt_readFrom hr₂
  exact ⟨_, hestablished₁.carried, sameEvidence_of_established hlaws hestablished₁ hestablished₂
    hv₁ hv₂ (hread₁.plain_core hplain₁) (hread₂.plain_core hplain₂)
    (fun q hq => (hread₁.plain_quote hplain₁ hq).1) (fun q hq => (hread₂.plain_quote hplain₂ hq).1)
    hsignature honce hapart⟩

end

section

open Reference

/-- The reference host with its own encoder, signing with the stand-ins for the schemes. -/
def quotingHost : Host :=
  { host with
    hybridSign := CoolSdk.hybridSign keyHost
    hybridVerify := CoolSdk.hybridVerify host keyHost }

/-- A vendor's quote that commits to a key. -/
def vendorQuote (reportData : Multihash) : JsValue :=
  .object [("format", .str "dstack.tdx.v4"), ("root", .str "intel-dcap"),
    ("body", .object [("vendor", .str "intel-tdx"), ("measurement", measuredWith []),
      ("report_data", .str reportData), ("tcb_status", .str "UpToDate"), ("app_id", .str "app"),
      ("instance_id", .str "instance"), ("issued_at", .str "now")]),
    ("signature", .null), ("raw", .str "base64:AAAA")]

/-- The core of a change that names a quote. -/
def quotingCore (digest : Multihash) : RecordCoreV2 :=
  [("schema", .str "cool.change.v2"), ("record_id", .str "01ARZ3NDEKTSV4RRFFQ69G5FAV"),
    ("time", .object [("issued_at", .str "now"), ("seq", .num (.ofInt 0))]),
    ("change", .object [("kind", .str "prompt"), ("ref", .str "billing#system"),
      ("environment", .str "prod"), ("before_hash", .null),
      ("after_hash", .str (multihashOf 'c')), ("after_salt", .str "hex:00"),
      ("diff_hash", .str (multihashOf 'd')),
      ("actor", .object [("id", .str "ci"), ("method", .str "oidc")])]),
    ("runtime", .object [("tee_vendor", .str "intel-tdx"), ("mode", .str "hardware"),
      ("enclave_measurement", measuredWith []), ("tee_quote", .str digest), ("gpu", .null)])]

/-- A receipt of that change with its quote, and a note that no signature covers. -/
def notedReceipt (note : String) : Except String JsValue := do
  let key ← generateKeypair quotingHost keyHost "record" (List.replicate 32 7)
  let entry := key.directoryEntry
  let reportData ← enclaveReportData quotingHost (.str entry.mlDsaPub) (.str entry.ed25519Pub)
  let digest ← quoteDigest quotingHost (vendorQuote reportData)
  let (record, binding, _) ← signRecord quotingHost key (quotingCore digest)
  return .object [("schema", .str "cool.receipt.v2"),
    ("record", .object (Entries.set record.core "signature" (toJs record.signature))),
    ("binding_hash", .str binding), ("inclusion", .null), ("sth", .null),
    ("attestation", .object [("mode", .str "hardware"), ("note", .str note),
      ("key_binding", .null), ("expected_measurement", .null),
      ("quote", vendorQuote reportData)]),
    ("anchor", .null), ("key_directory", .object [("record", toJs entry)])]

def issuedReceipt : JsValue := valueOf (notedReceipt "as issued") (by decide +kernel)

def editedReceipt : JsValue := valueOf (notedReceipt "edited") (by decide +kernel)

def issuedFields : ReceiptFields := valueOf (readReceipt issuedReceipt) (by decide +kernel)

def editedFields : ReceiptFields := valueOf (readReceipt editedReceipt) (by decide +kernel)

private theorem noted_accepted :
    ((verifyReceiptV2 quotingHost anchorHost issuedReceipt {}).map VerdictV2.ok = .ok true) ∧
      (verifyReceiptV2 quotingHost anchorHost editedReceipt {}).map VerdictV2.ok = .ok true := by
  decide +kernel

private theorem noted_same :
    recordSigningMessageV2 quotingHost issuedFields.record.core issuedFields.bindingHash =
        recordSigningMessageV2 quotingHost editedFields.record.core editedFields.bindingHash ∧
      issuedFields.quote.map (fun q => canonicalCbor q.value) =
        editedFields.quote.map fun q => canonicalCbor q.value := by
  decide +kernel

/-- The note was edited: the evidence is the same, down to the quote. -/
theorem receipt_tamper_evidence_noted :
    issuedFields.quote.isSome = true ∧ editedFields.quote.isSome = true ∧
      ∃ key, SameEvidence quotingHost issuedFields editedFields key := by
  obtain ⟨verdict₁, h₁, hok₁⟩ := ok_of_map_eq noted_accepted.1
  obtain ⟨verdict₂, h₂, hok₂⟩ := ok_of_map_eq noted_accepted.2
  have honce : SignsOnce quotingHost issuedFields editedFields := by
    intro m₁ m₂ key hm₁ hm₂ _ _
    rw [noted_same.1, hm₂] at hm₁
    exact (Except.ok.inj hm₁).symm
  have hapart : QuotesApart quotingHost issuedFields editedFields := by
    intro q₁ q₂ b₁ b₂ hq₁ hq₂ hb₁ hb₂ _
    have hsame := noted_same.2
    rw [hq₁, hq₂, Option.map_some, Option.map_some] at hsame
    have hencoded := Option.some.inj hsame
    exact Except.ok.inj (hb₁.symm.trans (hencoded.trans hb₂))
  obtain ⟨key, _, hevidence⟩ := receipt_tamper_evidence (A := anchorHost) (H := quotingHost)
    canonicalLaws (by decide +kernel) (by decide +kernel) h₁ hok₁ h₂ hok₂ (eq_ok_valueOf _ _)
    (eq_ok_valueOf _ _) (by decide +kernel) (by decide +kernel) honce hapart
  exact ⟨by decide +kernel, by decide +kernel, key, hevidence⟩

end

end CoolSdk
