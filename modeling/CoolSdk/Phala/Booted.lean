import CoolSdk.Phala.Issued

/-!
# A booted plane

What starting a plane over the simulated client leaves: keys that were generated, a directory
that reads each of them, and a quote that passes every check made of it.
-/

namespace CoolSdk

/-! ## Slices and key ids -/

private theorem length_hexDigits (bytes : Bytes) : (hexDigits bytes).length = 2 * bytes.length := by
  induction bytes with
  | nil => rfl
  | cons b bytes ih =>
    have hcons : hexDigits (b :: bytes) =
        hexDigit (b.toNat / 16) :: hexDigit (b.toNat % 16) :: hexDigits bytes := rfl
    rw [hcons, List.length_cons, List.length_cons, List.length_cons, ih]
    omega

/-- A slice that starts inside a text is not empty. -/
private theorem sliceText_ne {text : String} {start stop : Nat}
    (h : start < min stop text.toList.length) : sliceText text start stop ≠ "" := by
  intro he
  have hlist := congrArg String.toList he
  simp only [sliceText, String.toList_ofList, String.toList_empty] at hlist
  have hlength := congrArg List.length hlist
  simp only [List.length_drop, List.length_take, List.length_nil] at hlength
  omega

/-- Digits of a digest are left behind its prefix. -/
private theorem slice_digest_ne {bytes : Bytes} (h : bytes.length = 32) {stop : Nat}
    (hstop : 4 < stop) : sliceText (toHexField bytes) 4 stop ≠ "" := by
  refine sliceText_ne ?_
  have hlength : (toHexField bytes).toList.length = 68 := by
    have hdigits : (toHex bytes).toList = hexDigits bytes := String.toList_ofList
    rw [toHexField, String.toList_append, List.length_append, hdigits, length_hexDigits, h]
    rfl
  omega

/-- The first letters of the role tell key ids apart. -/
private theorem roles_differ (short : String) :
    "cool-" ++ "enclave" ++ "-" ++ short ≠ "cool-" ++ "log" ++ "-" ++ short ∧
      "cool-" ++ "enclave" ++ "-" ++ short ≠ SIM_ROOT_KEY_ID ∧
      "cool-" ++ "log" ++ "-" ++ short ≠ SIM_ROOT_KEY_ID := by
  have hsixth : ∀ role : String, role.toList ≠ [] →
      ("cool-" ++ role ++ "-" ++ short).toList[5]? = role.toList[0]? := by
    intro role hrole
    obtain ⟨c, cs, hcs⟩ := List.exists_cons_of_ne_nil hrole
    simp [String.toList_append, hcs]
  have henclave := hsixth "enclave" (by decide)
  have hlog := hsixth "log" (by decide)
  refine ⟨fun h => ?_, fun h => ?_, fun h => ?_⟩
  · rw [h, hlog] at henclave
    revert henclave
    decide
  · rw [h] at henclave
    revert henclave
    decide
  · rw [h] at hlog
    revert hlog
    decide

private theorem keyId_ne (role short : String) : "cool-" ++ role ++ "-" ++ short ≠ "" := by
  intro h
  have hlist := congrArg String.toList h
  simp [String.toList_append] at hlist

/-! ## What starting leaves -/

section

variable {H : Host} {K : KeyHost}

theorem generated_of_generateKeypair {keyId : String} {seed : Bytes} {key : KeyPair}
    (h : generateKeypair H K keyId seed = .ok key) : key.keyId = keyId ∧ key.Generated H K := by
  have hid : key.keyId = keyId := by
    unfold generateKeypair at h
    split at h
    · cases h
    · rw [← Except.ok.inj h]
  exact ⟨hid, seed, hid ▸ h⟩

/-- The public keys of a generated key pair are base64 fields. -/
theorem KeyPair.Generated.entry {key : KeyPair} (h : key.Generated H K) :
    B64_FIELD.test key.directoryEntry.mlDsaPub = true ∧
      B64_FIELD.test key.directoryEntry.ed25519Pub = true := by
  obtain ⟨seed, h⟩ := h
  unfold generateKeypair at h
  split at h
  · cases h
  · rw [← Except.ok.inj h]
    exact ⟨test_toBase64Field _, test_toBase64Field _⟩

/-- What a key with an id signs is a well-formed block. -/
theorem SigningLaws.formed (h : SigningLaws H K) {key : KeyPair} (hid : key.keyId ≠ "")
    (message : Bytes) : (H.hybridSign message key).Formed := by
  rw [h.sign]
  exact ⟨rfl, hid, test_toBase64Field _, test_toBase64Field _⟩

private theorem sealedKeypair_ok {client : SimulatedDstackClient} {path role : String}
    {key : KeyPair} (h : sealedKeypair H K client path role = .ok key) :
    key.keyId = "cool-" ++ role ++ "-" ++ shortMeasurement (client.measurement K) 10 ∧
      key.Generated H K := by
  unfold sealedKeypair at h
  dsimp only at h
  split at h
  · cases h
  · exact generated_of_generateKeypair h

/-- What a plane is started from: a client whose instance id, if it is given one, is not empty,
and an expected measurement that is absent or the client's own. -/
structure StartedFrom (H : Host) (K : KeyHost) (plane : EvidencePlane)
    (clientOptions : SimulatedDstackOptions) (client : SimulatedDstackClient)
    (options : EvidencePlaneOptions) (quoteClock : String) : Prop where
  new : SimulatedDstackClient.new H K clientOptions = .ok client
  start : EvidencePlane.start H K client options quoteClock = .ok plane
  instanceId : ∀ id, clientOptions.instanceId = some id → id ≠ ""
  logId : ∀ id, options.logId = some id → id ≠ ""
  clock : quoteClock ≠ ""
  expected : ∀ m, options.expectedMeasurement = some m → m = client.measurement K

/-- What the verifier needs of a plane. -/
structure EvidencePlane.Booted (H : Host) (K : KeyHost) (plane : EvidencePlane) : Prop where
  record : plane.keys.record.Generated H K
  log : plane.keys.log.Generated H K
  recordId : plane.keys.record.keyId ≠ ""
  logKeyId : plane.keys.log.keyId ≠ ""
  logId : plane.logId ≠ ""
  directory : DirectoryFormed plane.directory
  readRecord : carriedKey plane.directory plane.keys.record.keyId =
    .entry plane.keys.record.directoryEntry
  readLog : carriedKey plane.directory plane.keys.log.keyId = .entry plane.keys.log.directoryEntry
  attestation : plane.attestation.Formed
  quote : plane.attestation.quote = some plane.quote
  simulated : plane.quote.root = "cool-sim-root" ∧ plane.quote.raw = none
  /-- The quote is signed by a key of the directory. -/
  signed : ∃ message signature entry, H.canonicalCbor (toJs plane.quote.body) = .ok message ∧
    plane.quote.signature = some signature ∧
    carriedKey plane.directory signature.keyId = .entry entry ∧
    H.hybridVerify message signature entry = true
  reportData : enclaveReportData H (.str plane.keys.record.directoryEntry.mlDsaPub)
    (.str plane.keys.record.directoryEntry.ed25519Pub) = .ok plane.quote.body.reportData
  expected : ∀ m, plane.attestation.expectedMeasurement = some m → m = plane.quote.body.measurement
  runtime : ∃ digest, quoteDigest H (toJs plane.quote) = .ok digest ∧
    plane.runtime.teeQuote = some digest
  measurement : plane.runtime.enclaveMeasurement = some plane.quote.body.measurement
  mode : plane.runtime.mode = .simulated
  runtimeFormed : plane.runtime.Formed

private theorem measurement_formed (hsha384 : ∀ data, (K.sha384 data).length = 48)
    (client : SimulatedDstackClient) : (client.measurement K).Formed :=
  ⟨isRegister_toHexField (hsha384 _), isRegister_toHexField (hsha384 _),
    isRegister_toHexField (hsha384 _), isRegister_toHexField (hsha384 _),
    isRegister_toHexField (hsha384 _)⟩

private theorem attestationNote_ne (client : SimulatedDstackClient) :
    attestationNote (client.info K) ≠ "" := by
  have hnote : attestationNote (client.info K) =
      "SIMULATED — structurally complete quote under a CooL-held root, NOT hardware evidence" :=
    if_neg (by rintro ⟨⟩)
  rw [hnote]
  decide

private theorem carriedKey_three {a b c : String} {x y z : DirectoryEntry} (hab : a ≠ b)
    (hac : a ≠ c) (hbc : b ≠ c) : carriedKey [(a, x), (b, y), (c, z)] a = .entry x ∧
      carriedKey [(a, x), (b, y), (c, z)] b = .entry y ∧
      carriedKey [(a, x), (b, y), (c, z)] c = .entry z := by
  simp [carriedKey, Entries.get, hab, hac, hbc]

private theorem isMultihash_of_digest (hsha : ∀ data, (H.sha256 data).length = 32) {v : JsValue}
    {digest : Multihash} (h : quoteDigest H v = .ok digest) : isMultihash digest = true := by
  obtain ⟨bytes, _, h⟩ := bind_eq_ok.mp h
  cases h
  exact isMultihash_toHex (hsha _)

private theorem isMultihash_of_reportData (hsha : ∀ data, (H.sha256 data).length = 32)
    {v w : JsValue} {digest : Multihash} (h : enclaveReportData H v w = .ok digest) :
    isMultihash digest = true := by
  obtain ⟨bytes, _, h⟩ := bind_eq_ok.mp h
  cases h
  exact isMultihash_toHex (hsha _)

/-- A new client has its root key and is named. -/
structure SimulatedDstackClient.Named (H : Host) (K : KeyHost) (client : SimulatedDstackClient) :
    Prop where
  rootId : client.rootKey.keyId = SIM_ROOT_KEY_ID
  root : client.rootKey.Generated H K
  appId : client.appId ≠ ""
  instanceId : client.instanceId ≠ ""

private theorem SimulatedDstackClient.named_of_new
    (hsha : ∀ data, (H.sha256 data).length = 32) {options : SimulatedDstackOptions}
    {client : SimulatedDstackClient} (h : SimulatedDstackClient.new H K options = .ok client)
    (hinstance : ∀ id, options.instanceId = some id → id ≠ "") : client.Named H K := by
  simp only [SimulatedDstackClient.new, bind_eq_ok] at h
  obtain ⟨rootKey, hroot, h⟩ := h
  obtain ⟨hrootId, hrootGen⟩ := generated_of_generateKeypair hroot
  rw [← Except.ok.inj h]
  refine ⟨hrootId, hrootGen, slice_digest_ne (hsha _) (by omega), ?_⟩
  cases hgiven : options.instanceId with
  | none =>
    rw [Option.getD_none]
    exact slice_digest_ne (hsha _) (by omega)
  | some id => exact hinstance id hgiven

/-- The directory of a client and two keys beside its own. -/
private theorem directory_of_keys {client : SimulatedDstackClient} {record log : KeyPair}
    (hrl : record.keyId ≠ log.keyId) (hrr : record.keyId ≠ client.rootKey.keyId)
    (hlr : log.keyId ≠ client.rootKey.keyId) :
    client.directory.foldl (fun directory e => Entries.set directory e.1 e.2)
        (mergeDirectories [record, log]) =
      [(record.keyId, record.directoryEntry), (log.keyId, log.directoryEntry),
        (client.rootKey.keyId, client.rootKey.directoryEntry)] := by
  simp [SimulatedDstackClient.directory, mergeDirectories, Entries.set, hrl, hrr, hlr]

/-- A started plane is booted. -/
theorem StartedFrom.booted (hlaws : SigningLaws H K) (hsha : ∀ data, (H.sha256 data).length = 32)
    (hsha384 : ∀ data, (K.sha384 data).length = 48) {plane : EvidencePlane}
    {clientOptions : SimulatedDstackOptions} {client : SimulatedDstackClient}
    {options : EvidencePlaneOptions} {quoteClock : String}
    (h : StartedFrom H K plane clientOptions client options quoteClock) : plane.Booted H K := by
  obtain ⟨hclient, hstart, hinstance, hlogId, hclock, hexpected⟩ := h
  have hnamed := SimulatedDstackClient.named_of_new hsha hclient hinstance
  simp only [EvidencePlane.start, sealedKeyset, SimulatedDstackClient.getQuote, signSimulatedQuote,
    quoteSigningMessage, bind_eq_ok] at hstart
  obtain ⟨keys, ⟨record, hrecord, log, hlog, hkeys⟩, reportData, hreport, quote,
    ⟨signature, ⟨message, hmessage, hsignature⟩, hquote⟩, digest, hdigest, hplane⟩ := hstart
  obtain rfl := Except.ok.inj hkeys
  obtain rfl := Except.ok.inj hsignature
  obtain rfl := Except.ok.inj hquote
  obtain ⟨hrecordId, hrecordGen⟩ := sealedKeypair_ok hrecord
  obtain ⟨hlogKeyId, hlogGen⟩ := sealedKeypair_ok hlog
  obtain ⟨hrl, hrr, hlr⟩ := roles_differ (shortMeasurement (client.measurement K) 10)
  rw [← hrecordId, ← hlogKeyId] at hrl
  rw [← hrecordId, ← hnamed.rootId] at hrr
  rw [← hlogKeyId, ← hnamed.rootId] at hlr
  have hdirectory := directory_of_keys hrl hrr hlr
  have hcarried := carriedKey_three (x := record.directoryEntry) (y := log.directoryEntry)
    (z := client.rootKey.directoryEntry) hrl hrr hlr
  have hreportMh := isMultihash_of_reportData hsha hreport
  have hmeasurement := measurement_formed hsha384 client
  obtain rfl := Except.ok.inj hplane
  have hroot' : client.rootKey.keyId ≠ "" := by
    rw [hnamed.rootId]
    decide
  have hquoteSigned : ∃ m s e, H.canonicalCbor (toJs
      ({ vendor := (client.info K).vendor, measurement := (client.info K).measurement,
         reportData := reportData, tcbStatus := (client.info K).tcbStatus,
         appId := (client.info K).appId, instanceId := (client.info K).instanceId,
         issuedAt := quoteClock } : QuoteBody)) = .ok m ∧
      some (H.hybridSign message client.rootKey) = some s ∧
      carriedKey [(record.keyId, record.directoryEntry), (log.keyId, log.directoryEntry),
        (client.rootKey.keyId, client.rootKey.directoryEntry)] s.keyId = .entry e ∧
      H.hybridVerify m s e = true := by
    refine ⟨message, _, client.rootKey.directoryEntry, hmessage, rfl, ?_,
      hlaws.verifies hnamed.root message⟩
    rw [hlaws.sign]
    exact hcarried.2.2
  exact {
    record := hrecordGen
    log := hlogGen
    recordId := hrecordId ▸ keyId_ne _ _
    logKeyId := hlogKeyId ▸ keyId_ne _ _
    logId := by
      cases hgiven : options.logId with
      | none => simp
      | some id => simpa using hlogId id hgiven
    directory := by
      rw [hdirectory]
      refine ⟨by simp, ?_⟩
      simp only [List.forall_mem_cons]
      exact ⟨hrecordGen.entry, hlogGen.entry, hnamed.root.entry, fun e he => by cases he⟩
    readRecord := by
      rw [hdirectory]
      exact hcarried.1
    readLog := by
      rw [hdirectory]
      exact hcarried.2.1
    attestation := {
      note := attestationNote_ne (K := K) client
      quote := by
        intro q hq
        obtain rfl := Option.some.inj hq
        exact {
          format := by simp
          root := by simp
          signature := by
            rintro _ ⟨⟩
            exact hlaws.formed hroot' message
          raw := by rintro _ ⟨⟩
          measurement := hmeasurement
          reportData := hreportMh
          tcbStatus := by
            change "UpToDate (simulated)" ≠ ""
            decide
          appId := hnamed.appId
          instanceId := hnamed.instanceId
          issuedAt := hclock }
      expectedMeasurement := fun m hm => hexpected m hm ▸ hmeasurement
      keyBinding := by
        rintro _ ⟨⟩
        exact hreportMh }
    quote := rfl
    simulated := ⟨rfl, rfl⟩
    signed := by
      rw [hdirectory]
      exact hquoteSigned
    reportData := hreport
    expected := hexpected
    runtime := ⟨digest, hdigest, rfl⟩
    measurement := rfl
    mode := rfl
    runtimeFormed := {
      measurement := by
        rintro _ ⟨⟩
        exact hmeasurement
      teeQuote := by
        rintro _ ⟨⟩
        exact isMultihash_of_digest hsha hdigest
      gpu := by
        rintro _ ⟨⟩
      hardware := by
        rintro ⟨⟩ } }

end

end CoolSdk
