import CoolSdk.Authz.ReferenceSigning
import CoolSdk.Phala.Issued

/-!
# Attest first, then speak

The handshake with an enclave endpoint, whose transcript decides whether the channel opens, and
what a process says about where it runs. The quote that was fetched is checked for its structure,
its root, its vendor, its measurement and the key it commits to; a channel whose handshake has a
step that is not ok hands nothing to its sink.
-/

namespace CoolSdk

/-! ## What a hardware agent must have told -/

/-- The registers with their names. -/
def Measurement.named (m : Measurement) : List (String × String) :=
  [("mrtd", m.mrtd), ("rtmr0", m.rtmr0), ("rtmr1", m.rtmr1), ("rtmr2", m.rtmr2),
    ("rtmr3", m.rtmr3)]

/-- The digits of a register: what follows its marker, or all of it where it has none. -/
def registerDigits (value : String) : Bytes := (stripPrefix? "hex:" value).getD (utf8 value)

/-- True for a register that is empty or all zero. -/
def isZeroRegister (value : String) : Bool :=
  decide (value = "") || (registerDigits value).all fun digit => decide (digit = 48)

/-- Registers that are missing or zero. -/
def measurementIssues (m : Measurement) : List String :=
  (m.named.filter fun r => isZeroRegister r.2).map fun r => r.1 ++ " is missing or all-zero"

/-- What a hardware-mode agent must have told us before we believe it. -/
def hardwareEvidenceIssues (info : EnclaveInfo) : List String :=
  measurementIssues info.measurement ++
    (if info.appId = "" ∨ info.appId = "unknown" then ["agent returned no app_id"] else []) ++
    if info.instanceId = "" ∨ info.instanceId = "unknown" then ["agent returned no instance_id"]
    else []

/-! ## The handshake -/

/-- The outcome of chaining a quote to its root of trust, with what is said about it. -/
structure RootVerification extends QuoteVerification where
  tcbStatus : String
  detail : String

/-- A root-of-trust checker. -/
structure QuoteVerifier where
  root : String
  name : String
  verify : QuoteEnvelope → Except String RootVerification

/-- The calls of the guest agent that a handshake makes. -/
structure DstackClient where
  mode : RuntimeMode
  info : Except String EnclaveInfo
  getQuote : Multihash → Except String QuoteEnvelope
  directory : Except String (List (String × DirectoryEntry))

/-- What the client demands of the endpoint before it will transmit. -/
structure AttestationPolicy where
  expectedMeasurement : Option Measurement := none
  allowSimulated : Option Bool := none
  requireVendor : Option (List TeeVendor) := none
  verifier : Option QuoteVerifier := none
  requireVerifiedRoot : Option Bool := none

/-- One line of the handshake transcript. -/
structure HandshakeStep where
  label : String
  ok : Bool
  detail : String
  deriving DecidableEq, Repr

/-- The full result of attesting an endpoint. -/
structure AttestationHandshake where
  ok : Bool
  mode : RuntimeMode
  info : EnclaveInfo
  quote : QuoteEnvelope
  directory : List (String × DirectoryEntry)
  steps : List HandshakeStep
  reasons : List String
  /-- A verifier chained the quote to a vendor root during this handshake. -/
  rootVerified : Bool
  at_ : String

/-- Why a quote's shape is refused before any root is consulted. -/
def structureProblem (quote : QuoteEnvelope) : Option String :=
  match quote.body.measurement.named.find? fun r => !isRegister r.2 with
  | some r => some ("FAILED — malformed measurement register '" ++ r.1 ++ "'")
  | none =>
    if isMultihash quote.body.reportData = false then
      some "FAILED — malformed report_data commitment"
    else if quote.root = "cool-sim-root" ∧ quote.raw ≠ none then
      some "FAILED — a simulated quote must not carry vendor bytes"
    else if quote.root ≠ "cool-sim-root" ∧ quote.raw = none then
      some ("FAILED — quote claims root '" ++ quote.root ++ "' but carries no vendor bytes")
    else none

/-- Which registers differ. -/
def measurementDiff (a b : Measurement) : List String :=
  ((a.named.zip b.named).filter fun r => decide (r.1.2 ≠ r.2.2)).map fun r => r.1.1

section

variable (H : Host)

/-- The checker of simulator-issued quotes: the signature is checked against the simulator's root
key in a directory. -/
def simulatorVerifier (directory : List (String × DirectoryEntry)) : QuoteVerifier where
  root := "cool-sim-root"
  name := "cool-simulator"
  verify quote :=
    let answer (ok : Bool) (detail : String) : RootVerification :=
      { ok, root := "cool-sim-root", tcbStatus := quote.body.tcbStatus, detail }
    match quote.signature with
    | none => .ok (answer false "simulated quote carries no signature")
    | some signature =>
      match carriedKey directory signature.keyId with
      | .absent =>
        .ok (answer false ("no public key for simulator root '" ++ signature.keyId ++ "'"))
      | key => do
        let message ← quoteSigningMessage H quote.body
        let ok := key.verifies H message signature
        .ok (answer ok (if ok then
            "simulated quote signature valid under the CooL simulator root (NOT a vendor root)"
          else "simulated quote signature does not verify"))

namespace AttestationPolicy

variable (policy : AttestationPolicy)

/-- The checker of a quote's root: the one configured, or the simulator's for a simulated quote. -/
def verifierOf (quote : QuoteEnvelope) (directory : List (String × DirectoryEntry)) :
    Option QuoteVerifier :=
  policy.verifier <|>
    if quote.root = "cool-sim-root" then some (simulatorVerifier H directory) else none

/-- The step on the root of trust, and whether a vendor root was verified. -/
def rootStep (quote : QuoteEnvelope) (directory : List (String × DirectoryEntry)) :
    Except String (HandshakeStep × Bool) :=
  if quote.root = "cool-sim-root" ∧ policy.allowSimulated.getD true = false then
    .ok ({ label := "root of trust", ok := false
           detail := "simulated quote rejected — policy requires hardware" }, false)
  else
    match policy.verifierOf H quote directory with
    | none =>
      let required := policy.requireVerifiedRoot.getD true
      .ok ({ label := "root of trust", ok := !required
             detail := if required then
                 "no verifier configured for root '" ++ quote.root ++ "' — refusing to transmit"
               else "root '" ++ quote.root ++
                 "' REPORTED, NOT VERIFIED (policy.requireVerifiedRoot = false)" }, false)
    | some verifier => do
      let verification ← verifier.verify quote
      .ok ({ label := "root of trust", ok := verification.ok, detail := verification.detail },
        verification.ok && decide (quote.root ≠ "cool-sim-root") &&
          decide (verification.root ≠ "cool-sim-root"))

/-- The step on the vendor, where the policy restricts it. -/
def vendorStep (quote : QuoteEnvelope) : Option HandshakeStep :=
  match policy.requireVendor with
  | none | some [] => none
  | some vendors =>
    let ok := vendors.contains quote.body.vendor
    some
      { label := "vendor", ok
        detail := if ok then quote.body.vendor.text ++ " permitted"
          else quote.body.vendor.text ++ " not in [" ++
            ", ".intercalate (vendors.map TeeVendor.text) ++ "]" }

/-- The step on the measurement. -/
def pinStep (quote : QuoteEnvelope) : HandshakeStep :=
  match policy.expectedMeasurement with
  | none =>
    { label := "measurement pin", ok := true, detail := "no pin configured (development posture)" }
  | some expected =>
    let ok := decide (expected = quote.body.measurement)
    { label := "measurement pin", ok
      detail := if ok then "matches the pinned image (" ++
          sliceText quote.body.measurement.mrtd 4 16 ++ "…)"
        else "MISMATCH in " ++ ", ".intercalate (measurementDiff expected quote.body.measurement) ++
          " — the endpoint is not running the approved image" }

end AttestationPolicy

/-- The step on the evidence of a hardware agent. -/
def hardwareStep (mode : RuntimeMode) (info : EnclaveInfo) : Option HandshakeStep :=
  if mode = .hardware then
    let issues := hardwareEvidenceIssues info
    some
      { label := "hardware evidence", ok := decide (issues = [])
        detail := if issues = [] then "complete non-zero MRTD/RTMR0-3 and agent identity"
          else "; ".intercalate issues }
  else none

/-- The step on the structure of the quote. -/
def structureStep (quote : QuoteEnvelope) : HandshakeStep :=
  { label := "quote structure", ok := (structureProblem quote).isNone
    detail := (structureProblem quote).getD "well-formed" }

/-- The step on the key that the quote commits to. -/
def bindingStep (quote : QuoteEnvelope) (expectedReportData : Multihash) : HandshakeStep :=
  let ok := decide (quote.body.reportData = expectedReportData)
  { label := "key binding", ok
    detail := if ok then "quote report_data commits to the endpoint's signing key"
      else "quote is for a DIFFERENT key — refusing to transmit" }

/-- The steps that decide whether the channel opens. -/
def handshakeSteps (client : DstackClient) (policy : AttestationPolicy) (info : EnclaveInfo)
    (expectedReportData : Multihash) (quote : QuoteEnvelope) (root : HandshakeStep) :
    List HandshakeStep :=
  [{ label := "enclave info", ok := true
     detail := info.appName ++ " · app " ++ sliceText info.appId 0 12 ++ " · instance " ++
      sliceText info.instanceId 0 12 },
    { label := "quote fetched", ok := true
      detail := quote.format ++ " · TCB " ++ quote.body.tcbStatus }] ++
    (hardwareStep client.mode info).toList ++ [structureStep quote, root] ++
    (policy.vendorStep quote).toList ++
    [policy.pinStep quote, bindingStep quote expectedReportData]

/-- The last step, on the channel itself. -/
def channelStep (ok : Bool) : HandshakeStep :=
  { label := "channel", ok
    detail := if ok then "open — events may be transmitted" else "CLOSED — no data will be sent" }

/-- Attest an endpoint that claims to sign records with a key. -/
def attestEndpoint (client : DstackClient) (expectedKey : DirectoryEntry)
    (policy : AttestationPolicy) (clock : String) : Except String AttestationHandshake := do
  let info ← client.info
  let expectedReportData ←
    enclaveReportData H (.str expectedKey.mlDsaPub) (.str expectedKey.ed25519Pub)
  let quote ← client.getQuote expectedReportData
  let directory ← client.directory
  let (root, rootVerified) ← policy.rootStep H quote directory
  let steps := handshakeSteps client policy info expectedReportData quote root
  let ok := steps.all HandshakeStep.ok
  let transcript := steps ++ [channelStep ok]
  .ok
    { ok, mode := client.mode, info, quote, directory
      steps := transcript
      reasons := (transcript.filter fun s => !s.ok).map fun s => s.label ++ ": " ++ s.detail
      rootVerified, at_ := clock }

end

/-! ## The channel -/

/-- An attested transport of batches. -/
structure AttestedChannel (T : Type) where
  handshake : AttestationHandshake
  /-- What the sink answers to a batch. -/
  sink : List T → Except String Unit

namespace AttestedChannel

variable {T : Type}

/-- Connect: the channel is built on the handshake that was made for it. -/
def connect (H : Host) (client : DstackClient) (expectedKey : DirectoryEntry)
    (policy : AttestationPolicy) (clock : String) (sink : List T → Except String Unit) :
    Except String (AttestedChannel T) := do
  let handshake ← attestEndpoint H client expectedKey policy clock
  .ok { handshake, sink }

/-- What a closed channel throws. -/
def closedError (reasons : List String) : String :=
  "RA-TLS channel closed: " ++ (nonEmpty ("; ".intercalate reasons)).getD "attestation failed"

/-- What sending a batch answers, and the batch where the sink is handed it. -/
def send (channel : AttestedChannel T) (batch : List T) :
    Except String Unit × Option (List T) :=
  if channel.handshake.ok = false then (.error (closedError channel.handshake.reasons), none)
  else if batch = [] then (.ok (), none)
  else (channel.sink batch, some batch)

/-- What the sink is handed by a sequence of calls. -/
def transmitted (channel : AttestedChannel T) (batches : List (List T)) : List (List T) :=
  batches.filterMap fun batch => (channel.send batch).2

end AttestedChannel

/-! ## Where a process runs -/

/-- What a process can say about where it runs. -/
inductive RuntimeState
  | real
  | unverified
  | simulated
  | unavailable
  | failed
  deriving DecidableEq, Repr

/-- The status of a runtime. -/
structure RuntimeStatus where
  state : RuntimeState
  label : String
  display : String
  reason : String
  findings : List String
  vendor : String

/-- A status with its line to print. -/
def runtimeStatus (state : RuntimeState) (label vendor reason : String) (findings : List String) :
    RuntimeStatus :=
  { state, label, display := vendor ++ " · " ++ label, reason, findings, vendor }

/-- Why a handshake failed, in one line. -/
def AttestationHandshake.failure (handshake : AttestationHandshake) : String :=
  (nonEmpty ("; ".intercalate handshake.reasons)).getD "attestation handshake failed"

/-- The status of a connected evidence plane by its agent's information and its handshake. -/
def assessRuntime (info : EnclaveInfo) (handshake : Option AttestationHandshake) :
    RuntimeStatus :=
  let vendor := info.vendor.text
  let incomplete := hardwareEvidenceIssues info
  if info.mode = .simulated ∨ handshake.any (fun h => decide (h.quote.root = "cool-sim-root")) then
    runtimeStatus .simulated "SIMULATED" vendor
      ("no dstack hardware agent detected — this is CooL's in-process simulator and is not " ++
        "hardware evidence")
      ["running under the simulator"]
  else if incomplete ≠ [] then
    runtimeStatus .failed "EVIDENCE INCOMPLETE" vendor
      ("the dstack agent answered but did not supply real TDX evidence: " ++
        "; ".intercalate incomplete) incomplete
  else
    match handshake with
    | none =>
      runtimeStatus .failed "NOT ATTESTED" vendor "no attestation handshake has run" ["no handshake"]
    | some handshake =>
      if handshake.ok = false then
        runtimeStatus .failed
          (if handshake.steps.any (fun s => decide (s.label = "measurement pin") && !s.ok) then
            "MEASUREMENT MISMATCH" else "ATTESTATION FAILED")
          vendor handshake.failure handshake.reasons
      else if handshake.rootVerified = false then
        runtimeStatus .unverified "UNVERIFIED" vendor
          ("a dstack agent answered with a complete measurement, but no verifier chained the " ++
            "quote to a vendor root — this cannot be told apart from a protocol simulator (set " ++
            "QUOTE_VERIFIER_URL)")
          ["quote not chained to a vendor root"]
      else
        runtimeStatus .real "REAL" vendor
          "dstack evidence complete; quote verified against a vendor root" []

/-! ## What an open channel shows -/

/-- A quote of sound shape: every register and the commitment are well formed, and it carries
vendor bytes exactly where its root is a vendor's. -/
structure QuoteEnvelope.WellStructured (q : QuoteEnvelope) : Prop where
  registers : ∀ r ∈ q.body.measurement.named, isRegister r.2 = true
  reportData : isMultihash q.body.reportData = true
  raw : q.root = "cool-sim-root" ↔ q.raw = none

theorem structureProblem_eq_none_iff (q : QuoteEnvelope) :
    structureProblem q = none ↔ q.WellStructured := by
  unfold structureProblem
  split
  · rename_i r hr
    constructor
    · intro h
      cases h
    · intro h
      have hbad := List.find?_some hr
      rw [h.registers r (List.mem_of_find?_eq_some hr)] at hbad
      cases hbad
  · rename_i hall
    simp only [List.find?_eq_none, Bool.not_eq_true, Bool.not_eq_false'] at hall
    constructor
    · intro h
      split_ifs at h with hdata hsimulated hvendor
      refine ⟨hall, by simpa using hdata, ?_⟩
      by_cases hroot : q.root = "cool-sim-root"
      · simpa [hroot] using hsimulated
      · simpa [hroot] using hvendor
    · intro h
      rw [if_neg (by simp [h.reportData]), if_neg, if_neg]
      · rintro ⟨hroot, hraw⟩
        exact hroot (h.raw.mpr hraw)
      · rintro ⟨hroot, hraw⟩
        exact hraw (h.raw.mp hroot)

/-- The verifier of receipts judges the shape of a quote as the handshake does. -/
theorem checkQuoteStructure_fields (H : Host) (q : QuoteEnvelope) :
    checkQuoteStructure H q.fields = .ok (structureProblem q).isNone := by
  have hregisters : ∀ rs : List (String × String),
      registersOk H (rs.map fun r => (r.1, .str r.2)) =
        .ok (rs.find? fun r => !isRegister r.2).isNone := by
    intro rs
    induction rs with
    | nil => rfl
    | cons r rs ih =>
      have htext : (JsValue.str r.2).toText H = .ok r.2 := rfl
      rw [List.map_cons, registersOk, htext, ok_bind, List.find?_cons]
      cases hr : isRegister r.2 with
      | true => exact ih
      | false => rfl
  have hfields : q.fields.registers =
      q.body.measurement.named.map fun r => (r.1, .str r.2) := rfl
  rw [checkQuoteStructure, hfields, hregisters, ok_bind, structureProblem]
  cases q.body.measurement.named.find? fun r => !isRegister r.2 with
  | some r => rfl
  | none =>
    change Except.ok (true && isMultihash q.body.reportData &&
      decide (q.root = "cool-sim-root" ↔ q.raw = none)) = _
    cases hdata : isMultihash q.body.reportData with
    | false => rfl
    | true =>
      by_cases hroot : q.root = "cool-sim-root" <;> by_cases hraw : q.raw = none <;>
        simp [hroot, hraw]

/-- A register is present and has a digit other than zero. -/
def Present (register : String) : Prop :=
  register ≠ "" ∧ ∃ digit ∈ registerDigits register, digit ≠ 48

theorem isZeroRegister_eq_false_iff (register : String) :
    isZeroRegister register = false ↔ Present register := by
  simp [isZeroRegister, Present]

/-- A register that is zero is an issue. -/
theorem measurementIssues_ne_nil {m : Measurement} {r : String × String} (hr : r ∈ m.named)
    (hzero : isZeroRegister r.2 = true) : measurementIssues m ≠ [] := by
  rw [measurementIssues, ne_eq, List.map_eq_nil_iff, List.filter_eq_nil_iff]
  exact fun hnone => hnone r hr hzero

section

variable {H : Host} {client : DstackClient} {expectedKey : DirectoryEntry}
  {policy : AttestationPolicy} {clock : String}

/-- A verifier, configured or the simulator's own, accepted a quote. -/
structure AcceptedBy (H : Host) (policy : AttestationPolicy) (quote : QuoteEnvelope)
    (directory : List (String × DirectoryEntry)) (verifier : QuoteVerifier)
    (verification : RootVerification) : Prop where
  chosen : policy.verifierOf H quote directory = some verifier
  answered : verifier.verify quote = .ok verification
  accepted : verification.ok = true

/-- The quote of a handshake is the one fetched for the expected key and meets the policy. -/
structure AttestationHandshake.Admitted (H : Host) (client : DstackClient)
    (expectedKey : DirectoryEntry) (policy : AttestationPolicy) (h : AttestationHandshake) :
    Prop where
  bound : ∃ reportData,
    enclaveReportData H (.str expectedKey.mlDsaPub) (.str expectedKey.ed25519Pub) = .ok reportData ∧
      client.getQuote reportData = .ok h.quote ∧ h.quote.body.reportData = reportData
  structured : h.quote.WellStructured
  pinned : ∀ m, policy.expectedMeasurement = some m → h.quote.body.measurement = m
  vendor : ∀ vendors, policy.requireVendor = some vendors → vendors ≠ [] →
    h.quote.body.vendor ∈ vendors
  simulator : h.quote.root = "cool-sim-root" → policy.allowSimulated ≠ some false
  root : (∃ verifier verification,
      AcceptedBy H policy h.quote h.directory verifier verification) ∨
    policy.requireVerifiedRoot = some false

/-- What real evidence is: the agent's registers are all present and not zero, and a configured
verifier accepted a quote under a root that is not the simulator's. -/
structure AttestationHandshake.Real (policy : AttestationPolicy) (info : EnclaveInfo)
    (h : AttestationHandshake) : Prop where
  registers : ∀ r ∈ info.measurement.named, Present r.2
  root : h.quote.root ≠ "cool-sim-root"
  verified : ∃ verifier verification, policy.verifier = some verifier ∧
    verifier.verify h.quote = .ok verification ∧ verification.ok = true ∧
    verification.root ≠ "cool-sim-root"

/-- What the step on the root of trust comes to where it is ok. -/
theorem rootStep_ok {quote : QuoteEnvelope} {directory : List (String × DirectoryEntry)}
    {root : HandshakeStep} {verified : Bool}
    (h : policy.rootStep H quote directory = .ok (root, verified)) (hok : root.ok = true) :
    (quote.root = "cool-sim-root" → policy.allowSimulated ≠ some false) ∧
      ((∃ verifier verification, AcceptedBy H policy quote directory verifier verification) ∨
        policy.requireVerifiedRoot = some false) := by
  unfold AttestationPolicy.rootStep at h
  split_ifs at h with hrefused
  · cases h
    cases hok
  · constructor
    · intro hroot hforbidden
      exact hrefused ⟨hroot, by rw [hforbidden]; rfl⟩
    · split at h
      · cases h
        right
        cases hrequired : policy.requireVerifiedRoot with
        | none => simp [hrequired] at hok
        | some required => simpa [hrequired] using hok
      · rename_i verifier hverifier
        obtain ⟨verification, hverify, h⟩ := bind_eq_ok.mp h
        cases h
        exact .inl ⟨verifier, verification, hverifier, hverify, hok⟩

/-- A vendor root counts as verified where a configured verifier accepted one. -/
theorem rootStep_verified {quote : QuoteEnvelope} {directory : List (String × DirectoryEntry)}
    {root : HandshakeStep} (h : policy.rootStep H quote directory = .ok (root, true)) :
    quote.root ≠ "cool-sim-root" ∧ ∃ verifier verification, policy.verifier = some verifier ∧
      verifier.verify quote = .ok verification ∧ verification.ok = true ∧
      verification.root ≠ "cool-sim-root" := by
  unfold AttestationPolicy.rootStep at h
  split_ifs at h with hrefused
  · cases h
  · split at h
    · cases h
    · rename_i verifier hverifier
      obtain ⟨verification, hverify, h⟩ := bind_eq_ok.mp h
      have hverified := (Prod.mk.inj (Except.ok.inj h)).2
      simp only [Bool.and_eq_true, decide_eq_true_eq] at hverified
      obtain ⟨⟨hok, hroot⟩, hvendor⟩ := hverified
      refine ⟨hroot, verifier, verification, ?_, hverify, hok, hvendor⟩
      simpa [AttestationPolicy.verifierOf, hroot] using hverifier

/-- The steps of a transcript are all ok where each of them is. -/
theorem handshakeSteps_ok_iff {info : EnclaveInfo} {reportData : Multihash}
    {quote : QuoteEnvelope} {root : HandshakeStep} :
    (handshakeSteps client policy info reportData quote root).all HandshakeStep.ok = true ↔
      (∀ s ∈ hardwareStep client.mode info, s.ok = true) ∧ structureProblem quote = none ∧
        root.ok = true ∧ (∀ s ∈ policy.vendorStep quote, s.ok = true) ∧
        (policy.pinStep quote).ok = true ∧ quote.body.reportData = reportData := by
  simp [handshakeSteps, structureStep, bindingStep]

/-- What a handshake is made of. -/
theorem parts_of_attestEndpoint {h : AttestationHandshake}
    (hattest : attestEndpoint H client expectedKey policy clock = .ok h) :
    ∃ reportData root, client.info = .ok h.info ∧
      enclaveReportData H (.str expectedKey.mlDsaPub) (.str expectedKey.ed25519Pub) =
        .ok reportData ∧
      client.getQuote reportData = .ok h.quote ∧
      policy.rootStep H h.quote h.directory = .ok (root, h.rootVerified) ∧
      h.ok = (handshakeSteps client policy h.info reportData h.quote root).all HandshakeStep.ok := by
  unfold attestEndpoint at hattest
  obtain ⟨info, hinfo, hattest⟩ := bind_eq_ok.mp hattest
  obtain ⟨reportData, hdata, hattest⟩ := bind_eq_ok.mp hattest
  obtain ⟨quote, hquote, hattest⟩ := bind_eq_ok.mp hattest
  obtain ⟨directory, hdirectory, hattest⟩ := bind_eq_ok.mp hattest
  obtain ⟨⟨root, verified⟩, hroot, hattest⟩ := bind_eq_ok.mp hattest
  cases hattest
  exact ⟨reportData, root, hinfo, hdata, hquote, hroot, rfl⟩

/-- A handshake that is ok admits its quote. -/
theorem admitted_of_ok {h : AttestationHandshake}
    (hattest : attestEndpoint H client expectedKey policy clock = .ok h) (hok : h.ok = true) :
    h.Admitted H client expectedKey policy := by
  obtain ⟨reportData, root, _, hdata, hquote, hroot, hsteps⟩ := parts_of_attestEndpoint hattest
  rw [hsteps, handshakeSteps_ok_iff] at hok
  obtain ⟨_, hstructure, hrootOk, hvendor, hpin, hbound⟩ := hok
  obtain ⟨hsimulator, haccepted⟩ := rootStep_ok hroot hrootOk
  refine ⟨⟨reportData, hdata, hquote, hbound⟩, (structureProblem_eq_none_iff _).mp hstructure, ?_,
    ?_, hsimulator, haccepted⟩
  · intro m hm
    simp only [AttestationPolicy.pinStep, hm, decide_eq_true_eq] at hpin
    exact hpin.symm
  · intro vendors hvendors hne
    obtain ⟨first, rest, rfl⟩ := List.exists_cons_of_ne_nil hne
    simpa [AttestationPolicy.vendorStep, hvendors] using hvendor

/-- A runtime is real exactly where the evidence is complete and the handshake verified a root. -/
theorem assessRuntime_real_iff {info : EnclaveInfo} {handshake : Option AttestationHandshake} :
    (assessRuntime info handshake).state = .real ↔
      info.mode ≠ .simulated ∧ hardwareEvidenceIssues info = [] ∧
        ∃ h, handshake = some h ∧ h.quote.root ≠ "cool-sim-root" ∧ h.ok = true ∧
          h.rootVerified = true := by
  unfold assessRuntime
  cases handshake with
  | none =>
    simp only [Option.any_none, reduceCtorEq, or_false, false_and, exists_false, and_false,
      iff_false]
    split_ifs <;> simp [runtimeStatus]
  | some h =>
    simp only [Option.any_some, decide_eq_true_eq, Option.some.injEq, exists_eq_left']
    split_ifs with hsimulated hincomplete hclosed hpin hunverified
    · simp only [runtimeStatus, reduceCtorEq, false_iff]
      rintro ⟨hmode, _, hroot, _⟩
      exact hsimulated.elim hmode hroot
    · simp only [runtimeStatus, reduceCtorEq, hincomplete, false_and, and_false]
    · simp only [runtimeStatus, reduceCtorEq, hclosed, Bool.false_eq_true, false_and, and_false]
    · simp only [runtimeStatus, reduceCtorEq, hclosed, Bool.false_eq_true, false_and, and_false]
    · simp only [runtimeStatus, reduceCtorEq, hunverified, Bool.false_eq_true, and_false]
    · rw [not_or] at hsimulated
      rw [not_not] at hincomplete
      rw [Bool.not_eq_false] at hclosed hunverified
      exact iff_of_true rfl ⟨hsimulated.1, hincomplete, hsimulated.2, hclosed, hunverified⟩

/-- A batch reaches the sink over an open channel alone. -/
theorem AttestedChannel.ok_of_transmitted {T : Type} {channel : AttestedChannel T}
    {batches : List (List T)} {batch : List T} (h : batch ∈ channel.transmitted batches) :
    channel.handshake.ok = true := by
  obtain ⟨sent, _, hsent⟩ := List.mem_filterMap.mp h
  unfold AttestedChannel.send at hsent
  split_ifs at hsent with hclosed
  rwa [Bool.not_eq_false] at hclosed

/-- **Attest first, then speak.** Whatever the endpoint and the verifiers answer and whatever is
sent, a batch reaches the sink only where the quote that was fetched commits to the expected key
and meets the policy; and a process is called real only where, moreover, its registers are all
present and not zero and a configured verifier accepted a root other than the simulator's. -/
theorem attest_first {T : Type} {sink : List T → Except String Unit} {channel : AttestedChannel T}
    (hconnect : AttestedChannel.connect H client expectedKey policy clock sink = .ok channel) :
    (∀ batches, ∀ batch ∈ channel.transmitted batches,
        channel.handshake.Admitted H client expectedKey policy) ∧
      (∀ info, (assessRuntime info (some channel.handshake)).state = .real →
        channel.handshake.Admitted H client expectedKey policy ∧
          channel.handshake.Real policy info) ∧
      ∀ info, (assessRuntime info none).state ≠ .real := by
  obtain ⟨handshake, hattest, hchannel⟩ := bind_eq_ok.mp hconnect
  cases hchannel
  refine ⟨?_, ?_, ?_⟩
  · intro batches batch hbatch
    exact admitted_of_ok hattest (AttestedChannel.ok_of_transmitted hbatch)
  · intro info hreal
    obtain ⟨_, hevidence, h, hsome, hroot, hok, hverified⟩ := assessRuntime_real_iff.mp hreal
    cases hsome
    obtain ⟨_, root, _, _, _, hstep, _⟩ := parts_of_attestEndpoint hattest
    rw [hverified] at hstep
    obtain ⟨_, hverifier⟩ := rootStep_verified hstep
    have hregisters : ∀ r ∈ info.measurement.named, Present r.2 := by
      intro r hr
      rw [← isZeroRegister_eq_false_iff, ← Bool.not_eq_true]
      exact fun hzero => measurementIssues_ne_nil hr hzero
        (List.append_eq_nil_iff.mp (List.append_eq_nil_iff.mp hevidence).1).1
    exact ⟨admitted_of_ok hattest hok, hregisters, hroot, hverifier⟩
  · intro info hreal
    obtain ⟨_, _, h, hsome, _⟩ := assessRuntime_real_iff.mp hreal
    cases hsome

end

namespace Reference

/-- A register of ones. -/
def onesRegister : String := "hex:" ++ String.ofList (List.replicate 64 '1')

def guestMeasurement : Measurement :=
  { mrtd := onesRegister, rtmr0 := onesRegister, rtmr1 := onesRegister, rtmr2 := onesRegister
    rtmr3 := onesRegister }

/-- What the agent of a hardware guest tells. -/
def guestInfo : EnclaveInfo :=
  { appId := "app-1"
    instanceId := "instance-1"
    appName := "payments"
    vendor := .intelTdx
    mode := .hardware
    measurement := guestMeasurement
    tcbStatus := "UpToDate"
    eventLog := []
    imageDigest := "sha256:9f1c"
    appUrl := none }

/-- A client of the hardware guest. -/
def guestClient : DstackClient :=
  { mode := .hardware
    info := .ok guestInfo
    getQuote := fun reportData => .ok
      { format := "dstack.tdx.v4"
        root := "intel-dcap"
        body :=
          { vendor := .intelTdx
            measurement := guestMeasurement
            reportData
            tcbStatus := "UpToDate"
            appId := "app-1"
            instanceId := "instance-1"
            issuedAt := "2026-01-01T00:00:00.000Z" }
        signature := none
        raw := some "base64:AAAA" }
    directory := .ok [] }

/-- A checker that accepts quotes with vendor bytes. -/
def vendorVerifier : QuoteVerifier :=
  { root := "intel-dcap"
    name := "dcap"
    verify := fun quote => .ok
      { ok := quote.raw.isSome, root := "intel-dcap", tcbStatus := quote.body.tcbStatus
        detail := "quote verified against intel-dcap" } }

/-- A policy with every restriction. -/
def strictPolicy : AttestationPolicy :=
  { expectedMeasurement := some guestMeasurement
    allowSimulated := some false
    requireVendor := some [.intelTdx]
    verifier := some vendorVerifier
    requireVerifiedRoot := some true }

/-- The public half of the key the guest signs records with. -/
def guestKey : DirectoryEntry := (key "cool-enclave-1111111111" "AAAA").directoryEntry

/-- The channel to the guest for its key. -/
def guestChannel : Except String (AttestedChannel String) :=
  AttestedChannel.connect host guestClient guestKey strictPolicy
    "2026-01-01T00:00:01.000Z" fun _ => .ok ()

end Reference

open Reference in
/-- The channel to a hardware guest transmits and its runtime is real. -/
theorem attest_first_guest : ∃ channel, guestChannel = .ok channel ∧
    channel.transmitted [["event-1"], [], ["event-2"]] = [["event-1"], ["event-2"]] ∧
    (assessRuntime guestInfo (some channel.handshake)).state = .real ∧
    channel.handshake.Admitted host guestClient guestKey strictPolicy ∧
    channel.handshake.Real strictPolicy guestInfo := by
  have hrun : guestChannel.map (fun channel =>
      (channel.transmitted [["event-1"], [], ["event-2"]],
        (assessRuntime guestInfo (some channel.handshake)).state)) =
      .ok ([["event-1"], ["event-2"]], .real) := by decide +kernel
  obtain ⟨channel, hchannel, houtcome⟩ := ok_of_map_eq hrun
  obtain ⟨hsent, hreal⟩ := Prod.mk.inj houtcome
  obtain ⟨_, hruntime, _⟩ := attest_first hchannel
  obtain ⟨hadmitted, hgenuine⟩ := hruntime guestInfo hreal
  exact ⟨channel, hchannel, hsent, hreal, hadmitted, hgenuine⟩

end CoolSdk
