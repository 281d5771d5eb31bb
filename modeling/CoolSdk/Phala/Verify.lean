import CoolSdk.Phala.Anchor
import CoolSdk.Phala.Engine
import CoolSdk.Phala.Shape
import CoolSdk.Wire.KeyDirectory

/-!
# The receipt verifier

Seven domains over a receipt that was parsed from JSON and found well formed. What the verifier
reads of it is read first, member by member; what the structural check leaves open, the listed
co-signatures and the registers of a measurement, stays a value and is read where the verifier
reads it. A verdict keeps the status of every domain and leaves their texts out.
-/

namespace CoolSdk

open JsValue (Members)

/-! ## Reading a receipt -/

namespace JsValue

/-- A member used as a text. -/
def text : JsValue → Except String String
  | str s => .ok s
  | _ => .error "not a text"

/-- A member used as a count or an index. -/
def natural : JsValue → Except String Nat
  | num .negZero => .ok 0
  | num (.finite q) => if q.den = 1 ∧ 0 ≤ q.num then .ok q.num.toNat else .error "not a count"
  | _ => .error "not a count"

/-- A member used as a list. -/
def items : JsValue → Except String (List JsValue)
  | array xs => .ok xs
  | _ => .error "not iterable"

/-- A member whose own members are enumerated. -/
def members : JsValue → Except String Members
  | object ms => .ok ms
  | _ => .error "not an object"

/-- A member that may be null or missing. -/
def orNull {α : Type} (f : JsValue → Except String α) (v : JsValue) : Except String (Option α) :=
  if v.nullish then .ok none else (f v).map some

end JsValue

/-- A signature block. -/
def readSignature (v : JsValue) : Except String SignatureBlock := do
  let alg ← v.read "alg" >>= JsValue.text
  let keyId ← v.read "key_id" >>= JsValue.text
  let mlDsa ← v.read "ml_dsa" >>= JsValue.text
  let ed25519 ← v.read "ed25519" >>= JsValue.text
  return { alg := alg, keyId := keyId, mlDsa := mlDsa, ed25519 := ed25519 }

/-- The five registers of a measurement. -/
def readMeasurement (v : JsValue) : Except String Measurement := do
  let mrtd ← v.read "mrtd" >>= JsValue.text
  let rtmr0 ← v.read "rtmr0" >>= JsValue.text
  let rtmr1 ← v.read "rtmr1" >>= JsValue.text
  let rtmr2 ← v.read "rtmr2" >>= JsValue.text
  let rtmr3 ← v.read "rtmr3" >>= JsValue.text
  return { mrtd := mrtd, rtmr0 := rtmr0, rtmr1 := rtmr1, rtmr2 := rtmr2, rtmr3 := rtmr3 }

/-- What the verifier reads of a record. -/
structure RecordFields where
  /-- The members without the detached signature. -/
  core : RecordCoreV2
  isChange : Bool
  /-- The human label of the record. -/
  label : String
  issuedAt : String
  recordId : String
  signature : SignatureBlock
  teeVendor : String
  mode : String
  enclaveMeasurement : Option Measurement
  teeQuote : Option Multihash

/-- `recordSubjectLabel(core)`. -/
def readLabel (record : JsValue) : Except String String := do
  let schema ← record.read "schema"
  if schema.strictEquals (.str "cool.evidence.v1") then
    let event ← record.read "event"
    let type ← event.read "type" >>= JsValue.text
    let applicationId ← event.read "application_id" >>= JsValue.text
    return type ++ " (" ++ applicationId ++ ")"
  else
    let change ← record.read "change"
    let kind ← change.read "kind" >>= JsValue.text
    let ref ← change.read "ref" >>= JsValue.text
    return kind ++ ": " ++ ref

/-- Strip the detached signature, leaving the hashed core. -/
def coreOfV2 (record : Members) : RecordCoreV2 := Entries.erase record "signature"

def readRecord (record : JsValue) : Except String RecordFields := do
  let members ← record.members
  let schema ← record.read "schema"
  let label ← readLabel record
  let time ← record.read "time"
  let issuedAt ← time.read "issued_at" >>= JsValue.text
  let recordId ← record.read "record_id" >>= JsValue.text
  let signature ← record.read "signature" >>= readSignature
  let runtime ← record.read "runtime"
  let teeVendor ← runtime.read "tee_vendor" >>= JsValue.text
  let mode ← runtime.read "mode" >>= JsValue.text
  let enclaveMeasurement ← runtime.read "enclave_measurement" >>= JsValue.orNull readMeasurement
  let teeQuote ← runtime.read "tee_quote" >>= JsValue.orNull JsValue.text
  return {
    core := coreOfV2 members
    isChange := schema.strictEquals (.str "cool.change.v2")
    label, issuedAt, recordId, signature, teeVendor, mode, enclaveMeasurement, teeQuote }

def readInclusion (v : JsValue) : Except String Inclusion := do
  let leafIndex ← v.read "leaf_index" >>= JsValue.natural
  let treeSize ← v.read "tree_size" >>= JsValue.natural
  let hashes ← v.read "audit_path" >>= JsValue.items
  let auditPath ← hashes.mapM JsValue.text
  return { leafIndex, treeSize, auditPath }

/-- What the verifier reads of a tree head. -/
structure HeadFields where
  core : STHCore
  signature : SignatureBlock
  witnesses : List JsValue

def readHead (v : JsValue) : Except String HeadFields := do
  let logId ← v.read "log_id" >>= JsValue.text
  let treeSize ← v.read "tree_size" >>= JsValue.natural
  let rootHash ← v.read "root_hash" >>= JsValue.text
  let timestamp ← v.read "timestamp" >>= JsValue.text
  let signature ← v.read "signature" >>= readSignature
  let witnesses ← v.read "witnesses" >>= JsValue.items
  return { core := { logId, treeSize, rootHash, timestamp }, signature, witnesses }

/-- What the verifier reads of a quote. -/
structure QuoteFields where
  value : JsValue
  root : String
  body : JsValue
  /-- Every member of the measurement, in order. -/
  registers : Members
  measurement : Measurement
  reportData : Multihash
  signature : Option SignatureBlock
  raw : Option String

def readQuote (v : JsValue) : Except String QuoteFields := do
  let root ← v.read "root" >>= JsValue.text
  let body ← v.read "body"
  let registers ← body.read "measurement" >>= JsValue.members
  let measurement ← readMeasurement (.object registers)
  let reportData ← body.read "report_data" >>= JsValue.text
  let signature ← v.read "signature" >>= JsValue.orNull readSignature
  let raw ← v.read "raw" >>= JsValue.orNull JsValue.text
  return { value := v, root, body, registers, measurement, reportData, signature, raw }

/-- What the verifier reads of an anchor. -/
structure AnchorFields where
  target : Multihash
  treeSize : Nat
  proof : String

def readAnchor (v : JsValue) : Except String AnchorFields := do
  let target ← v.read "target" >>= JsValue.text
  let treeSize ← v.read "tree_size" >>= JsValue.natural
  let proof ← v.read "proof" >>= JsValue.text
  return { target, treeSize, proof }

def readEntry (v : JsValue) : Except String DirectoryEntry := do
  let mlDsaPub ← v.read "ml_dsa_pub" >>= JsValue.text
  let ed25519Pub ← v.read "ed25519_pub" >>= JsValue.text
  return { mlDsaPub, ed25519Pub }

/-- The entries of the key directory. -/
def readDirectory (v : JsValue) : Except String (List (String × DirectoryEntry)) := do
  let members ← v.members
  members.mapM fun e => do
    let entry ← readEntry e.2
    return (e.1, entry)

/-- What the verifier reads of a receipt. -/
structure ReceiptFields where
  record : RecordFields
  bindingHash : Multihash
  inclusion : Option Inclusion
  sth : Option HeadFields
  expectedMeasurement : Option Measurement
  quote : Option QuoteFields
  anchor : Option AnchorFields
  directory : List (String × DirectoryEntry)

def readReceipt (v : JsValue) : Except String ReceiptFields := do
  let record ← v.read "record" >>= readRecord
  let bindingHash ← v.read "binding_hash" >>= JsValue.text
  let inclusion ← v.read "inclusion" >>= JsValue.orNull readInclusion
  let sth ← v.read "sth" >>= JsValue.orNull readHead
  let attestation ← v.read "attestation"
  let expectedMeasurement ←
    attestation.read "expected_measurement" >>= JsValue.orNull readMeasurement
  let quote ← attestation.read "quote" >>= JsValue.orNull readQuote
  let anchor ← v.read "anchor" >>= JsValue.orNull readAnchor
  let directory ← v.read "key_directory" >>= readDirectory
  return {
    record, bindingHash, inclusion, sth, expectedMeasurement, quote, anchor, directory }

/-! ## Verdicts -/

/-- The status of a domain. -/
inductive DomainStatusV2
  | pass
  | fail
  | absent
  | mock
  | simulated
  | pending
  deriving DecidableEq, Repr

structure VerdictChecksV2 where
  binding : DomainStatusV2
  signature : DomainStatusV2
  inclusion : DomainStatusV2
  witnesses : DomainStatusV2
  attestation : DomainStatusV2
  enclave : DomainStatusV2
  anchor : DomainStatusV2
  deriving DecidableEq, Repr

structure VerdictSubjectV2 where
  isChange : Bool
  subject : String
  issuedAt : String
  recordId : String
  keyId : String
  tee : String
  deriving DecidableEq, Repr

structure VerdictV2 where
  ok : Bool
  subject : Option VerdictSubjectV2
  checks : VerdictChecksV2
  deriving DecidableEq, Repr

/-- What a root-of-trust checker says of a quote. -/
structure QuoteVerification where
  ok : Bool
  root : String

structure VerifyArgsV2 where
  witnessThreshold : Option JsNumber := none
  expectedMeasurement : Option Measurement := none
  requireHardware : Bool := false
  quoteVerifier : Option (JsValue → QuoteVerification) := none
  blockHeaders : Option (Nat → Option String) := none

/-- The text of a status. -/
def DomainStatusV2.text : DomainStatusV2 → String
  | pass => "pass"
  | fail => "fail"
  | absent => "absent"
  | mock => "mock"
  | simulated => "simulated"
  | pending => "pending"

/-! ## The domains -/

/-- `directory[keyId]`. -/
def carriedKey (directory : List (String × DirectoryEntry)) (keyId : String) : CarriedKey :=
  match Entries.get directory keyId with
  | some entry => .entry entry
  | none => if isInherited keyId then .inherited else .absent

section

variable (H : Host) (A : Anchor.AnchorHost)

/-- What the record's key and signature are checked over. -/
def verifySignatureDomain (r : ReceiptFields) : Except String DomainStatusV2 :=
  match carriedKey r.directory r.record.signature.keyId with
  | .absent => .ok .fail
  | key => do
    let message ← recordSigningMessageV2 H r.record.core r.bindingHash
    return if key.verifies H message r.record.signature then .pass else .fail

/-- Whether the audit path leads to the root; anything malformed throws. -/
def reconstructsRoot (bindingHash : Multihash) (inc : Inclusion) (head : STHCore) :
    Except String Bool := do
  let leafData ← recordLeafDataV2 bindingHash
  let auditPath ← inc.auditPath.mapM multihashDigest
  let root ← multihashDigest head.rootHash
  return verifyInclusion H (leafHash H leafData) inc.leafIndex head.treeSize auditPath root

def verifyInclusionDomain (r : ReceiptFields) : Except String DomainStatusV2 :=
  match r.inclusion, r.sth with
  | some inc, some sth =>
    if inc.treeSize ≠ sth.core.treeSize then .ok .fail
    else if sth.core.treeSize ≤ inc.leafIndex then .ok .fail
    else
      match reconstructsRoot H r.bindingHash inc sth.core with
      | .error _ | .ok false => .ok .fail
      | .ok true =>
        match carriedKey r.directory sth.signature.keyId with
        | .absent => .ok .fail
        | key => do
          let message ← sthSigningMessage H sth.core
          return if key.verifies H message sth.signature then .pass else .fail
  | _, _ => .ok .absent

/-- The signature of a listed co-signature, if both halves are texts; verifying it does not look
at its algorithm or its key id. -/
def witnessSignature (keyId : String) (w : JsValue) : Except String (Option SignatureBlock) := do
  let mlDsa ← w.read "ml_dsa"
  let ed25519 ← w.read "ed25519"
  return match mlDsa, ed25519 with
    | .str mlDsa, .str ed25519 => some { alg := "ml-dsa-65+ed25519", keyId, mlDsa, ed25519 }
    | _, _ => none

/-- The key and the signature of a listed co-signature that claims to be external. -/
def externalWitness (directory : List (String × DirectoryEntry)) (w : JsValue) :
    Except String (Option (String × CarriedKey × Option SignatureBlock)) := do
  let external ← w.read "external"
  if !external.truthy then return none
  let id ← w.read "id"
  let keyId ← id.toText H
  let signature ← witnessSignature keyId w
  return some (keyId, carriedKey directory keyId, signature)

/-- Whether a listed co-signature counts. -/
def witnessCounts (message : Bytes) (directory : List (String × DirectoryEntry)) (w : JsValue) :
    Except String Bool := do
  let witness ← externalWitness H directory w
  return match witness with
    | some (_, key, some signature) => key.verifies H message signature
    | _ => false

/-- How many of the listed co-signatures count. -/
def countExternal (sth : HeadFields) (directory : List (String × DirectoryEntry)) :
    Except String Nat := do
  let message ← sthSigningMessage H sth.core
  let votes ← sth.witnesses.mapM (witnessCounts H message directory)
  return votes.count true

def verifyWitnessesDomain (r : ReceiptFields) (threshold : JsNumber) :
    Except String DomainStatusV2 :=
  match r.sth with
  | none => .ok .absent
  | some sth => do
    let external ← countExternal H sth r.directory
    return if (threshold.max (.ofInt 1)).le (.ofInt external) then .pass else .absent

/-- `/^hex:[0-9a-f]{96}$|^hex:[0-9a-f]{64}$/`. -/
def isRegister (value : String) : Bool :=
  (stripPrefix? "hex:" value).any fun hex =>
    (decide (hex.length = 96) || decide (hex.length = 64)) && hex.all isHexChar

/-- Whether every register of a measurement is well formed, up to the first that is not. -/
def registersOk : Members → Except String Bool
  | [] => .ok true
  | (_, value) :: registers => do
    let text ← value.toText H
    if isRegister text then registersOk registers else return false

/-- Whether a quote's shape is sound, before any root is consulted. -/
def checkQuoteStructure (quote : QuoteFields) : Except String Bool := do
  let wellFormed ← registersOk H quote.registers
  return wellFormed && isMultihash quote.reportData &&
    decide (quote.root = "cool-sim-root" ↔ quote.raw = none)

/-- The built-in checker of quotes under the simulator's root. -/
def simulatedQuoteVerifier (directory : List (String × DirectoryEntry)) (quote : QuoteFields) :
    Except String QuoteVerification :=
  match quote.signature with
  | none => .ok { ok := false, root := "cool-sim-root" }
  | some signature =>
    match carriedKey directory signature.keyId with
    | .absent => .ok { ok := false, root := "cool-sim-root" }
    | key => do
      let message ← H.canonicalCbor quote.body
      return { ok := key.verifies H message signature, root := "cool-sim-root" }

/-- What the configured checker says of a quote, or the built-in one of a simulated quote. -/
def chainToRoot (r : ReceiptFields) (options : VerifyArgsV2) (quote : QuoteFields) :
    Except String (Option QuoteVerification) :=
  match options.quoteVerifier with
  | some verify => .ok (some (verify quote.value))
  | none =>
    if quote.root = "cool-sim-root" then (simulatedQuoteVerifier H r.directory quote).map some
    else .ok none

/-- The status that a checker's word gives the attestation domain. -/
def attestationStatus (quote : QuoteFields) : Option QuoteVerification → DomainStatusV2
  | none => .absent
  | some verification =>
    if !verification.ok then .fail
    else if quote.root = "cool-sim-root" ∨ verification.root = "cool-sim-root" then .simulated
    else .pass

def verifyAttestationDomain (r : ReceiptFields) (options : VerifyArgsV2) :
    Except String DomainStatusV2 :=
  match r.quote with
  | none => .ok .mock
  | some quote => do
    let sound ← checkQuoteStructure H quote
    if !sound then return .fail
    let verification ← chainToRoot H r options quote
    return attestationStatus quote verification

/-- The commitment to a signing key that a quote's report data must be. Reading the keys of an
inherited member gives `undefined`. -/
def enclaveReportData (mlDsaPub ed25519Pub : JsValue) : Except String Multihash := do
  let bytes ← H.canonicalCbor (.object [("ed25519_pub", ed25519Pub), ("ml_dsa_pub", mlDsaPub)])
  return mhSha256 H (utf8 "cool/report-data/v2" ++ bytes)

/-- The commitment to what the directory reads under a key id, if it reads anything. -/
def CarriedKey.reportData : CarriedKey → Except String (Option Multihash)
  | .absent => .ok none
  | .inherited => (enclaveReportData H .undefined .undefined).map some
  | .entry e => (enclaveReportData H (.str e.mlDsaPub) (.str e.ed25519Pub)).map some

/-- The commitment to a whole quote. -/
def quoteDigest (quote : JsValue) : Except String Multihash := do
  let bytes ← H.canonicalCbor quote
  return mhSha256 H bytes

/-- The measurement the reader pinned, or else the one the receipt says was expected. -/
def pinnedMeasurement (r : ReceiptFields) (options : VerifyArgsV2) : Option Measurement :=
  options.expectedMeasurement.or r.expectedMeasurement

def verifyEnclaveDomain (r : ReceiptFields) (options : VerifyArgsV2)
    (attestation : DomainStatusV2) : Except String DomainStatusV2 :=
  match r.quote, r.record.teeQuote with
  | some quote, some teeQuote => do
    -- the quote is inside the signature
    let digest ← quoteDigest H quote.value
    if digest ≠ teeQuote then return .fail
    -- the record's measurement is the quote's
    if r.record.enclaveMeasurement ≠ some quote.measurement then return .fail
    -- the quote commits to the key that signed the record
    let expected ← (carriedKey r.directory r.record.signature.keyId).reportData H
    if expected ≠ some quote.reportData then return .fail
    -- the measurement is the pinned one, if one is pinned
    if (pinnedMeasurement r options).any fun pin => pin ≠ quote.measurement then return .fail
    if options.requireHardware && decide (attestation ≠ .pass) then return .fail
    return if attestation = .simulated then .simulated else .pass
  | _, _ => .ok .absent

/-- The proof of an anchor, if it can be read and is about the anchored root. -/
def anchorProof (anchor : AnchorFields) : Except String (Bytes × Anchor.Timestamp) := do
  let digest ← multihashDigest anchor.target
  let bytes ← H.atob (utf8 anchor.proof)
  let parsed ← Anchor.parseProof H A bytes
  if toHex parsed.1 ≠ toHex digest then throw "the proof file is about a different digest"
  return (digest, parsed.2)

def verifyAnchorDomain (r : ReceiptFields) (options : VerifyArgsV2) : DomainStatusV2 :=
  match r.anchor with
  | none => .absent
  | some anchor =>
    match r.sth with
    | none => .fail
    | some sth =>
      if anchor.target ≠ sth.core.rootHash then .fail
      else if anchor.treeSize ≠ sth.core.treeSize then .fail
      else
        match anchorProof H A anchor with
        | .error _ => .fail
        | .ok (digest, timestamp) =>
          match Anchor.verifyAnchor digest timestamp options.blockHeaders with
          | .confirmed => .pass
          | .fail => .fail
          | .pending | .submitted => .pending

/-! ## The verdict -/

/-- The verdict on a malformed receipt. -/
def malformedVerdict : VerdictV2 where
  ok := false
  subject := none
  checks :=
    { binding := .fail
      signature := .fail
      inclusion := .absent
      witnesses := .absent
      attestation := .absent
      enclave := .absent
      anchor := .absent }

/-- The verdict, given the status of every domain. -/
def verdictOf (r : ReceiptFields) (options : VerifyArgsV2) (checks : VerdictChecksV2) :
    VerdictV2 :=
  let threshold := options.witnessThreshold.getD (.ofInt 0)
  let ok := decide (checks.binding = .pass) && decide (checks.signature = .pass) &&
    (decide (checks.inclusion = .pass) || decide (checks.inclusion = .absent)) &&
    decide (checks.enclave ≠ .fail) && decide (checks.attestation ≠ .fail)
  let hardware := !options.requireHardware || decide (checks.attestation = .pass)
  let witnessed := !(JsNumber.ofInt 0).lt threshold || decide (checks.witnesses = .pass)
  -- only a verified quote earns the word "hardware"
  let tee :=
    if r.record.mode = "hardware" ∧ checks.attestation ≠ .pass then
      r.record.teeVendor ++ " · hardware quote NOT verified (attestation " ++
        checks.attestation.text ++ ")"
    else r.record.teeVendor ++ " · " ++ r.record.mode
  { ok := ok && hardware && witnessed
    subject := some
      { isChange := r.record.isChange
        subject := r.record.label
        issuedAt := r.record.issuedAt
        recordId := r.record.recordId
        keyId := r.record.signature.keyId
        tee := tee }
    checks := checks }

/-- Verify what was read of a receipt. -/
def verifyFields (r : ReceiptFields) (options : VerifyArgsV2) : Except String VerdictV2 := do
  let recomputed ← bindingHashV2 H r.record.core
  let signature ← verifySignatureDomain H r
  let inclusion ← verifyInclusionDomain H r
  let witnesses ← verifyWitnessesDomain H r (options.witnessThreshold.getD (.ofInt 0))
  let attestation ← verifyAttestationDomain H r options
  let enclave ← verifyEnclaveDomain H r options attestation
  return verdictOf r options
    { binding := if recomputed = r.bindingHash then .pass else .fail
      signature := signature
      inclusion := inclusion
      witnesses := witnesses
      attestation := attestation
      enclave := enclave
      anchor := verifyAnchorDomain H A r options }

/-- Verify a receipt. -/
def verifyReceiptV2 (receipt : JsValue) (options : VerifyArgsV2) : Except String VerdictV2 :=
  if validateReceiptV2Shape receipt ≠ [] then .ok malformedVerdict
  else do
    let r ← readReceipt receipt
    verifyFields H A r options

end

end CoolSdk
