import CoolSdk.Phala.Diff
import CoolSdk.Phala.Dstack
import CoolSdk.Phala.Ulid

/-!
# The evidence plane

What runs inside the enclave: it boots from the simulated client, commits to what crosses the
attested channel, and seals each event into a complete receipt. What its generators and its
clock give while an event is sealed is an argument.
-/

namespace CoolSdk

open JsValue (Members)
open Governance (ChangeActor ChangeApproval ChangeKind PolicyInput PolicySet)

/-! ## Events -/

/-- A payload that is committed to and discarded. -/
inductive Payload
  | text (value : String)
  | bytes (value : Bytes)

/-- What is hashed of a payload. -/
def Payload.data : Payload → Bytes
  | text value => utf8 value
  | bytes value => value

structure SoftwareIdentity where
  name : String
  version : String
  digest : Option Multihash
  deriving DecidableEq, Repr

instance : ToJs SoftwareIdentity where
  toJs s := .object [("name", .str s.name), ("version", .str s.version),
    ("digest", nullable .str s.digest)]

/-- What the attestation service said of a GPU. -/
inductive GpuVerdict
  | verified
  | unverified
  | simulated
  deriving DecidableEq, Repr

def GpuVerdict.text : GpuVerdict → String
  | verified => "verified"
  | unverified => "unverified"
  | simulated => "simulated"

/-- A confidential-GPU attestation of a workload. -/
structure GpuAttestationRef where
  gpuModel : String
  evidenceHash : Multihash
  verdict : GpuVerdict
  deriving DecidableEq, Repr

instance : ToJs GpuAttestationRef where
  toJs g := .object [("vendor", .str "nvidia-cc"), ("gpu_model", .str g.gpuModel),
    ("evidence_hash", .str g.evidenceHash), ("verdict", .str g.verdict.text)]

/-- Execution evidence of an application. -/
structure EvidenceEvent where
  type : String
  applicationId : String
  executionId : String
  metadata : JsValue := .undefined
  input : Option Payload := none
  output : Option Payload := none
  state : Option Payload := none
  software : Option SoftwareIdentity := none
  gpu : Option GpuAttestationRef := none

/-- A change someone made to the system itself. -/
structure ChangeEvent where
  changeKind : ChangeKind
  ref : String
  environment : String
  before : Option String := none
  after : String
  actor : ChangeActor
  approval : Option ChangeApproval := none
  approvers : Option (List String) := none
  risk : Option JsNumber := none
  labels : Option (List String) := none

inductive CaptureEvent
  | evidence (event : EvidenceEvent)
  | change (event : ChangeEvent)

/-! ## Record cores -/

structure RecordTime where
  issuedAt : String
  seq : JsNumber

instance : ToJs RecordTime where
  toJs t := .object [("issued_at", .str t.issuedAt), ("seq", .num t.seq)]

/-- Where a record was produced. -/
structure RuntimeBlockV2 where
  teeVendor : TeeVendor
  mode : RuntimeMode
  enclaveMeasurement : Option Measurement
  teeQuote : Option Multihash
  gpu : Option GpuAttestationRef

/-- The object a runtime block is encoded from. -/
def RuntimeBlockV2.members (r : RuntimeBlockV2) : Members :=
  [("tee_vendor", .str r.teeVendor.text), ("mode", .str r.mode.text),
    ("enclave_measurement", nullable toJs r.enclaveMeasurement),
    ("tee_quote", nullable .str r.teeQuote), ("gpu", nullable toJs r.gpu)]

instance : ToJs RuntimeBlockV2 where
  toJs r := .object r.members

/-- A commitment and its salt, together or not at all. -/
abbrev SaltedCommitment := Option (Multihash × String)

structure EvidenceSubject where
  type : String
  applicationId : String
  executionId : String
  metadataHash : Multihash
  metadataSalt : String
  input : SaltedCommitment
  output : SaltedCommitment
  state : SaltedCommitment
  software : Option SoftwareIdentity

/-- The two members of a commitment. -/
def commitmentMembers (field : String) (c : SaltedCommitment) : Members :=
  [(field, nullable .str (c.map Prod.fst)), (field ++ "_salt", nullable .str (c.map Prod.snd))]

/-- The object a subject is encoded from. -/
def EvidenceSubject.members (e : EvidenceSubject) : Members :=
  [("type", .str e.type), ("application_id", .str e.applicationId),
    ("execution_id", .str e.executionId), ("metadata_hash", .str e.metadataHash),
    ("metadata_salt", .str e.metadataSalt),
    ("commitments", .object (commitmentMembers "input" e.input ++
      commitmentMembers "output" e.output ++ commitmentMembers "state" e.state)),
    ("software", nullable toJs e.software)]

instance : ToJs EvidenceSubject where
  toJs e := .object e.members

structure ChangeSubject where
  kind : ChangeKind
  ref : String
  environment : String
  before : SaltedCommitment
  afterHash : Multihash
  afterSalt : String
  diffHash : Multihash
  actor : ChangeActor
  approval : Option ChangeApproval

/-- The object a change is encoded from. -/
def ChangeSubject.members (c : ChangeSubject) : Members :=
  [("kind", .str c.kind.text), ("ref", .str c.ref),
    ("environment", .str c.environment), ("before_hash", nullable .str (c.before.map Prod.fst)),
    ("before_salt", nullable .str (c.before.map Prod.snd)), ("after_hash", .str c.afterHash),
    ("after_salt", .str c.afterSalt), ("diff_hash", .str c.diffHash), ("actor", toJs c.actor),
    ("approval", nullable toJs c.approval)]

instance : ToJs ChangeSubject where
  toJs c := .object c.members

/-- What a core is about. -/
inductive CoreSubject
  | evidence (event : EvidenceSubject)
  | change (change : ChangeSubject)

/-- A record core of either kind. -/
structure TypedCore where
  recordId : String
  time : RecordTime
  subject : CoreSubject
  runtime : RuntimeBlockV2

/-- The object a core is encoded from. -/
def TypedCore.members (core : TypedCore) : RecordCoreV2 :=
  match core.subject with
  | .evidence event =>
    [("schema", .str "cool.evidence.v1"), ("record_id", .str core.recordId),
      ("time", toJs core.time), ("event", toJs event), ("runtime", toJs core.runtime)]
  | .change change =>
    [("schema", .str "cool.change.v2"), ("record_id", .str core.recordId),
      ("time", toJs core.time), ("change", toJs change), ("runtime", toJs core.runtime)]

/-! ## The plane -/

structure AttestationV2 where
  mode : RuntimeMode
  note : String
  quote : Option QuoteEnvelope
  expectedMeasurement : Option Measurement
  keyBinding : Option Multihash

/-- The object a attestation is encoded from. -/
def AttestationV2.members (a : AttestationV2) : Members :=
  [("mode", .str a.mode.text), ("note", .str a.note),
    ("quote", nullable toJs a.quote),
    ("expected_measurement", nullable toJs a.expectedMeasurement),
    ("key_binding", nullable .str a.keyBinding)]

instance : ToJs AttestationV2 where
  toJs a := .object a.members

/-- The plane's own options; its generators and its clock are read while sealing. -/
structure EvidencePlaneOptions where
  logId : Option String := none
  expectedMeasurement : Option Measurement := none
  policy : Option PolicySet := none

/-- A booted plane. -/
structure EvidencePlane where
  info : EnclaveInfo
  quote : QuoteEnvelope
  keys : SealedKeyset
  attestation : AttestationV2
  /-- The log id of the log it keeps when it is not given one. -/
  logId : String
  policy : Option PolicySet
  directory : List (String × DirectoryEntry)
  runtime : RuntimeBlockV2

/-- What the clock and the generators give while one event is sealed. -/
structure Draws where
  issuedAt : String
  seq : JsNumber
  /-- The salts in the order they are drawn. -/
  salt : Nat → String
  recordId : Except String String
  headClock : String

section

variable (H : Host) (K : KeyHost)

/-- What an attestation says of where it comes from. -/
def attestationNote (info : EnclaveInfo) : String :=
  if info.mode = .hardware then
    info.vendor.text ++ " quote via dstack; keys sealed to the enclave measurement"
  else "SIMULATED — structurally complete quote under a CooL-held root, NOT hardware evidence"

/-- Boot the plane: read the machine, derive the sealed keys and take one quote over them, at a
reading of the client's clock. -/
def EvidencePlane.start (client : SimulatedDstackClient) (options : EvidencePlaneOptions)
    (quoteClock : String) : Except String EvidencePlane := do
  let info := client.info K
  let keys ← sealedKeyset H K client
  let entry := keys.record.directoryEntry
  let reportData ← enclaveReportData H (.str entry.mlDsaPub) (.str entry.ed25519Pub)
  let quote ← client.getQuote H K quoteClock reportData
  let digest ← quoteDigest H (toJs quote)
  return {
    info := info
    quote := quote
    keys := keys
    attestation :=
      { mode := info.mode
        note := attestationNote info
        quote := some quote
        expectedMeasurement := options.expectedMeasurement
        keyBinding := some reportData }
    logId := options.logId.getD "cool-nwc"
    policy := options.policy
    directory := client.directory.foldl (fun directory e => Entries.set directory e.1 e.2)
      (mergeDirectories [keys.record, keys.log])
    runtime :=
      { teeVendor := info.vendor
        mode := info.mode
        enclaveMeasurement := some info.measurement
        teeQuote := some digest
        gpu := none } }

/-- A commitment: the digest of a salt and the data behind it. -/
def saltedCommit (salt : String) (data : Bytes) : Except String Multihash := do
  let saltBytes ← fromHexField salt
  return mhSha256 H (saltBytes ++ data)

/-- Commit to a payload, if there is one, under the next salt; how many salts were drawn. -/
def commitPayload (salt : Nat → String) (drawn : Nat) :
    Option Payload → Except String (SaltedCommitment × Nat)
  | none => .ok (none, drawn)
  | some payload => do
    let hash ← saltedCommit H (salt drawn) payload.data
    return (some (hash, salt drawn), drawn + 1)

def EvidencePlane.evidenceCore (plane : EvidencePlane) (event : EvidenceEvent) (draws : Draws) :
    Except String TypedCore := do
  let metadataSalt := draws.salt 0
  let (input, drawn) ← commitPayload H draws.salt 1 event.input
  let (output, drawn) ← commitPayload H draws.salt drawn event.output
  let (state, _) ← commitPayload H draws.salt drawn event.state
  let metadata ← H.canonicalCbor (if event.metadata.nullish then .object [] else event.metadata)
  let metadataHash ← saltedCommit H metadataSalt metadata
  let recordId ← draws.recordId
  return {
    recordId := recordId
    time := { issuedAt := draws.issuedAt, seq := draws.seq }
    subject := .evidence
      { type := event.type
        applicationId := event.applicationId
        executionId := event.executionId
        metadataHash := metadataHash
        metadataSalt := metadataSalt
        input := input
        output := output
        state := state
        software := event.software }
    runtime :=
      match event.gpu with
      | some gpu => { plane.runtime with gpu := some gpu }
      | none => plane.runtime }

/-- The approval the caller brings, else the policy's verdict, if there is a policy. -/
def EvidencePlane.decide_ (plane : EvidencePlane) (event : ChangeEvent) :
    Except String (Option ChangeApproval) :=
  match event.approval, plane.policy with
  | some approval, _ => .ok (some approval)
  | none, none => .ok none
  | none, some policy => do
    let approvers := event.approvers.getD []
    let input : PolicyInput :=
      { kind := event.changeKind
        ref := event.ref
        environment := event.environment
        actor := event.actor
        approvers := approvers
        risk := event.risk
        labels := event.labels }
    let outcome ← Governance.evaluate H policy input
    return some (Governance.approvalFrom outcome approvers)

def EvidencePlane.changeCore (plane : EvidencePlane) (event : ChangeEvent) (draws : Draws) :
    Except String TypedCore := do
  let beforeSalt := draws.salt 0
  let afterSalt := draws.salt 1
  let diff := unifiedDiff (event.before.getD "") event.after
  let recordId ← draws.recordId
  let before ← (match event.before with
    | none => .ok none
    | some before => do
      let hash ← saltedCommit H beforeSalt (utf8 before)
      return some (hash, beforeSalt) : Except String SaltedCommitment)
  let afterHash ← saltedCommit H afterSalt (utf8 event.after)
  let approval ← plane.decide_ H event
  return {
    recordId := recordId
    time := { issuedAt := draws.issuedAt, seq := draws.seq }
    subject := .change
      { kind := event.changeKind
        ref := event.ref
        environment := event.environment
        before := before
        afterHash := afterHash
        afterSalt := afterSalt
        diffHash := mhSha256 H (utf8 diff)
        actor := event.actor
        approval := approval }
    runtime := plane.runtime }

/-- The core of an event. -/
def EvidencePlane.coreOf (plane : EvidencePlane) (event : CaptureEvent) (draws : Draws) :
    Except String TypedCore :=
  match event with
  | .evidence event => plane.evidenceCore H event draws
  | .change event => plane.changeCore H event draws

end

/-! ## Receipts -/

instance : ToJs Witness where
  toJs w := .object [("id", .str w.id), ("external", .bool w.external), ("alg", .str w.alg),
    ("ml_dsa", .str w.mlDsa), ("ed25519", .str w.ed25519)]

/-- The object a tree head is encoded from. -/
def STH.members (s : STH) : Members :=
  [("log_id", .str s.logId), ("tree_size", .num (.ofInt s.treeSize)),
    ("root_hash", .str s.rootHash), ("timestamp", .str s.timestamp),
    ("signature", toJs s.signature), ("witnesses", .array (s.witnesses.map toJs))]

instance : ToJs STH where
  toJs s := .object s.members

/-- The object a proof is encoded from. -/
def Inclusion.members (i : Inclusion) : Members :=
  [("leaf_index", .num (.ofInt i.leafIndex)),
    ("tree_size", .num (.ofInt i.treeSize)), ("audit_path", .array (i.auditPath.map .str))]

instance : ToJs Inclusion where
  toJs i := .object i.members

/-- A key directory as an object. -/
def directoryMembers (directory : List (String × DirectoryEntry)) : Members :=
  directory.map fun e => (e.1, toJs e.2)

/-- The receipt of a sealed record. -/
def EvidencePlane.receipt (plane : EvidencePlane) (r : ReceiptV2) : JsValue :=
  .object [("schema", .str "cool.receipt.v2"),
    ("record", .object (Entries.set r.record.core "signature" (toJs r.record.signature))),
    ("binding_hash", .str r.bindingHash), ("inclusion", toJs r.inclusion), ("sth", toJs r.sth),
    ("attestation", toJs plane.attestation), ("anchor", .null),
    ("key_directory", .object (directoryMembers plane.directory))]

section

variable (H : Host) {σ ι : Type}

/-- Seal one captured event into a receipt. -/
def EvidencePlane.sealEvent (L : EvidenceLog σ ι) (plane : EvidencePlane) (event : CaptureEvent)
    (draws : Draws) (leafIo headIo : ι) (s : σ) : Except String JsValue × σ :=
  match plane.coreOf H event draws with
  | .error e => (.error e, s)
  | .ok core =>
    let (result, s) := EvidencePlane.seal H L plane.keys.record core.members draws.headClock
      leafIo headIo s
    (result.map plane.receipt, s)

/-- One call of `seal`, with what its surroundings decide. -/
structure SealCall (ι : Type) where
  event : CaptureEvent
  draws : Draws
  leafIo : ι
  headIo : ι

/-- A run of calls: what each returned, and the log they leave. -/
def EvidencePlane.run (L : EvidenceLog σ ι) (plane : EvidencePlane) :
    List (SealCall ι) → σ → List (Except String JsValue) × σ
  | [], s => ([], s)
  | call :: calls, s =>
    let (result, s) := plane.sealEvent H L call.event call.draws call.leafIo call.headIo s
    let (results, s) := plane.run L calls s
    (result :: results, s)

end

end CoolSdk
