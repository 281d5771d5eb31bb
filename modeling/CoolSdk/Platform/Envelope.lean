import CoolSdk.Phala.Log
import CoolSdk.Platform.Payloads
import CoolSdk.Platform.Trust

/-!
# The evidence envelope

An envelope carries a core, the canonical bytes that were committed, hybrid signatures over
their digest and, optionally, a transparency checkpoint and an attestation document. The
public keys it brings along are its own statement: which keys are trusted is not in it.
-/

namespace CoolSdk

/-! ## Algorithms -/

/-- What an algorithm may be used for. -/
inductive AlgorithmPurpose
  | signature
  | digest
  | canonicalization
  | commitment
  | transparency
  deriving DecidableEq, Repr

/-- The status of an algorithm. -/
inductive AlgorithmStatus
  | active
  | deprecated
  | retired
  deriving DecidableEq, Repr

/-- An entry of the algorithm registry. -/
structure AlgorithmEntry where
  id : String
  purpose : AlgorithmPurpose
  status : AlgorithmStatus
  deriving DecidableEq, Repr

/-- Every algorithm identifier written into evidence. -/
def ALGORITHMS : List AlgorithmEntry :=
  [⟨"ml-dsa-65+ed25519", .signature, .active⟩, ⟨"sha-256", .digest, .active⟩,
    ⟨"cbor-cde", .canonicalization, .active⟩, ⟨"salted-sha-256", .commitment, .active⟩,
    ⟨"hmac-sha-256", .commitment, .active⟩, ⟨"rfc6962-sha-256", .transparency, .active⟩]

/-- Look an algorithm up for a purpose. -/
def usableAlgorithm (id : String) (purpose : AlgorithmPurpose) : Option AlgorithmEntry :=
  (ALGORITHMS.find? fun a => decide (a.id = id)).filter fun a =>
    decide (a.purpose = purpose) && decide (a.status ≠ .retired)

/-! ## The envelope -/

/-- What an actor is. -/
inductive ActorType
  | human
  | workload
  | service
  | unknown
  deriving DecidableEq, Repr

/-- The wire text of an actor type. -/
def ActorType.text : ActorType → String
  | human => "human"
  | workload => "workload"
  | service => "service"
  | unknown => "unknown"

/-- How evidence was collected. -/
inductive CollectionMethod
  | emitted
  | observed
  | imported
  | derived
  deriving DecidableEq, Repr

/-- The wire text of a collection method. -/
def CollectionMethod.text : CollectionMethod → String
  | emitted => "emitted"
  | observed => "observed"
  | imported => "imported"
  | derived => "derived"

/-- The system an event comes from. -/
structure EventSource where
  system : String
  instance_ : Option String := none
  eventId : Option String := none
  deriving DecidableEq, Repr

/-- Who acted. -/
structure Actor where
  id : String
  type : ActorType
  issuer : Option String := none
  deriving DecidableEq, Repr

/-- What was acted on. -/
structure EventResource where
  type : String
  ref : String
  deriving DecidableEq, Repr

/-- How the evidence was collected and what it derives from. -/
structure Provenance where
  collectionMethod : CollectionMethod
  refs : List Multihash
  deriving DecidableEq, Repr

/-- A typed reference to other evidence. -/
structure Relation where
  type : String
  ref : Multihash
  deriving DecidableEq, Repr

/-- The policy decision an event happened under. -/
structure PolicyCitation where
  policyId : String
  policyVersion : String
  decision : String
  decisionRef : Multihash
  deriving DecidableEq, Repr

/-- A position in a source's own numbering. -/
structure Sequence where
  epoch : JsNumber
  number : JsNumber
  deriving DecidableEq, Repr

/-- The unsigned content of an envelope. -/
structure EnvelopeCore where
  schema : String := "cool.envelope.v1"
  eventId : String
  eventType : String
  payloadSchema : String
  occurredAt : String
  observedAt : String
  source : EventSource
  actor : Actor
  action : String
  resource : EventResource
  provenance : Provenance
  relations : List Relation := []
  policy : Option PolicyCitation := none
  sequence : Option Sequence := none
  attestationRef : Option String := none
  payload : JsValue.Members

instance : ToJs EventSource where
  toJs s := .object ([("system", .str s.system)] ++ member? "instance" (s.instance_.map .str) ++
    member? "event_id" (s.eventId.map .str))

instance : ToJs Actor where
  toJs a := .object ([("id", .str a.id), ("type", .str a.type.text)] ++
    member? "issuer" (a.issuer.map .str))

instance : ToJs EventResource where
  toJs r := .object [("type", .str r.type), ("ref", .str r.ref)]

instance : ToJs Provenance where
  toJs p := .object [("collection_method", .str p.collectionMethod.text),
    ("refs", .array (p.refs.map .str))]

instance : ToJs Relation where
  toJs r := .object [("type", .str r.type), ("ref", .str r.ref)]

instance : ToJs PolicyCitation where
  toJs p := .object [("policy_id", .str p.policyId), ("policy_version", .str p.policyVersion),
    ("decision", .str p.decision), ("decision_ref", .str p.decisionRef)]

instance : ToJs Sequence where
  toJs s := .object [("epoch", .num s.epoch), ("number", .num s.number)]

/-- The members of a core; an optional member that is missing is absent. -/
instance : ToJs EnvelopeCore where
  toJs c := .object ([("schema", .str c.schema), ("event_id", .str c.eventId),
    ("event_type", .str c.eventType), ("payload_schema", .str c.payloadSchema),
    ("occurred_at", .str c.occurredAt), ("observed_at", .str c.observedAt),
    ("source", toJs c.source), ("actor", toJs c.actor), ("action", .str c.action),
    ("resource", toJs c.resource), ("provenance", toJs c.provenance),
    ("relations", .array (c.relations.map toJs))] ++ member? "policy" (c.policy.map toJs) ++
    member? "sequence" (c.sequence.map toJs) ++
    member? "attestation_ref" (c.attestationRef.map .str) ++ [("payload", .object c.payload)])

/-- A place in a transparency log under a signed tree head. -/
structure Checkpoint where
  sth : STH
  leafIndex : Int
  auditPath : List Multihash
  deriving DecidableEq, Repr

/-- An attestation document attached to an envelope, in base64. -/
structure AttachedAttestation where
  platform : String
  document : String
  deriving DecidableEq, Repr

/-- A signed envelope. -/
structure SignedEnvelope where
  format : String := "cool.signed-envelope.v1"
  core : EnvelopeCore
  encoding : String := "cbor-cde"
  /-- Base64 of the exact bytes that were committed. -/
  coreCbor : String
  digestAlg : String := "sha-256"
  digest : Multihash
  signatures : List SignatureBlock
  /-- The public keys the envelope brings along, by key id. -/
  keyDirectory : OrderedMap String DirectoryEntry
  checkpoint : Option Checkpoint := none
  attestation : Option AttachedAttestation := none

/-! ## Signing -/

section

variable (H : Host)

/-- Bytes from base64. -/
def fromBase64 (b64 : String) : Except String Bytes := H.atob (utf8 b64)

/-- The exact bytes that are committed and signed. -/
def canonicalize (core : EnvelopeCore) : Except String Bytes := H.canonicalCbor (toJs core)

/-- The multihash over the domain label and the canonical bytes. -/
def commit (coreCbor : Bytes) : Multihash := mhSha256 H (utf8 "cool.envelope.v1\x00" ++ coreCbor)

/-- The bytes a signature over a digest covers. -/
def signatureMessage (digest : Multihash) : Except String Bytes := do
  let raw ← multihashDigest digest
  .ok (utf8 "cool.envelope.sig.v1\x00" ++ raw)

/-- Anything that produces a hybrid signature. -/
structure EnvelopeSigner where
  keyId : String
  directoryEntry : DirectoryEntry
  sign : Bytes → SignatureBlock

/-- A signer from a key pair held in memory. -/
def localSigner (key : KeyPair) : EnvelopeSigner :=
  { keyId := key.keyId
    directoryEntry := key.directoryEntry
    sign := fun message => H.hybridSign message key }

/-- Whether the raw attestation document is the one the core references. -/
def referenced (core : EnvelopeCore) (document : Bytes) : Prop :=
  core.attestationRef = some (toHex (H.sha256 document))

instance (core : EnvelopeCore) (document : Bytes) : Decidable (referenced H core document) :=
  inferInstanceAs (Decidable (core.attestationRef = some (toHex (H.sha256 document))))

/-- Sign a core with one or more signers. Rebuilding the result drops undefined payload members.
A key id that names the prototype makes its entry the prototype of the directory, where reading
that id finds it. -/
def signEnvelope (core : EnvelopeCore) (keys : List EnvelopeSigner)
    (attestation : Option Bytes) : Except String SignedEnvelope :=
  if keys = [] then .error "at least one signing key is required"
  else if (attestation.any fun document => !decide (referenced H core document)) = true then
    .error "the attestation document is not the one the core references"
  else do
    let bytes ← canonicalize H core
    let digest := commit H bytes
    let message ← signatureMessage digest
    .ok
      { core := { core with payload := JsValue.cleanMembers core.payload [] }
        coreCbor := toBase64 bytes
        digest
        signatures := keys.map fun k => k.sign message
        keyDirectory := .ofList (keys.map fun k => (k.keyId, k.directoryEntry))
        attestation := attestation.map fun document => ⟨"aws-nitro", toBase64 document⟩ }

variable {H} in
/-- What a signature is made over. -/
theorem exists_signatureMessage (hsha : ∀ data, (H.sha256 data).length = 32) (bytes : Bytes) :
    ∃ message, signatureMessage (commit H bytes) = .ok message := by
  unfold signatureMessage commit mhSha256
  rw [multihashDigest_toHex (hsha _), ok_bind]
  exact ⟨_, rfl⟩

/-- Attach a checkpoint. -/
def withCheckpoint (env : SignedEnvelope) (checkpoint : Checkpoint) : SignedEnvelope :=
  { env with checkpoint := some checkpoint }

/-- The leaf a log stores for an envelope: its digest. -/
def envelopeLeaf (env : SignedEnvelope) : Except String Bytes := multihashDigest env.digest

end

end CoolSdk
