import CoolSdk.Core.Fallible
import CoolSdk.Core.OrderedMap
import CoolSdk.Phala.Fields
import CoolSdk.Phala.Governance

/-!
# The simulated confidential VM

Key generation and hybrid signing over the two signature schemes, and the dstack client that
reproduces the guest agent's three calls under a root of its own: the measurement of an image, a
quote over it, and keys derived from it. The keys of the evidence plane are sealed to it.
-/

namespace CoolSdk

/-! ## Hybrid keys and signatures -/

/-- The digest and the two signature schemes that keys and measurements are made with. What
throws while verifying counts as false. -/
structure KeyHost where
  sha384 : Bytes → Bytes
  /-- The public and the secret key of a seed. -/
  mlDsaKeygen : Bytes → Bytes × Bytes
  /-- A secret key and a message. -/
  mlDsaSign : Bytes → Bytes → Bytes
  /-- A public key, a message and a signature. -/
  mlDsaVerify : Bytes → Bytes → Bytes → Bool
  /-- The public key of a secret key. -/
  ed25519PublicKey : Bytes → Bytes
  /-- A message and a secret key. -/
  ed25519Sign : Bytes → Bytes → Bytes
  /-- A signature, a message and a public key. -/
  ed25519Verify : Bytes → Bytes → Bytes → Bool

section

variable (H : Host) (K : KeyHost)

/-- Both signatures of a message. -/
def hybridSign (message : Bytes) (key : KeyPair) : SignatureBlock where
  alg := "ml-dsa-65+ed25519"
  keyId := key.keyId
  mlDsa := toBase64Field (K.mlDsaSign key.mlDsaSecret message)
  ed25519 := toBase64Field (K.ed25519Sign message key.ed25519Secret)

/-- Whether a check of two base64 fields holds; one that cannot be decoded fails it. -/
def verifyHalf (first second : String) (check : Bytes → Bytes → Bool) : Bool :=
  match fromBase64Field H first, fromBase64Field H second with
  | .ok first, .ok second => check first second
  | _, _ => false

/-- Whether both signatures of a message verify under an entry. -/
def hybridVerify (message : Bytes) (signature : SignatureBlock) (entry : DirectoryEntry) : Bool :=
  verifyHalf H entry.mlDsaPub signature.mlDsa
    (fun publicKey signature => K.mlDsaVerify publicKey message signature) &&
  verifyHalf H signature.ed25519 entry.ed25519Pub
    (fun signature publicKey => K.ed25519Verify signature message publicKey)

/-- The Ed25519 secret of a seed, apart from the ML-DSA one. -/
def deriveEd25519Secret (seed : Bytes) : Bytes := H.sha256 (seed ++ utf8 "cool/ed25519")

/-- The key pair of a 32-byte seed. -/
def generateKeypair (keyId : String) (seed : Bytes) : Except String KeyPair :=
  if seed.length ≠ 32 then .error ("seed must be 32 bytes, got " ++ toString seed.length)
  else
    let mlDsa := K.mlDsaKeygen seed
    let ed25519Secret := deriveEd25519Secret H seed
    .ok {
      keyId := keyId
      directoryEntry :=
        { mlDsaPub := toBase64Field mlDsa.1
          ed25519Pub := toBase64Field (K.ed25519PublicKey ed25519Secret) }
      mlDsaSecret := mlDsa.2
      ed25519Secret := ed25519Secret }

/-- What the schemes document: a signature verifies under the public key of the secret it was
made with, and `atob` reads what `btoa` wrote. The host signs and verifies with them. -/
structure SigningLaws : Prop where
  sign : ∀ message key, H.hybridSign message key = hybridSign K message key
  verify : ∀ message signature entry,
    H.hybridVerify message signature entry = hybridVerify H K message signature entry
  atob : ∀ bytes, H.atob (utf8 (toBase64 bytes)) = .ok bytes
  mlDsa : ∀ seed message, K.mlDsaVerify (K.mlDsaKeygen seed).1 message
    (K.mlDsaSign (K.mlDsaKeygen seed).2 message) = true
  ed25519 : ∀ secret message, K.ed25519Verify (K.ed25519Sign message secret) message
    (K.ed25519PublicKey secret) = true

/-- A key pair that key generation gives. -/
def KeyPair.Generated (key : KeyPair) : Prop := ∃ seed, generateKeypair H K key.keyId seed = .ok key

end

section

variable {H : Host} {K : KeyHost}

theorem fromBase64Field_toBase64Field (h : SigningLaws H K) (bytes : Bytes) :
    fromBase64Field H (toBase64Field bytes) = .ok bytes := by
  simp only [fromBase64Field, toBase64Field, stripPrefix?_append, h.atob]

/-- What a generated key signs verifies under its directory entry. -/
theorem SigningLaws.verifies (h : SigningLaws H K) {key : KeyPair} (hkey : key.Generated H K)
    (message : Bytes) :
    H.hybridVerify message (H.hybridSign message key) key.directoryEntry = true := by
  obtain ⟨seed, hkey⟩ := hkey
  unfold generateKeypair at hkey
  split at hkey
  · cases hkey
  · rw [h.verify, h.sign, ← Except.ok.inj hkey]
    simp only [hybridVerify, hybridSign, verifyHalf, fromBase64Field_toBase64Field h, h.mlDsa,
      h.ed25519, Bool.and_self]

end

/-! ## The simulated client -/

/-- Which runtime a record was produced in. -/
inductive RuntimeMode
  | mock
  | simulated
  | hardware
  deriving DecidableEq, Repr

def RuntimeMode.text : RuntimeMode → String
  | mock => "mock"
  | simulated => "simulated"
  | hardware => "hardware"

/-- An entry of the event log. -/
structure EnclaveEvent where
  imr : Fin 4
  event : String
  digest : String
  deriving DecidableEq, Repr

/-- What the agent knows of its machine. -/
structure EnclaveInfo where
  appId : String
  instanceId : String
  appName : String
  vendor : TeeVendor
  mode : RuntimeMode
  measurement : Measurement
  tcbStatus : String
  eventLog : List EnclaveEvent
  imageDigest : String
  appUrl : Option String
  deriving DecidableEq, Repr

/-- A quote with its signature or its raw bytes. -/
structure QuoteEnvelope where
  format : String
  root : String
  body : QuoteBody
  signature : Option SignatureBlock
  raw : Option String
  deriving DecidableEq, Repr

/-- A member that may be null. -/
def nullable {α : Type} (f : α → JsValue) : Option α → JsValue
  | none => .null
  | some a => f a

instance : ToJs SignatureBlock where
  toJs s := .object [("alg", .str s.alg), ("key_id", .str s.keyId), ("ml_dsa", .str s.mlDsa),
    ("ed25519", .str s.ed25519)]

/-- The object a quote is encoded from. -/
def QuoteEnvelope.members (q : QuoteEnvelope) : JsValue.Members :=
  [("format", .str q.format), ("root", .str q.root), ("body", toJs q.body),
    ("signature", nullable toJs q.signature), ("raw", nullable .str q.raw)]

instance : ToJs QuoteEnvelope where
  toJs q := .object q.members

structure SimulatedDstackOptions where
  appName : String
  /-- The digest of the deployed image, from which everything else is derived. -/
  imageDigest : String
  instanceId : Option String := none
  vendor : Option TeeVendor := none
  rootSeed : Option String := none
  appUrl : Option String := none

/-- `text.slice(start, stop)`. -/
def sliceText (text : String) (start stop : Nat) : String :=
  String.ofList ((text.toList.take stop).drop start)

/-- The first hex digits of a register. -/
def shortMeasurement (m : Measurement) (n : Nat) : String := sliceText m.mrtd 4 (4 + n)

/-- The key id of the simulator's attestation root. -/
def SIM_ROOT_KEY_ID : String := "cool-sim-attestation-root-01"

/-- A client of the simulated guest agent. -/
structure SimulatedDstackClient where
  options : SimulatedDstackOptions
  rootKey : KeyPair
  appId : String
  instanceId : String

namespace SimulatedDstackClient

section

variable (H : Host) (K : KeyHost)

def new (options : SimulatedDstackOptions) : Except String SimulatedDstackClient := do
  let rootSeed :=
    H.sha256 (utf8 ("cool/sim-attestation-root " ++ options.rootSeed.getD "cool"))
  let rootKey ← generateKeypair H K SIM_ROOT_KEY_ID rootSeed
  return {
    options := options
    rootKey := rootKey
    appId := sliceText (toHexField (H.sha256 (utf8 ("dstack/app-id " ++ options.appName)))) 4 44
    instanceId := options.instanceId.getD
      (sliceText (toHexField (H.sha256 (utf8 ("dstack/instance " ++ options.imageDigest)))) 4 36) }

/-- A register: the digest of a tag and its parts. -/
def reg (tag : String) (parts : List String) : String :=
  toHexField (K.sha384 (utf8 (" ".intercalate (tag :: parts))))

/-- The measurement set the image produces. -/
def measurement (client : SimulatedDstackClient) : Measurement where
  mrtd := reg K "dstack/mrtd" [client.options.imageDigest]
  rtmr0 := reg K "dstack/rtmr0" ["tdx-virtual-firmware", client.options.appName]
  rtmr1 := reg K "dstack/rtmr1" ["dstack-os-0.5.3"]
  rtmr2 := reg K "dstack/rtmr2" ["console=ttyS0 dstack.rootfs_hash=verity"]
  rtmr3 := reg K "dstack/rtmr3"
    [client.appId, client.options.imageDigest, client.instanceId, "kms-onchain"]

def info (client : SimulatedDstackClient) : EnclaveInfo where
  appId := client.appId
  instanceId := client.instanceId
  appName := client.options.appName
  vendor := client.options.vendor.getD .intelTdx
  mode := .simulated
  measurement := client.measurement K
  tcbStatus := "UpToDate (simulated)"
  eventLog := [
    { imr := 3, event := "app-id", digest := reg K "event/app-id" [client.appId] },
    { imr := 3, event := "compose-hash"
      digest := reg K "event/compose" [client.options.imageDigest] },
    { imr := 3, event := "instance-id", digest := reg K "event/instance" [client.instanceId] },
    { imr := 3, event := "key-provider", digest := reg K "event/kms" ["kms-onchain"] }]
  imageDigest := client.options.imageDigest
  appUrl := client.options.appUrl

/-- A quote at a reading of the client's clock. -/
def getQuote (client : SimulatedDstackClient) (clock : String) (reportData : Multihash) :
    Except String QuoteEnvelope := do
  let info := client.info K
  let body : QuoteBody :=
    { vendor := info.vendor
      measurement := info.measurement
      reportData := reportData
      tcbStatus := info.tcbStatus
      appId := info.appId
      instanceId := info.instanceId
      issuedAt := clock }
  let signature ← signSimulatedQuote H body client.rootKey
  return {
    format := "cool.sim.v1", root := "cool-sim-root", body := body
    signature := some signature, raw := none }

/-- The secret sealed to the measurement under a path. -/
def deriveKey (client : SimulatedDstackClient) (path : String) : Bytes :=
  let m := client.measurement K
  H.sha256 (utf8 (" ".intercalate ["cool/kms/seed/v2", client.options.rootSeed.getD "cool", m.mrtd,
    m.rtmr3, client.appId, path]))

/-- The public half of the root. -/
def directory (client : SimulatedDstackClient) : List (String × DirectoryEntry) :=
  [(client.rootKey.keyId, client.rootKey.directoryEntry)]

end

end SimulatedDstackClient

/-! ## Sealed keys -/

/-- The keys of a plane: one for records and one for the log. -/
structure SealedKeyset where
  record : KeyPair
  log : KeyPair

section

variable (H : Host) (K : KeyHost)

/-- The key sealed under a path, with an id that names its role and the image. -/
def sealedKeypair (client : SimulatedDstackClient) (path role : String) : Except String KeyPair :=
  let seed := client.deriveKey H K path
  if seed.length ≠ 32 then
    .error ("key provider returned " ++ toString seed.length ++ " bytes, expected a 32-byte seed")
  else
    generateKeypair H K
      ("cool-" ++ role ++ "-" ++ shortMeasurement (client.info K).measurement 10) seed

def sealedKeyset (client : SimulatedDstackClient) : Except String SealedKeyset := do
  let record ← sealedKeypair H K client "cool/evidence/record/v2" "enclave"
  let log ← sealedKeypair H K client "cool/evidence/log/v2" "log"
  return { record := record, log := log }

/-- The directory entries of several keys. -/
def mergeDirectories (keys : List KeyPair) : List (String × DirectoryEntry) :=
  keys.foldl (fun directory key => Entries.set directory key.keyId key.directoryEntry) []

end

end CoolSdk
