import CoolSdk.Core.Fallible
import CoolSdk.Runtime.Host

/-!
# Public-chain anchors

Reading a detached timestamp proof and checking the commitments it reaches against block headers.
A proof is a tree: every node has a message, what is attested about it, and operations that lead
to the messages of its children.
-/

namespace CoolSdk.Anchor

/-- The hash functions an operation may name, and the runtime's text decoder. -/
structure AnchorHost where
  sha1 : Bytes → Bytes
  ripemd160 : Bytes → Bytes
  keccak256 : Bytes → Bytes
  /-- `new TextDecoder().decode(bytes)`. -/
  textDecode : Bytes → String

/-- One step in a commitment path. -/
structure AnchorOp where
  tag : UInt8
  arg : Option Bytes := none
  deriving DecidableEq, Repr

/-- Where a commitment ended up. -/
inductive Attestation
  | pending (uri : String)
  | bitcoin (height : Nat)
  | litecoin (height : Nat)
  | ethereum (height : Nat)
  | unknown (tag payload : Bytes)
  deriving DecidableEq, Repr

/-- A message, what is attested about it, and the operations that go on from it. -/
inductive Timestamp
  | mk (msg : Bytes) (attestations : List Attestation) (ops : List (AnchorOp × Timestamp))

/-- The message a proof is about. -/
def Timestamp.msg : Timestamp → Bytes
  | mk msg _ _ => msg

/-! ## Reading -/

/-- The header of a detached proof file, with its magic bytes. -/
def HEADER_MAGIC : Bytes :=
  [0x00, 0x4f, 0x70, 0x65, 0x6e, 0x54, 0x69, 0x6d, 0x65, 0x73, 0x74, 0x61, 0x6d, 0x70, 0x73, 0x00,
    0x00, 0x50, 0x72, 0x6f, 0x6f, 0x66, 0x00, 0xbf, 0x89, 0xe2, 0xe8, 0x84, 0xe8, 0x92, 0x94]

def MAJOR_VERSION : Nat := 1

def TAG_PENDING : Bytes := [0x83, 0xdf, 0xe3, 0x0d, 0x2e, 0xf9, 0x0c, 0x8e]

def TAG_BITCOIN : Bytes := [0x05, 0x88, 0x96, 0x0d, 0x73, 0xd7, 0x19, 0x01]

def TAG_LITECOIN : Bytes := [0x06, 0x86, 0x9a, 0x0d, 0x73, 0xd7, 0x1b, 0x45]

def TAG_ETHEREUM : Bytes := [0x30, 0xfe, 0x80, 0x87, 0xb5, 0xc7, 0xea, 0xd7]

/-- A reader's next byte and what is left. -/
def readByte : Bytes → Except String (UInt8 × Bytes)
  | [] => .error "proof ended mid-structure"
  | b :: rest => .ok (b, rest)

/-- A reader's next bytes and what is left. -/
def takeBytes (n : Nat) (input : Bytes) : Except String (Bytes × Bytes) :=
  if input.length < n then .error "proof ended mid-value" else .ok (input.splitAt n)

/-- The rest of a base-128 number, little-endian, at a shift. A ninth byte is the last, and the
value is a double after every byte. -/
def varuintFrom : Nat → Nat → Nat → Bytes → Except String (Nat × Bytes)
  | 0, _, _, _ => .error "varuint too large to be meaningful"
  | left + 1, shift, value, input => do
    let (byte, input) ← readByte input
    let value := JsNumber.nearestDouble (value + byte.toNat % 128 * 2 ^ shift)
    if byte.toNat < 128 then return (value, input)
    else varuintFrom left (shift + 7) value input

/-- A base-128 number. -/
def varuint (input : Bytes) : Except String (Nat × Bytes) := varuintFrom 9 0 0 input

/-- Bytes behind their length. -/
def varbytes (input : Bytes) : Except String (Bytes × Bytes) := do
  let (n, input) ← varuint input
  takeBytes n input

section

variable (H : Host) (A : AnchorHost)

/-- An attestation; the payload of an unknown one is dropped. -/
def readAttestation (input : Bytes) : Except String (Attestation × Bytes) := do
  let (tag, input) ← takeBytes 8 input
  let (payload, input) ← varbytes input
  if tag = TAG_PENDING then
    let (uri, _) ← varbytes payload
    return (.pending (A.textDecode uri), input)
  else if tag = TAG_BITCOIN then
    let (height, _) ← varuint payload
    return (.bitcoin height, input)
  else if tag = TAG_LITECOIN then
    let (height, _) ← varuint payload
    return (.litecoin height, input)
  else if tag = TAG_ETHEREUM then
    let (height, _) ← varuint payload
    return (.ethereum height, input)
  else return (.unknown tag [], input)

/-- An operation; only `append` and `prepend` have an argument. -/
def readOp (tag : UInt8) (input : Bytes) : Except String (AnchorOp × Bytes) :=
  if tag = 0xf0 ∨ tag = 0xf1 then do
    let (arg, input) ← varbytes input
    return ({ tag := tag, arg := some arg }, input)
  else .ok ({ tag := tag }, input)

/-- Apply one operation to a message. -/
def applyOp (op : AnchorOp) (msg : Bytes) : Except String Bytes :=
  if op.tag = 0x08 then .ok (H.sha256 msg)
  else if op.tag = 0x02 then .ok (A.sha1 msg)
  else if op.tag = 0x03 then .ok (A.ripemd160 msg)
  else if op.tag = 0x67 then .ok (A.keccak256 msg)
  else if op.tag = 0xf0 then .ok (msg ++ op.arg.getD [])
  else if op.tag = 0xf1 then .ok (op.arg.getD [] ++ msg)
  else if op.tag = 0xf2 then .ok msg.reverse
  else if op.tag = 0xf3 then .ok (utf8 (toHex msg))
  else
    .error ("unknown operation 0x" ++ String.ofList (Nat.toDigits 16 op.tag.toNat) ++
      " — refusing to guess")

/-- What a tag announces: an attestation about a message, or an operation on it and the node about
the result. -/
def readOne (next : Bytes → Bytes → Except String (Timestamp × Bytes)) (msg : Bytes) (tag : UInt8)
    (input : Bytes) :
    Except String (List Attestation × List (AnchorOp × Timestamp) × Bytes) :=
  if tag = 0x00 then do
    let (attestation, input) ← readAttestation A input
    return ([attestation], [], input)
  else do
    let (op, input) ← readOp tag input
    let derived ← applyOp H A op msg
    let (stamp, input) ← next derived input
    return ([], [(op, stamp)], input)

/-- A node about a message. A byte of its own announces that another item follows; the fuel bounds
the bytes that are read. -/
def readTimestamp : Nat → Bytes → Bytes → Except String (Timestamp × Bytes)
  | 0, _, _ => .error "proof ended mid-structure"
  | fuel + 1, msg, input => do
    let (tag, input) ← readByte input
    if tag = 0xff then
      let (tag, input) ← readByte input
      let (attestations, ops, input) ← readOne H A (readTimestamp fuel) msg tag input
      let (⟨_, attestations', ops'⟩, input) ← readTimestamp fuel msg input
      return (.mk msg (attestations ++ attestations') (ops ++ ops'), input)
    else
      let (attestations, ops, input) ← readOne H A (readTimestamp fuel) msg tag input
      return (.mk msg attestations ops, input)

/-- The digest a proof file is about, and its proof. -/
def parseProof (bytes : Bytes) : Except String (Bytes × Timestamp) := do
  let (magic, input) ← takeBytes HEADER_MAGIC.length bytes
  if magic ≠ HEADER_MAGIC then
    throw "not an OpenTimestamps proof — magic bytes do not match"
  let (version, input) ← varuint input
  if version ≠ MAJOR_VERSION then
    throw ("proof version " ++ toString version ++ " is not supported")
  let (hashOp, input) ← readByte input
  let (digest, input) ← takeBytes (if hashOp = 0x08 ∨ hashOp = 0x67 then 32 else 20) input
  let (timestamp, _) ← readTimestamp H A (input.length + 1) digest input
  return (digest, timestamp)

end

/-! ## Verification -/

mutual

/-- The attestations a proof reaches, each with the message it is about. -/
def reachable : Timestamp → List (Attestation × Bytes)
  | .mk msg attestations ops => attestations.map (fun a => (a, msg)) ++ reachableOps ops

def reachableOps : List (AnchorOp × Timestamp) → List (Attestation × Bytes)
  | [] => []
  | (_, stamp) :: ops => reachable stamp ++ reachableOps ops

end

/-- What became of an anchor. -/
inductive AnchorStatus
  | confirmed
  | pending
  | submitted
  | fail
  deriving DecidableEq, Repr

/-- The Bitcoin blocks among what a proof reaches, with what it commits to in each. -/
def bitcoinHeights (reached : List (Attestation × Bytes)) : List (Nat × Bytes) :=
  reached.filterMap fun r =>
    match r.1 with
    | .bitcoin height => some (height, r.2)
    | _ => none

/-- `text.toLowerCase()` of a block header's hex; nothing outside ASCII lowers to a hex digit. -/
def toLowerCase (text : String) : String := String.ofList (text.toList.map Char.toLower)

/-- Check each commitment against the header of its block, up to the first that is not there. -/
def checkHeaders (headers : Nat → Option String) : List (Nat × Bytes) → AnchorStatus
  | [] => .confirmed
  | (height, commitment) :: rest =>
    match headers height with
    | none => .pending
    | some expected =>
      if toHex commitment.reverse ≠ toLowerCase expected then .fail else checkHeaders headers rest

/-- Check a proof about a digest. -/
def verifyAnchor (digest : Bytes) (timestamp : Timestamp) (headers : Option (Nat → Option String)) :
    AnchorStatus :=
  if toHex timestamp.msg ≠ toHex digest then .fail
  else
    match bitcoinHeights (reachable timestamp), headers with
    | [], _ => .submitted
    | _ :: _, none => .pending
    | bitcoin, some headers => checkHeaders headers bitcoin

end CoolSdk.Anchor
