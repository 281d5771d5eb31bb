import CoolSdk.Nitro.Document
import CoolSdk.Phala.Anchor
import CoolSdk.Platform.Status
import CoolSdk.Runtime.Date

/-!
# Nitro attestation

The trust root, the certificate chain and the signature are checked first. The claims of a document
are used only where all three pass.
-/

namespace CoolSdk.Nitro

open Anchor (toLowerCase)

/-! ## Policy and options -/

/-- How the field `public_key` of a document is used. -/
inductive PublicKeyMode
  | receiptEd25519
  | unused
  deriving DecidableEq, Repr

/-- Expected registers, in hex. -/
structure NitroPcrPolicy where
  id : String
  version : String
  source : String
  pcrs : List (Nat × String)
  /-- A hex value, or `"not_applicable"`. -/
  pcr8 : String
  publicKey : PublicKeyMode := .receiptEd25519
  deriving DecidableEq, Repr

/-- The nonces that a ledger has seen, in hex. -/
abbrev NonceLedger := List String

inductive NitroFreshness
  | nonce (expected : Bytes) (ledger : Option NonceLedger)
  | timestampWindow (maxAgeMs : JsNumber) (clockSkewMs : Option JsNumber)
  deriving DecidableEq, Repr

structure ReceiptKey where
  keyId : String
  entry : DirectoryEntry
  deriving DecidableEq, Repr

inductive CertificateTime
  | now
  | attestationTimestamp
  deriving DecidableEq, Repr

structure VerifyNitroOptions where
  trustBundle : Option NitroTrustBundle := none
  policy : Option NitroPcrPolicy := none
  receiptKey : Option ReceiptKey := none
  freshness : Option NitroFreshness := none
  now : Option JsNumber := none
  certificateTime : CertificateTime := .now
  maxBytes : Option Nat := none
  deriving DecidableEq, Repr

/-- The nonces that the ledger in the options has seen. -/
def VerifyNitroOptions.ledger (o : VerifyNitroOptions) : Option NonceLedger :=
  match o.freshness with
  | some (.nonce _ ledger) => ledger
  | _ => none

/-! ## Reports -/

structure NitroClaims where
  verified : Bool
  moduleId : String
  timestampMs : JsNumber
  pcrs : List (Nat × String)
  publicKey : Option String
  userData : Option String
  nonce : Option String
  deriving DecidableEq, Repr

structure TrustBundleRef where
  id : String
  version : String
  root : Option String
  deriving DecidableEq, Repr

structure PolicyRef where
  id : String
  version : String
  source : String
  deriving DecidableEq, Repr

structure NitroAttestationReport where
  overallStatus : OverallStatus
  documentSha256 : String
  trustBundle : TrustBundleRef
  policy : Option PolicyRef
  claims : Option NitroClaims
  checks : Checks
  reasons : List String
  deriving DecidableEq, Repr

/-- A check with what its pass does not establish. -/
def limited (c : Check) (limitation : String) : Check := { c with limitation := some limitation }

def NOT_CHECKED (why : String) : Check := check .notChecked "claims_unverified" why

def REQUIRED : List String :=
  ["structure", "trust_root", "certificate_chain", "cose_signature", "debug_mode", "pcr_policy",
    "pcr8_signing", "key_binding", "public_key", "freshness"]

/-! ## Key binding -/

def KEY_BINDING_CONTEXT : String := "cool.nitro.key-binding.v1"

def ED25519_SPKI_PREFIX : Bytes :=
  [0x30, 0x2a, 0x30, 0x05, 0x06, 0x03, 0x2b, 0x65, 0x70, 0x03, 0x21, 0x00]

/-- The public key info of a raw Ed25519 key. -/
def ed25519Spki (rawPublicKey : Bytes) : Except String Bytes :=
  if rawPublicKey.length ≠ 32 then .error "Ed25519 public key must be 32 bytes"
  else .ok (ED25519_SPKI_PREFIX ++ rawPublicKey)

section

variable {κ : Type} (N : NitroHost κ) (H : Host)

/-- The digest that `user_data` carries to bind a key. -/
def keyBindingUserData (key : ReceiptKey) : Except String Bytes := do
  let mlDsa ← fromBase64Field H key.entry.mlDsaPub
  let ed25519 ← fromBase64Field H key.entry.ed25519Pub
  let body ← H.canonicalCbor (.object [
    ("ctx", .str KEY_BINDING_CONTEXT), ("key_id", .str key.keyId),
    ("keys", .array [.object [("alg", .str "ml-dsa-65"), ("pub", .bytes mlDsa)],
      .object [("alg", .str "ed25519"), ("pub", .bytes ed25519)]])])
  return H.sha256 (utf8 KEY_BINDING_CONTEXT ++ [0] ++ body)

/-! ## Trust root, chain and signature -/

def verifyRoot (bundle : NitroTrustBundle) (doc : Decoded) (now : JsNumber) :
    Check × Option String :=
  match bundle.roots.find? fun r => bytesEqual r.der (doc.cabundle.headD []) with
  | none =>
    (check .fail "untrusted_root"
      ("cabundle[0] is not a root in bundle " ++ bundle.id ++ "@" ++ bundle.version), none)
  | some root =>
    match nonEmpty bundle.expiresAt with
    | some expiresAt =>
      if (dateNumber H expiresAt).lt now then
        (check .unknown "trust_bundle_stale" ("bundle " ++ bundle.id ++ "@" ++ bundle.version ++
          " was due for review by " ++ expiresAt), some root.name)
      else (pinned root, some root.name)
    | none => (pinned root, some root.name)
where
  pinned (root : NitroTrustRoot) : Check :=
    check .pass "root_pinned" ("chains to " ++ root.name ++ " (sha256 " ++
      String.ofList (root.fingerprintSha256.toList.take 16) ++ "…) from " ++ bundle.id ++ "@" ++
      bundle.version)

/-- The loop over a chain: what is wrong with it, if anything, from the index of the next
certificate and the one before it. -/
def chainProblem (time : JsNumber) (label : String) : Nat → Option κ → List κ → Option Check
  | _, _, [] => none
  | i, parent, cert :: rest =>
    if !(dateNumber H (N.validFrom cert)).le time then
      some (check .fail "certificate_not_yet_valid" ("certificate " ++ toString i ++
        " is not valid until " ++ N.validFrom cert ++ " (" ++ label ++ ")"))
    else if !time.le (dateNumber H (N.validTo cert)) then
      some (check .fail "certificate_expired" ("certificate " ++ toString i ++ " expired " ++
        N.validTo cert ++ " (" ++ label ++ ")"))
    else
      match parent with
      | none => chainProblem time label (i + 1) (some cert) rest
      | some parent =>
        if !N.ca parent then
          some (check .fail "ca_flag_missing" ("certificate " ++ toString (i - 1) ++
            " issues certificate " ++ toString i ++ " but is not a CA"))
        else if !N.checkIssued cert parent then
          some (check .fail "chain_issuer_mismatch" ("certificate " ++ toString i ++
            " was not issued by certificate " ++ toString (i - 1)))
        else if !(N.verify cert parent).toOption.getD false then
          some (check .fail "chain_signature_invalid" ("certificate " ++ toString i ++
            " signature does not verify under certificate " ++ toString (i - 1)))
        else chainProblem time label (i + 1) (some cert) rest

def verifyChain (doc : Decoded) (time : JsNumber) (label : String) : Check :=
  match (doc.cabundle ++ [doc.certificate]).mapM N.certificate with
  | .error message =>
    check .fail "invalid_certificate_encoding" ("a certificate did not parse: " ++ message)
  | .ok chain =>
    match chainProblem N H time label 0 none chain with
    | some problem => problem
    | none =>
      if chain.getLast?.any N.ca then
        check .fail "leaf_is_ca" "the signing certificate must not be a CA"
      else
        limited (check .pass "chain_valid" (toString chain.length ++
            " certificates chain to the root (validity judged at " ++ label ++ ")"))
          ("issuer, signature, CA flag and validity only; path-length, key-usage and name " ++
            "constraints are not evaluated; no revocation (AWS publishes no CRL for this PKI)")

/-- What a signature of a document covers. -/
def sigStructure (doc : Decoded) : Bytes :=
  Cbor.encode (.array [.text (utf8 "Signature1"), .bytes doc.protectedBytes, .bytes [],
    .bytes doc.payloadBytes])

/-- Whether the signature verifies; nothing where the key is of another kind. -/
def signatureVerifies (doc : Decoded) (leaf : κ) : Except String (Option Bool) := do
  let key ← N.publicKey leaf
  if key.asymmetricKeyType ≠ some "ec" ∨ key.namedCurve ≠ some "secp384r1" then return none
  else
    let ok ← N.cryptoVerify (sigStructure doc) leaf doc.signature
    return some ok

def verifyCoseSignature (doc : Decoded) : Check :=
  match N.certificate doc.certificate with
  | .error _ =>
    check .fail "invalid_certificate_encoding" "the signing certificate did not parse"
  | .ok leaf =>
    match signatureVerifies N doc leaf with
    | .error message =>
      check .fail "invalid_certificate_key"
        ("the signing certificate's key is unusable: " ++ message)
    | .ok none =>
      check .fail "unsupported_algorithm" "the signing certificate does not hold a P-384 key"
    | .ok (some true) =>
      check .pass "signature_valid"
        "COSE_Sign1 ES384 signature verifies under the signing certificate"
    | .ok (some false) =>
      check .fail "signature_invalid"
        "COSE_Sign1 signature does not verify — the payload or signature was altered"

/-! ## Claims -/

def verifyDebug (doc : Decoded) : Check :=
  if [0, 1, 2].all fun i => (Entries.get doc.pcrs i).any fun v => v.all (· == 0) then
    check .fail "debug_enclave" ("PCR0, PCR1 and PCR2 are all zero: the enclave was started in " ++
      "debug mode, so its memory is observable by the host")
  else check .pass "not_debug" "PCR0–2 are non-zero"

/-- `text.slice(0, 16)`. -/
def head16 (text : String) : String := String.ofList (text.toList.take 16)

/-- The loop over the pinned registers: what is wrong with the first that is not as expected. -/
def pcrProblem (doc : Decoded) : List (Nat × String) → Option Check
  | [] => none
  | (index, expected) :: rest =>
    match Entries.get doc.pcrs index with
    | none =>
      some (check .fail "pcr_missing"
        ("PCR" ++ toString index ++ " is pinned by policy but absent from the document"))
    | some actual =>
      if toHex actual ≠ toLowerCase expected then
        some (check .fail "pcr_mismatch" ("PCR" ++ toString index ++ " is " ++
          head16 (toHex actual) ++ "…, policy expects " ++ head16 expected ++ "…"))
      else pcrProblem doc rest

def pcr8Check (doc : Decoded) (policy : NitroPcrPolicy) : Check :=
  if policy.pcr8 = "not_applicable" then
    check .notApplicable "image_not_signed"
      "policy states the enclave image is not signed; PCR8 is not compared"
  else
    match Entries.get doc.pcrs 8 with
    | none => check .fail "pcr_missing" "policy expects a signed image but PCR8 is absent"
    | some actual =>
      if toHex actual = toLowerCase policy.pcr8 then
        check .pass "pcr8_match" "PCR8 matches the expected signing certificate"
      else
        check .fail "pcr8_mismatch" "PCR8 does not match the expected image-signing certificate"

/-- The checks of the registers: the policy, and the one of signed images. -/
def verifyPcrs (doc : Decoded) (policy : Option NitroPcrPolicy) : Check × Check :=
  match policy with
  | none =>
    let c := check .notChecked "no_policy" "no expected-PCR policy was supplied"
    (c, c)
  | some policy =>
    let missing := [0, 1, 2].filter fun i => (Entries.get policy.pcrs i).isNone
    if missing ≠ [] then
      let c := check .unknown "policy_incomplete" ("policy " ++ policy.id ++ "@" ++
        policy.version ++ " does not pin PCR" ++ ", PCR".intercalate (missing.map toString))
      (c, c)
    else
      ((pcrProblem doc policy.pcrs).getD (check .pass "pcrs_match" ("pinned PCRs match policy " ++
        policy.id ++ "@" ++ policy.version ++ " (" ++ policy.source ++ ")")),
        pcr8Check doc policy)

/-- The check of `user_data` against the digest that binds the key. -/
def userDataCheck (doc : Decoded) (key : ReceiptKey) (expected : Bytes) : Check :=
  match doc.userData with
  | none => check .fail "user_data_absent" "user_data is absent, so the receipt key is not bound"
  | some userData =>
    if bytesEqual userData expected then
      check .pass "key_bound"
        ("user_data binds receipt key " ++ key.keyId ++ " (" ++ KEY_BINDING_CONTEXT ++ ")")
    else
      check .fail "key_binding_mismatch" ("user_data does not bind receipt key " ++ key.keyId)

/-- The check of `public_key` against the public key info of the receipt key. -/
def publicKeyCheck (doc : Decoded) (spki : Bytes) : Check :=
  match doc.publicKey with
  | none =>
    check .fail "public_key_absent" "policy requires public_key to carry the receipt Ed25519 key"
  | some publicKey =>
    if bytesEqual publicKey spki then
      check .pass "public_key_match" "public_key is the receipt Ed25519 key"
    else check .fail "public_key_mismatch" "public_key is not the receipt Ed25519 key"

/-- The checks of the key that the attestation binds: `user_data`, and `public_key`. -/
def verifyBinding (doc : Decoded) (o : VerifyNitroOptions) : Except String (Check × Check) :=
  let mode := (o.policy.map NitroPcrPolicy.publicKey).getD .receiptEd25519
  match o.receiptKey with
  | none =>
    let c := check .notChecked "no_receipt_key"
      "no receipt key was supplied, so nothing binds this attestation to a signer"
    .ok (c, if mode = .unused then
      check .notApplicable "public_key_unused" "policy does not use public_key" else c)
  | some key => do
    let expected ← keyBindingUserData H key
    let binding := userDataCheck doc key expected
    if mode = .unused then
      return (binding, check .notApplicable "public_key_unused"
        "policy reserves public_key for another protocol; user_data alone binds the key")
    else
      let rawKey ← fromBase64Field H key.entry.ed25519Pub
      let spki ← ed25519Spki rawKey
      return (binding, publicKeyCheck doc spki)

/-- The check of a nonce, and the ledger after it. -/
def verifyNonce (doc : Decoded) (expected : Bytes) (ledger : Option NonceLedger) :
    Check × Option NonceLedger :=
  match doc.nonce with
  | none =>
    (check .fail "nonce_absent" ("nonce mode was required but the document carries no nonce " ++
      "(no fallback to timestamp)"), ledger)
  | some nonce =>
    if !bytesEqual nonce expected then
      (check .fail "nonce_mismatch" "the document's nonce is not the challenge that was issued",
        ledger)
    else
      let fresh := check .pass "nonce_fresh" "the document binds the issued challenge"
      match ledger with
      | none => (limited fresh
          "no nonce ledger supplied: replay of this exact challenge is not detected", none)
      | some seen =>
        if seen.contains (toHex nonce) then
          (check .fail "nonce_replayed"
            "this nonce was already consumed; the document is a replay", some seen)
        else (fresh, some (toHex nonce :: seen))

/-- The check of a timestamp against the clock. -/
def verifyWindow (doc : Decoded) (maxAgeMs : JsNumber) (clockSkewMs : Option JsNumber)
    (now : JsNumber) : Check :=
  let skew := clockSkewMs.getD (.ofInt 60000)
  let age := now.subRounded doc.timestampMs
  if age.lt skew.neg then
    check .fail "timestamp_in_future" ("the document is dated " ++ H.numberText age.neg ++
      " ms in the future (skew allowance " ++ H.numberText skew ++ " ms)")
  else if maxAgeMs.lt age then
    check .fail "attestation_stale" ("the document is " ++ H.numberText age ++
      " ms old; the policy allows " ++ H.numberText maxAgeMs ++ " ms")
  else
    limited (check .pass "within_window" ("the document is " ++
        H.numberText (age.max (.ofInt 0)) ++ " ms old (limit " ++ H.numberText maxAgeMs ++ " ms)"))
      ("timestamp-window freshness is weaker than a nonce: it shows recency, not that this " ++
        "verifier's challenge was answered")

/-- The check of freshness, and the ledger after it. -/
def verifyFreshness (doc : Decoded) (o : VerifyNitroOptions) (now : JsNumber) :
    Check × Option NonceLedger :=
  match o.freshness with
  | none => (check .notChecked "freshness_policy_absent" "no freshness policy was supplied", none)
  | some (.nonce expected ledger) => verifyNonce doc expected ledger
  | some (.timestampWindow maxAgeMs clockSkewMs) =>
    (verifyWindow H doc maxAgeMs clockSkewMs now, none)

/-! ## The verifier -/

/-- The checks of a document that does not decode. -/
def malformedChecks (e : Malformed) : Checks :=
  let skipped := check .notChecked "structure_invalid"
    "not evaluated: the document did not decode"
  ("structure", check .fail e.reason e.detail) :: REQUIRED.tail.map fun name => (name, skipped)

/-- What the verifier reports of a document that does not decode. -/
def malformedReport (bundle : NitroTrustBundle) (o : VerifyNitroOptions) (raw : Bytes)
    (e : Malformed) : NitroAttestationReport :=
  let checks := malformedChecks e
  let summary := overallOf checks REQUIRED
  { overallStatus := summary.1, documentSha256 := toHex (H.sha256 raw)
    trustBundle := { id := bundle.id, version := bundle.version, root := none }
    policy := o.policy.map fun p => { id := p.id, version := p.version, source := p.source }
    claims := none, checks, reasons := summary.2 }

/-- The checks of trust root, chain and signature, and the root that was found. -/
structure Authentication where
  root : Check × Option String
  chain : Check
  signature : Check
  deriving DecidableEq, Repr

/-- All three pass. -/
def Authentication.verified (a : Authentication) : Bool :=
  decide (a.root.1.status = .pass) && decide (a.chain.status = .pass) &&
    decide (a.signature.status = .pass)

/-- The instant at which validity is judged. -/
def judgedAt (o : VerifyNitroOptions) (doc : Decoded) (now : JsNumber) : JsNumber :=
  match o.certificateTime with
  | .attestationTimestamp => doc.timestampMs
  | .now => now

/-- How a report calls the instant at which validity is judged. -/
def certLabel (o : VerifyNitroOptions) (doc : Decoded) (now : JsNumber) : Except String String :=
  match o.certificateTime with
  | .attestationTimestamp =>
    (toISOString doc.timestampMs).map fun text =>
      "the attestation timestamp " ++ text ++ ", not now"
  | .now => (toISOString now).map fun text => "verification time " ++ text

def authenticate (bundle : NitroTrustBundle) (o : VerifyNitroOptions) (doc : Decoded)
    (now : JsNumber) : Except String Authentication := do
  let root := verifyRoot H bundle doc now
  let label ← certLabel o doc now
  return { root, chain := verifyChain N H doc (judgedAt o doc now) label
           signature := verifyCoseSignature N doc }

/-- The checks of the claims, all unchecked where the document is not authenticated, and the ledger
after them. -/
def claimChecks (verified : Bool) (doc : Decoded) (o : VerifyNitroOptions) (now : JsNumber) :
    Except String (Checks × Option NonceLedger) :=
  if verified then do
    let pcr := verifyPcrs doc o.policy
    let bind ← verifyBinding H doc o
    let fresh := verifyFreshness H doc o now
    return ([("debug_mode", verifyDebug doc), ("pcr_policy", pcr.1), ("pcr8_signing", pcr.2),
      ("key_binding", bind.1), ("public_key", bind.2), ("freshness", fresh.1)], fresh.2)
  else
    let c := NOT_CHECKED ("not evaluated: trust root, certificate chain and signature must all " ++
      "pass before claims are used")
    .ok ((REQUIRED.drop 4).map fun name => (name, c), o.ledger)

/-- The checks of a document that decodes. -/
def reportedChecks (a : Authentication) (claims : Checks) : Checks :=
  ("structure", check .pass "well_formed"
    "COSE_Sign1 ES384 with a well-formed attestation payload") ::
  ("trust_root", a.root.1) :: ("certificate_chain", a.chain) ::
  ("cose_signature", a.signature) :: claims

/-- What the verifier reports of a document that decodes. -/
def decodedReport (bundle : NitroTrustBundle) (o : VerifyNitroOptions) (raw : Bytes)
    (doc : Decoded) (a : Authentication) (claims : Checks) : NitroAttestationReport :=
  let checks := reportedChecks a claims
  let summary := overallOf checks REQUIRED
  { overallStatus := summary.1, documentSha256 := toHex (H.sha256 raw)
    trustBundle := { id := bundle.id, version := bundle.version, root := a.root.2 }
    policy := o.policy.map fun p => { id := p.id, version := p.version, source := p.source }
    claims := some {
      verified := a.verified, moduleId := doc.moduleId, timestampMs := doc.timestampMs
      pcrs := doc.pcrs.map fun e => (e.1, toHex e.2)
      publicKey := doc.publicKey.map toHex, userData := doc.userData.map toHex
      nonce := doc.nonce.map toHex }
    checks, reasons := summary.2 }

/-- Verify an attestation document. The ledger in the options is returned as it is afterwards. -/
def verifyNitroAttestation (raw : Bytes) (o : VerifyNitroOptions) :
    Except String (NitroAttestationReport × Option NonceLedger) :=
  let bundle := o.trustBundle.getD N.AWS_NITRO_TRUST_BUNDLE
  let now := o.now.getD N.dateNow
  match decodeDocument N H raw (o.maxBytes.getD (16 * 1024)) with
  | .error e => .ok (malformedReport H bundle o raw e, o.ledger)
  | .ok doc => do
    let authentication ← authenticate N H bundle o doc now
    let (claims, ledger) ← claimChecks H authentication.verified doc o now
    return (decodedReport H bundle o raw doc authentication claims, ledger)

end

end CoolSdk.Nitro
