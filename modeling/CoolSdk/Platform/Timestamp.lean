import CoolSdk.Phala.Anchor
import CoolSdk.Platform.DerFields
import CoolSdk.Platform.TimestampChain
import CoolSdk.Runtime.Date

/-!
# Timestamp tokens

A token is CMS SignedData around a TSTInfo, alone or inside a response with a status. The verifier
never throws: what does not parse, and what throws later, is a report of its own.
-/

namespace CoolSdk.Timestamp

/-- What the verifier of tokens calls beside `node:crypto`. -/
structure TimestampHost (κ : Type) extends NodeCrypto κ where
  /-- `new TextDecoder().decode(bytes)`. -/
  decodeText : Bytes → String
  /-- `String(n)`. -/
  numberText : JsNumber → String

namespace OID

def sha256 : String := "2.16.840.1.101.3.4.2.1"

def sha384 : String := "2.16.840.1.101.3.4.2.2"

def sha512 : String := "2.16.840.1.101.3.4.2.3"

def sha1 : String := "1.3.14.3.2.26"

def signedData : String := "1.2.840.113549.1.7.2"

def tstInfo : String := "1.2.840.113549.1.9.16.1.4"

def contentType : String := "1.2.840.113549.1.9.3"

def messageDigest : String := "1.2.840.113549.1.9.4"

def signingCertificate : String := "1.2.840.113549.1.9.16.2.12"

def signingCertificateV2 : String := "1.2.840.113549.1.9.16.2.47"

def rsassaPss : String := "1.2.840.113549.1.1.10"

def extKeyUsage : String := "2.5.29.37"

def timeStamping : String := "1.3.6.1.5.5.7.3.8"

/-- `rsaEncryption`, and with SHA-256, SHA-384 and SHA-512. -/
def rsa : List String :=
  ["1.2.840.113549.1.1.1", "1.2.840.113549.1.1.11", "1.2.840.113549.1.1.12",
    "1.2.840.113549.1.1.13"]

/-- ECDSA with SHA-256, SHA-384 and SHA-512. -/
def ec : List String := ["1.2.840.10045.4.3.2", "1.2.840.10045.4.3.3", "1.2.840.10045.4.3.4"]

end OID

def HASH_BY_OID (oid : String) : Option HashName :=
  if oid = OID.sha256 then some .sha256
  else if oid = OID.sha384 then some .sha384
  else if oid = OID.sha512 then some .sha512
  else if oid = OID.sha1 then some .sha1
  else none

def hashText : HashName → String
  | .sha256 => "sha256"
  | .sha384 => "sha384"
  | .sha512 => "sha512"
  | .sha1 => "sha1"

structure VerifyTimestampOptions where
  digest : Bytes
  trustAnchors : List TsaTrustAnchor
  nonce : Option String := none
  intermediates : List Bytes := []
  maxBytes : Option JsNumber := none

structure TimestampChecks where
  status : Check
  imprint : Check
  nonce : Check
  signedAttrs : Check
  signature : Check
  signerCertificate : Check
  chain : Check
  deriving DecidableEq, Repr

structure Tsa where
  subject : String
  fingerprint256 : String
  deriving DecidableEq, Repr

/-- What is reported beside the checks. -/
structure TimestampDetails where
  genTime : Option String := none
  serial : Option String := none
  policy : Option String := none
  tsa : Option Tsa := none
  anchor : Option String := none
  deriving DecidableEq, Repr

structure TimestampReport where
  outcome : Outcome
  checks : TimestampChecks
  reasons : List String
  details : TimestampDetails
  limitations : List String
  deriving DecidableEq, Repr

def NOT (r : String) : Check := check .notChecked "prerequisite_failed" r

def LIMITATIONS : List String :=
  ["revocation of the TSA certificate is not checked (no CRL/OCSP offline)",
    "the TSA is trusted for time only; the stamped digest says nothing about content"]

/-! ## Parsing -/

structure ParsedToken where
  statusValue : Option Nat
  signedData : DerNode
  tstInfoBytes : Bytes
  tstInfo : DerNode
  certs : List Bytes
  signerInfo : DerNode

/-- The token in a content info. -/
def parseContentInfo (statusValue : Option Nat) (contentInfo : DerNode) :
    Except DerError ParsedToken := do
  let contentType ← oidAt contentInfo 0 "contentType"
  if contentType ≠ OID.signedData then .error ⟨"timeStampToken is not CMS SignedData"⟩
  else do
    let content ← child contentInfo 1 "content"
    let content ← expectTag content 0xa0 "[0] content"
    let signedData ← childTagged content 0 TAG.SEQUENCE "SignedData"
    let version ← child signedData 0 "SignedData version"
    let version ← integerValue version
    if version ≠ 3 then
      .error ⟨"SignedData version must be 3 for id-ct-TSTInfo (RFC 5652 §5.1)"⟩
    else do
      let _ ← childTagged signedData 1 TAG.SET "digestAlgorithms"
      let encap ← childTagged signedData 2 TAG.SEQUENCE "encapContentInfo"
      let eContentType ← oidAt encap 0 "eContentType"
      if eContentType ≠ OID.tstInfo then .error ⟨"eContentType is not id-ct-TSTInfo"⟩
      else do
        let explicit ← child encap 1 "eContent"
        let explicit ← expectTag explicit 0xa0 "[0] eContent"
        let tstInfoBytes ← octets explicit 0 "eContent"
        let tstInfo ← parseDer tstInfoBytes
        let tstInfo ← expectTag tstInfo TAG.SEQUENCE "TSTInfo"
        let certificates := (signedData.children[3]?).filter fun c => decide (c.tag = 0xa0)
        let certs := ((certificates.map DerNode.children).getD []).filter fun c =>
          decide (c.tag = TAG.SEQUENCE)
        let i := if certificates.isSome then 4 else 3
        let i := if (signedData.children[i]?).any fun c => decide (c.tag = 0xa1) then i + 1 else i
        let signerInfos ← childTagged signedData i TAG.SET "signerInfos"
        match signerInfos.children with
        | [signerInfo] => do
          let signerInfo ← expectTag signerInfo TAG.SEQUENCE "SignerInfo"
          return { statusValue, signedData, tstInfoBytes, tstInfo
                   certs := certs.map DerNode.raw, signerInfo }
        | infos =>
          .error ⟨"expected exactly one SignerInfo, found " ++ toString infos.length⟩

/-- A response, or a bare token. -/
def parseToken (bytes : Bytes) : Except DerError ParsedToken := do
  let root ← parseDer bytes
  let root ← expectTag root TAG.SEQUENCE "TimeStampResp/ContentInfo"
  match root.children.head?.filter fun c => decide (c.tag = TAG.SEQUENCE) with
  | none => parseContentInfo none root
  | some statusInfo => do
    let statusValue ← child statusInfo 0 "PKIStatus"
    let statusValue ← integerValue statusValue
    match root.children[1]? with
    | none =>
      return { statusValue := some statusValue, signedData := root, tstInfoBytes := []
               tstInfo := root, certs := [], signerInfo := root }
    | some ci => do
      let contentInfo ← expectTag ci TAG.SEQUENCE "timeStampToken"
      parseContentInfo (some statusValue) contentInfo

/-- The parameters of an algorithm are absent or NULL. -/
def algParamsAbsentOrNull (alg : DerNode) : Except DerError Unit := do
  let alg ← expectTag alg TAG.SEQUENCE "AlgorithmIdentifier"
  if 2 < alg.children.length ∨ (alg.children[1]?).any fun parameters =>
      decide (parameters.tag ≠ TAG.NULL ∨ parameters.content.length ≠ 0) then
    .error ⟨"unexpected AlgorithmIdentifier parameters"⟩
  else return ()

/-- What is read of a TSTInfo. -/
structure TstInfo where
  policy : String
  hashAlgorithm : String
  hashedMessage : Bytes
  serial : String
  genTimeMs : Int
  nonce : Option String
  deriving DecidableEq, Repr

def readTstInfo (decodeText : Bytes → String) (t : DerNode) : Except DerError TstInfo := do
  let policy ← oidAt t 1 "policy"
  let imprint ← childTagged t 2 TAG.SEQUENCE "messageImprint"
  let algorithm ← childTagged imprint 0 TAG.SEQUENCE "hashAlgorithm"
  let hashAlgorithm ← oidAt algorithm 0 "hash OID"
  let hashedMessage ← octets imprint 1 "hashedMessage"
  let serial ← child t 3 "serialNumber"
  let serial ← integerBytes serial
  let genTime ← childTagged t 4 TAG.GENERALIZED_TIME "genTime"
  let genTimeMs ← decodeTime decodeText genTime
  let nonce ← ((t.children.drop 5).find? fun c => decide (c.tag = TAG.INTEGER)).mapM integerBytes
  return { policy, hashAlgorithm, hashedMessage, serial := toHex serial, genTimeMs
           nonce := nonce.map toHex }

/-- What is read of a SignerInfo. -/
structure SignerInfo where
  sid : DerNode
  digestAlg : String
  signedAttrs : DerNode
  sigAlg : String
  signature : Bytes

/-- The digest algorithms that the signed data lists. A token has them where it parses. -/
def listedDigests (p : ParsedToken) : Except DerError (List String) :=
  (((p.signedData.children[1]?).map DerNode.children).getD []).mapM fun a => do
    algParamsAbsentOrNull a
    oidAt a 0 "digestAlgorithm OID"

/-- The version that goes with a form of the identifier of a signer. -/
def sidVersion (sid : DerNode) : Option Nat :=
  if sid.tag = TAG.SEQUENCE then some 1 else if sid.tag = 0x80 then some 3 else none

def readSignerInfo (p : ParsedToken) : Except DerError SignerInfo := do
  let si := p.signerInfo
  let sid ← child si 1 "sid"
  let digestAlgorithm ← childTagged si 2 TAG.SEQUENCE "digestAlgorithm"
  let digestAlg ← oidAt digestAlgorithm 0 "digest OID"
  let signedAttrs ← childTagged si 3 0xa0 "signedAttrs"
  let sigAlgId ← childTagged si 4 TAG.SEQUENCE "signatureAlgorithm"
  let sigAlg ← oidAt sigAlgId 0 "signature OID"
  let signature ← octets si 5 "signature"
  let version ← child si 0 "SignerInfo version"
  let siVersion ← integerValue version
  if sidVersion sid ≠ some siVersion then
    .error ⟨"SignerInfo version does not match its sid form"⟩
  else do
    algParamsAbsentOrNull digestAlgorithm
    algParamsAbsentOrNull sigAlgId
    let listed ← listedDigests p
    if !listed.contains digestAlg then
      .error ⟨"SignedData.digestAlgorithms does not list the SignerInfo digest algorithm"⟩
    else return { sid, digestAlg, signedAttrs, sigAlg, signature }

/-- The signed attributes by type. -/
def readAttributes (signedAttrs : DerNode) : Except DerError (OrderedMap String DerNode) :=
  signedAttrs.children.foldlM (fun attrs a => do
    let id ← oidAt a 0 "attrType"
    if attrs.has id then .error ⟨"duplicate signed attribute " ++ id⟩
    else do
      let values ← childTagged a 1 TAG.SET "attrValues"
      return attrs.set id values) .empty

/-- The hash that the attributes name the certificate of the signer by, and its algorithm. -/
def signingCertificateHash (attrs : OrderedMap String DerNode) :
    Except DerError (Option (HashName × Bytes)) :=
  let v2 := attrs.get OID.signingCertificateV2
  match v2.or (attrs.get OID.signingCertificate) with
  | none => return none
  | some values => do
    let signing ← childTagged values 0 TAG.SEQUENCE "SigningCertificate"
    let essSeq ← childTagged signing 0 TAG.SEQUENCE "certs"
    let first ← childTagged essSeq 0 TAG.SEQUENCE "ESSCertID"
    if v2.isNone then do
      let certHash ← octets first 0 "certHash"
      return some (.sha1, certHash)
    else
      match first.children.head?.filter fun c => decide (c.tag = TAG.SEQUENCE) with
      | none => do
        let certHash ← octets first 0 "certHash"
        return some (.sha256, certHash)
      | some algorithm => do
        let oid ← oidAt algorithm 0 "ESS hash OID"
        match HASH_BY_OID oid with
        | none => .error ⟨"unsupported ESSCertIDv2 hash"⟩
        | some essHashAlg => do
          let certHash ← octets first 1 "certHash"
          return some (essHashAlg, certHash)

/-! ## Checks -/

def statusCheck (statusValue : Option Nat) : Check :=
  if statusValue.all (· ≤ 1) then
    check .pass "granted" (if statusValue = some 1 then "granted with modifications" else "granted")
  else
    check .fail "tsa_rejected"
      ("the TSA returned PKIStatus " ++ (statusValue.map toString).getD "null")

def imprintCheck (info : TstInfo) (digest : Bytes) : Check :=
  if info.hashAlgorithm ≠ OID.sha256 then
    check .fail "unsupported_algorithm"
      ("messageImprint uses " ++ info.hashAlgorithm ++ "; CooL stamps SHA-256 digests")
  else if info.hashedMessage = digest then
    check .pass "imprint_matches" ("the token stamps " ++ toHex digest)
  else check .fail "imprint_mismatch" "the token stamps a different digest"

/-- Hex in lower case without leading zeros. -/
def normHex (h : String) : String :=
  let digits := (Anchor.toLowerCase h).toList.dropWhile (· == '0')
  if digits = [] then "0" else String.ofList digits

def nonceCheck (tokenNonce expected : Option String) : Check :=
  match expected, tokenNonce with
  | none, some found =>
    check .notApplicable "no_nonce_expected"
      ("token nonce " ++ found ++ " not compared (none supplied)")
  | none, none => check .notApplicable "no_nonce_expected" "no nonce"
  | some expected, some found =>
    if normHex found = normHex expected then check .pass "nonce_matches" found
    else
      check .fail "nonce_mismatch"
        ("token nonce " ++ found ++ " ≠ request nonce " ++ expected)
  | some expected, none =>
    check .fail "nonce_mismatch" ("token nonce (none) ≠ request nonce " ++ expected)

/-- A hash function that signatures may use. -/
def acceptedHash (digestAlg : String) : Option HashName :=
  (HASH_BY_OID digestAlg).filter fun name => decide (name ≠ .sha1)

section

variable {κ : Type} (T : TimestampHost κ)

/-- Whether the attributes say that the content is a TSTInfo. -/
def contentTypeMatches (attrs : OrderedMap String DerNode) : Except DerError Bool :=
  match attrs.get OID.contentType with
  | none => return false
  | some ct => do
    let oid ← oidAt ct 0 "contentType"
    return decide (oid = OID.tstInfo)

/-- Whether the attributes have the digest of the TSTInfo. -/
def messageDigestMatches (attrs : OrderedMap String DerNode) (hashName : HashName)
    (tstInfoBytes : Bytes) : Except DerError Bool :=
  match attrs.get OID.messageDigest with
  | none => return false
  | some md => do
    let digest ← octets md 0 "messageDigest"
    return decide (digest = T.createHash hashName tstInfoBytes)

/-- The check of the signed attributes, from what is wrong with the certificate they name. -/
def signedAttrsCheck (si : SignerInfo) (attrs : OrderedMap String DerNode) (tstInfoBytes : Bytes)
    (essProblem : Option String) : Except DerError Check :=
  match acceptedHash si.digestAlg with
  | none =>
    return check .fail "unsupported_algorithm"
      ("SignerInfo digest algorithm " ++ si.digestAlg ++ " is not accepted")
  | some hashName => do
    let typed ← contentTypeMatches attrs
    if !typed then
      return check .fail "content_type_mismatch" "signed contentType is not id-ct-TSTInfo"
    else do
      let digested ← messageDigestMatches T attrs hashName tstInfoBytes
      if !digested then
        return check .fail "message_digest_mismatch"
          "the signed messageDigest does not match the TSTInfo — the token was altered"
      else
        match essProblem with
        | some problem => return check .fail "signer_certificate_unbound" problem
        | none =>
          return check .pass "attributes_bound" ("contentType, messageDigest (" ++
            hashText hashName ++ ") and signingCertificate" ++
            (if (attrs.get OID.signingCertificateV2).isSome then "V2" else "") ++ " are consistent")

/-- Whether the identifier of the signer names a certificate: by issuer and serial, or not at
all. -/
def sidMatches (sid : DerNode) (signerDer : Bytes) : Except DerError Bool :=
  if sid.tag = TAG.SEQUENCE then do
    let cert ← parseDer signerDer
    let tbs ← child cert 0 "tbsCertificate"
    let offset := if (tbs.children.head?).any fun c => decide (c.tag = 0xa0) then 1 else 0
    let serial ← child tbs offset "certificate serial"
    let certSerial ← integerBytes serial
    let certIssuer ← child tbs (offset + 2) "certificate issuer"
    let sidIssuer ← child sid 0 "sid issuer"
    if sidIssuer.raw ≠ certIssuer.raw then return false
    else do
      let sidSerial ← child sid 1 "sid serial"
      let sidSerial ← integerBytes sidSerial
      return decide (sidSerial = certSerial)
  else return true

/-- `subject.replace(/\n/g, ", ")`. -/
def oneLine (subject : String) : String :=
  ", ".intercalate ((subject.toList.splitOn '\n').map String.ofList)

/-- The check of the signature over the attributes, tagged as a SET. -/
def signatureCheck (si : SignerInfo) (signer : κ) : Check :=
  if si.sigAlg = OID.rsassaPss then
    check .fail "unsupported_algorithm" "RSASSA-PSS-signed tokens are not supported yet"
  else
    match (acceptedHash si.digestAlg).filter fun _ => (OID.rsa ++ OID.ec).contains si.sigAlg with
    | none =>
      check .fail "unsupported_algorithm"
        ("signature algorithm " ++ si.sigAlg ++ " is not accepted")
    | some hashName =>
      if T.cryptoVerify hashName (retagged TAG.SET si.signedAttrs) signer si.signature then
        check .pass "signature_valid" (hashText hashName ++ " " ++
          (if OID.rsa.contains si.sigAlg then "RSA" else "ECDSA") ++ " by " ++
          oneLine (T.subject signer))
      else
        check .fail "signature_invalid"
          "the TSA signature over the signed attributes does not verify"

/-- Whether a time is before or after the dates of a certificate. Nothing is, where they are
`NaN`. -/
def outside (time : Int) (c : κ) : Bool :=
  (T.validFrom c).any (fun validFrom => decide (time < validFrom)) ||
    (T.validTo c).any fun validTo => decide (validTo < time)

/-- The check of the certificate of the signer. -/
def signerCertificateCheck (exts : OrderedMap String Extension) (signer : κ) (genTimeMs : Int) :
    Except String Check :=
  match exts.get OID.extKeyUsage with
  | none =>
    return check .fail "not_a_tsa_certificate" "the signer certificate has no extendedKeyUsage"
  | some eku =>
    if !eku.critical then
      return check .fail "not_a_tsa_certificate"
        "extendedKeyUsage must be critical for a TSA certificate (RFC 3161 §2.3)"
    else if T.keyUsage signer ≠ [OID.timeStamping] then
      return check .fail "not_a_tsa_certificate"
        ("extendedKeyUsage must be exactly id-kp-timeStamping, got " ++
          ", ".intercalate (T.keyUsage signer))
    else if outside T genTimeMs signer then do
      let genTime ← toISOString (.ofInt genTimeMs)
      return check .fail "certificate_expired"
        ("genTime " ++ genTime ++ " is outside the TSA certificate validity")
    else
      return check .pass "tsa_certificate" "timeStamping-only EKU (critical), valid at genTime"

/-! ## The verifier -/

def TimestampChecks.named (checks : TimestampChecks) : Checks :=
  [("status", checks.status), ("imprint", checks.imprint), ("nonce", checks.nonce),
    ("signed_attrs", checks.signedAttrs), ("signature", checks.signature),
    ("signer_certificate", checks.signerCertificate), ("chain", checks.chain)]

def finish (checks : TimestampChecks) (details : TimestampDetails) : TimestampReport :=
  let classified := classifyOutcome checks.named ["status", "imprint", "nonce", "signed_attrs",
    "signature", "signer_certificate", "chain"]
  { outcome := classified.1, checks, reasons := classified.2, details, limitations := LIMITATIONS }

/-- A computation over elements, with the text of its error. -/
def ofDer {α : Type} (x : Except DerError α) : Except String α := x.mapError DerError.message

/-- The certificates that a signer and its issuers are looked for in. -/
def poolOf (p : ParsedToken) (o : VerifyTimestampOptions) : List Bytes := p.certs ++ o.intermediates

/-- The first certificate with the hash that the attributes name. -/
def findSigner (pool : List Bytes) (named : Option (HashName × Bytes)) : Option Bytes :=
  named.bind fun name => pool.find? fun c => decide (T.createHash name.1 c = name.2)

/-- What is wrong where no certificate is found. -/
def essProblemOf (named : Option (HashName × Bytes)) (signerDer : Option Bytes) : Option String :=
  match named, signerDer with
  | none, _ =>
    some "signingCertificate(V2) attribute is missing (RFC 5816 / RFC 3161 §2.4.1)"
  | some _, none => some "no supplied certificate matches the signingCertificate hash"
  | some _, some _ => none

/-- The rest of `verifyParsed`, from the certificate of the signer. -/
def verifySigner (p : ParsedToken) (o : VerifyTimestampOptions) (info : TstInfo) (si : SignerInfo)
    (signedAttrs : Check) (signerDer : Bytes) : Except String TimestampReport := do
  let signer ← T.certificate signerDer
  let sameSid ← ofDer (sidMatches si.sid signerDer)
  let signedAttrs := if sameSid then signedAttrs else
    check .fail "signer_identifier_mismatch" ("SignerInfo sid (issuer and serial) does not name " ++
      "the certificate bound by signingCertificate")
  let exts ← ofDer (certificateExtensions signerDer)
  let signerCertificate ← signerCertificateCheck T exts signer info.genTimeMs
  let pool ← (poolOf p o).mapM T.certificate
  let (chain, anchor) ← T.buildChain signer pool o.trustAnchors info.genTimeMs
  let genTime ← toISOString (.ofInt info.genTimeMs)
  return finish
    { status := statusCheck p.statusValue, imprint := imprintCheck info o.digest
      nonce := nonceCheck info.nonce o.nonce, signedAttrs
      signature := signatureCheck T si signer, signerCertificate, chain }
    { genTime := some genTime, serial := some info.serial, policy := some info.policy
      tsa := some { subject := oneLine (T.subject signer), fingerprint256 := T.fp256 signerDer }
      anchor := anchor.filter fun name => decide (name ≠ "") }

def verifyParsed (p : ParsedToken) (o : VerifyTimestampOptions) : Except String TimestampReport :=
  let status := statusCheck p.statusValue
  if status.status ≠ .pass then
    let skipped := NOT "TSA rejected"
    return finish
      { status, imprint := skipped, nonce := skipped, signedAttrs := skipped, signature := skipped
        signerCertificate := skipped, chain := skipped } {}
  else do
    let info ← ofDer (readTstInfo T.decodeText p.tstInfo)
    let si ← ofDer (readSignerInfo p)
    let attrs ← ofDer (readAttributes si.signedAttrs)
    let named ← ofDer (signingCertificateHash attrs)
    let signerDer := findSigner T (poolOf p o) named
    let signedAttrs ← ofDer
      (signedAttrsCheck T si attrs p.tstInfoBytes (essProblemOf named signerDer))
    match signerDer with
    | none => do
      let genTime ← toISOString (.ofInt info.genTimeMs)
      let skipped := NOT "signer certificate not found"
      return finish
        { status, imprint := imprintCheck info o.digest, nonce := nonceCheck info.nonce o.nonce
          signedAttrs, signature := skipped, signerCertificate := skipped, chain := skipped }
        { genTime := some genTime, serial := some info.serial, policy := some info.policy }
    | some signerDer => verifySigner T p o info si signedAttrs signerDer

/-- A token that is not too large, parsed. -/
def parseWithin (token : Bytes) (maxBytes : Option JsNumber) : Except DerError ParsedToken :=
  let limit := maxBytes.getD (.ofInt 65536)
  if limit.lt (.ofInt token.length) then
    .error ⟨"token is " ++ toString token.length ++ " bytes, above the " ++ T.numberText limit ++
      "-byte limit"⟩
  else parseToken token

/-- The report of a token that is malformed, with why the other checks are not made. -/
def malformedReport (detail why : String) : TimestampReport :=
  { outcome := .invalid
    checks := { status := check .fail "malformed" detail, imprint := NOT why, nonce := NOT why
                signedAttrs := NOT why, signature := NOT why, signerCertificate := NOT why
                chain := NOT why }
    reasons := ["status: malformed"], details := {}, limitations := LIMITATIONS }

/-- Verify a token offline. -/
def verifyTimestampToken (token : Bytes) (o : VerifyTimestampOptions) : TimestampReport :=
  match parseWithin T token o.maxBytes with
  | .error e =>
    malformedReport ("not a parseable RFC 3161 token: " ++ e.message) "token did not parse"
  | .ok parsed =>
    match verifyParsed T parsed o with
    | .error message =>
      malformedReport ("token structure is invalid: " ++ message) "structure invalid"
    | .ok report => report

end

end CoolSdk.Timestamp
