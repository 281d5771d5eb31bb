import CoolSdk.Phala.AuditPack
import CoolSdk.Platform.Status
import CoolSdk.Platform.TimestampChain
import CoolSdk.Runtime.Date
import CoolSdk.Runtime.Doubles

/-!
# Results of the NVIDIA attestation service

A result lists an overall token and one token a GPU. The verifier parses all of them inside one
guard; the rest of it reads headers and claims, prints them and formats dates outside.
-/

namespace CoolSdk

/-- What the verifier calls, beside what every host has. -/
structure NvidiaHost (κ : Type) where
  /-- `JSON.parse`. -/
  jsonParse : String → Except String JsValue
  /-- `JSON.stringify` as a template prints it. -/
  jsonText : JsValue → String
  /-- `Buffer.from(text, "base64")`, which skips what is not base64. -/
  base64 : String → Bytes
  /-- `buffer.toString("utf8")`. -/
  utf8Text : Bytes → String
  /-- `text.toLowerCase()`. -/
  lower : String → String
  /-- `Date.now()`. -/
  dateNow : JsNumber
  /-- The pinned anchors of the package. -/
  NRAS_ANCHORS : List TsaTrustAnchor
  /-- `new X509Certificate(der)`. -/
  certificate : Bytes → Except String κ
  fingerprint256 : κ → String
  subject : κ → String
  /-- `Date.parse(c.validFrom)`. -/
  validFrom : κ → JsNumber
  /-- `Date.parse(c.validTo)`. -/
  validTo : κ → JsNumber
  /-- `c.checkIssued(d)`. -/
  checkIssued : κ → κ → Bool
  /-- `c.verify(d.publicKey)`; reading the key throws where it is of no supported kind. -/
  verify : κ → κ → Except String Bool
  /-- `x` and `y` of `c.publicKey.export({ format: "jwk" })`; keys that no JWK spells throw. -/
  exportJwk : κ → Except String (Option String × Option String)
  /-- ECDSA with SHA-384 under the key of a certificate: data, certificate and signature. -/
  cryptoVerify : Bytes → κ → Bytes → Except String Bool

/-- A key of the snapshot. -/
structure Jwk where
  kid : String
  x : Option String := none
  y : Option String := none
  x5c : Option (List String) := none
  deriving DecidableEq, Repr

structure VerifyNvidiaOptions where
  jwks : List Jwk
  expectedNonce : Option String := none
  anchors : Option (List TsaTrustAnchor) := none
  issuer : Option String := none
  expectedGpuCount : Option JsNumber := none
  cpuReportData : Option Bytes := none
  now : Option JsNumber := none
  clockSkewMs : Option JsNumber := none

structure NvidiaGpu where
  id : String
  hwmodel : Option String
  driverVersion : Option String
  vbiosVersion : Option String
  ueid : Option String
  deriving DecidableEq, Repr

structure NvidiaVerification where
  outcome : Outcome
  checks : Checks
  reasons : List String
  gpus : List NvidiaGpu
  issuedAt : Option String
  limitations : List String
  deriving DecidableEq, Repr

def NRAS_ISSUER : String := "https://nras.attestation.nvidia.com"

def NVIDIA_LIMITS : List String :=
  ["the GPU's raw SPDM evidence is appraised by NVIDIA's NRAS, not re-appraised here; " ++
      "CooL verifies NRAS's signed verdict",
    "NRAS signing keys are anchored at pinned NVIDIA intermediates; " ++
      "the CA 001 root is not published at a documented location",
    "OCSP status is as NRAS reported it at appraisal time"]

/-- A token, parsed. -/
structure Jwt where
  raw : String
  header : JsValue
  payload : JsValue
  payloadBytes : Bytes
  signingInput : Bytes
  signature : Bytes

/-- `payload[name]`; the payload is an object, so reading it does not throw. -/
def Jwt.claim (t : Jwt) (name : String) : JsValue :=
  match t.payload with
  | .object ms | .custom ms => JsValue.member ms name
  | _ => .undefined

/-- A claim that is a number. -/
def Jwt.numberClaim (t : Jwt) (name : String) : Option JsNumber :=
  match t.claim name with
  | .num n => some n
  | _ => none

/-- A claim that is a text. -/
def Jwt.textClaim (t : Jwt) (name : String) : Option String :=
  match t.claim name with
  | .str s => some s
  | _ => none

/-- `name in payload`, for a name that no prototype carries. -/
def Jwt.hasClaim (t : Jwt) (name : String) : Bool :=
  match t.payload with
  | .object ms | .custom ms => (Entries.get ms name).isSome
  | _ => false

/-- `text.includes(part)`. -/
def includes (text part : String) : Bool :=
  text.toList.tails.any fun rest => part.toList.isPrefixOf rest

def NOT (why : String) : Check := check .notChecked "prerequisite_failed" why

section

variable {κ : Type} (N : NvidiaHost κ) (H : Host)

/-! ## Parsing -/

def b64url (s : String) : Bytes :=
  N.base64 (String.ofList
    (s.toList.map fun c => if c = '-' then '+' else if c = '_' then '/' else c))

def parseJwt (raw : JsValue) : Except String Jwt :=
  match raw with
  | .str raw =>
    match raw.toList.splitOn '.' with
    | [head, body, tail] => do
      let head := String.ofList head
      let body := String.ofList body
      let header ← N.jsonParse (N.utf8Text (b64url N head))
      let payloadBytes := b64url N body
      let payload ← N.jsonParse (N.utf8Text payloadBytes)
      match payload with
      | .object _ | .custom _ | .bytes _ =>
        return {
          raw, header, payload, payloadBytes
          signingInput := utf8 (head ++ "." ++ body)
          signature := b64url N (String.ofList tail) }
      | _ => throw "token payload is not an object"
    | _ => .error "token is not a compact JWS"
  | _ => .error "token is not a string"

/-- `Object.entries` of what is an object, and none otherwise. -/
def detachedEntries : JsValue → JsValue.Members
  | .object ms | .custom ms => ms
  | .array xs => xs.zipIdx.map fun x => (toString x.2, x.1)
  | .bytes b => b.zipIdx.map fun x => (toString x.2, .num (.ofInt x.1.toNat))
  | _ => []

/-- The overall token and those of the GPUs, as the guard parses them. -/
def parseResult (result : JsValue) : Except String (Jwt × List (String × Jwt)) := do
  let arr ← match result with
    | .str text => N.jsonParse text
    | v => .ok v
  match arr with
  | .array (.array (.str "JWT" :: first) :: rest) => do
    let overall ← parseJwt N (first.headD .undefined)
    let gpuTokens ← (detachedEntries (rest.headD .undefined)).mapM fun e => do
      let token ← parseJwt N e.2
      return (e.1, token)
    if gpuTokens.isEmpty then throw "no per-GPU detached tokens"
    return (overall, gpuTokens)
  | _ => throw "expected [[\"JWT\", token], \x7b…\x7d]"

/-! ## Keys and signatures -/

/-- What the loop over the tokens has found. -/
structure TokenProblems where
  format : List String := []
  chain : List String := []
  signature : List String := []
  anchorNames : List String := []

/-- The first certificate that has issued a leaf. -/
def findIssuer (leaf : κ) : List κ → Except String (Option κ)
  | [] => .ok none
  | c :: rest =>
    if N.checkIssued leaf c then do
      let verified ← N.verify leaf c
      if verified then return some c else findIssuer leaf rest
    else findIssuer leaf rest

variable (o : VerifyNvidiaOptions)

def VerifyNvidiaOptions.clock : JsNumber := o.now.getD N.dateNow

def VerifyNvidiaOptions.skew : JsNumber := o.clockSkewMs.getD (.ofInt 60000)

/-- The anchors with their certificates. -/
def pinnedAnchors : Except String (List (String × κ)) :=
  (o.anchors.getD N.NRAS_ANCHORS).mapM fun a => do
    let cert ← N.certificate a.der
    return (a.name, cert)

/-- The key of the snapshot that a token names. -/
def jwkOf (kid : JsValue) : Option Jwk := o.jwks.find? fun k => (JsValue.str k.kid).strictEquals kid

/-- What is wrong with the chain of a signing certificate, or the anchor it chains to. -/
def judgeChain (anchors : List (String × κ)) (id : String) (t : Jwt) (leaf : κ)
    (issuer : Option κ) : Except String String :=
  match issuer with
  | none => .error (id ++ ": signing certificate is not issued by its x5c intermediate")
  | some issuer =>
    match anchors.find? fun a => N.fingerprint256 a.2 = N.fingerprint256 issuer with
    | none =>
      .error (id ++ ": intermediate \"" ++ (commonName? (N.subject issuer)).getD "undefined" ++
        "\" is not a pinned NRAS anchor")
    | some anchor =>
      let iat := ((t.numberClaim "iat").map JsNumber.thousandfold).getD (o.clock N)
      if iat.lt ((N.validFrom leaf).subRounded o.skew) ||
          ((N.validTo leaf).addRounded o.skew).lt iat then
        .error (id ++ ": token issued outside the signing certificate's validity")
      else .ok anchor.1

/-- The rest of the loop's body, for a leaf that parses. -/
def judgeLeaf (anchors : List (String × κ)) (found : TokenProblems) (id : String) (t : Jwt)
    (jwk : Jwk) (leaf : κ) (supplied : List κ) : Except String TokenProblems := do
  let issuer ← findIssuer N leaf (anchors.map Prod.snd ++ supplied)
  let found := match judgeChain N o anchors id t leaf issuer with
    | .error problem => { found with chain := found.chain ++ [problem] }
    | .ok name => if found.anchorNames.contains name then found
      else { found with anchorNames := found.anchorNames ++ [name] }
  let certJwk ← N.exportJwk leaf
  if jwk.x.any (· ≠ "") ∧ (certJwk.1 ≠ jwk.x ∨ certJwk.2 ≠ jwk.y) then
    return { found with
      chain := found.chain ++ [id ++ ": JWK x/y differ from the x5c certificate key"] }
  else
    match N.cryptoVerify t.signingInput leaf t.signature with
    | .ok true => return found
    | _ => return { found with
        signature := found.signature ++ [id ++ ": ES384 signature invalid"] }

/-- One turn of the loop over the tokens. -/
def judgeToken (anchors : List (String × κ)) (found : TokenProblems) (e : String × Jwt) :
    Except String TokenProblems := do
  let (id, t) := e
  let alg ← t.header.read "alg"
  if !alg.strictEquals (.str "ES384") then
    let text ← alg.toText H
    return { found with format := found.format ++ [id ++ ": alg " ++ text ++ " (expected ES384)"] }
  else
    let kid ← t.header.read "kid"
    match jwkOf o kid with
    | none =>
      let text ← kid.toText H
      return { found with
        format := found.format ++ [id ++ ": kid " ++ text ++ " is not in the JWKS snapshot"] }
    | some jwk =>
      match jwk.x5c.getD [] with
      | [] => return { found with chain := found.chain ++ [id ++ ": JWK has no x5c chain"] }
      | first :: rest =>
        match N.certificate (N.base64 first) with
        | .error _ =>
          return { found with chain := found.chain ++ [id ++ ": x5c leaf does not parse"] }
        | .ok leaf =>
          let supplied := rest.filterMap fun c => (N.certificate (N.base64 c)).toOption
          judgeLeaf N o anchors found id t jwk leaf supplied

def formatCheck (found : TokenProblems) (gpus : Nat) : Check :=
  if found.format.isEmpty then
    check .pass "well_formed" ("overall + " ++ toString gpus ++ " GPU token(s), ES384")
  else
    check .fail
      (if found.format.any (includes · "alg") then "unsupported_algorithm" else "unknown_key")
      ("; ".intercalate found.format)

def keyChainCheck (found : TokenProblems) : Check :=
  if !found.format.isEmpty then NOT "format"
  else if found.chain.isEmpty then
    check .pass "chain_valid"
      ("signing certificates chain to " ++ ", ".intercalate found.anchorNames)
  else
    check .fail
      (if found.chain.any (includes · "pinned") then "untrusted_root" else "chain_invalid")
      ("; ".intercalate found.chain)

def signaturesCheck (found : TokenProblems) (tokens : Nat) : Check :=
  if !found.format.isEmpty || !found.chain.isEmpty then NOT "key chain"
  else if found.signature.isEmpty then
    check .pass "signature_valid" (toString tokens ++ " token(s) verify")
  else check .fail "signature_invalid" ("; ".intercalate found.signature)

/-! ## Claims -/

def tokenFreshnessCheck (all : List (String × Jwt)) : Check :=
  let now := o.clock N
  let expired := all.filter fun e =>
    match e.2.numberClaim "exp" with
    | some exp => (exp.thousandfold.addRounded o.skew).lt now
    | none => true
  let future := all.filter fun e =>
    (e.2.numberClaim "iat").any fun iat => (now.addRounded o.skew).lt iat.thousandfold
  if !future.isEmpty then
    check .fail "issued_in_future"
      ("iat is in the future: " ++ ", ".intercalate (future.map Prod.fst))
  else if !expired.isEmpty then
    check .unknown "attestation_stale"
      ("expired or no exp: " ++ ", ".intercalate (expired.map Prod.fst))
  else check .pass "fresh" "every token is within its validity window"

/-- `String(payload["eat_nonce"] ?? "")`. -/
def eatNonceText (t : Jwt) : Except String String :=
  if (t.claim "eat_nonce").nullish then .ok "" else (t.claim "eat_nonce").toText H

def nonceCheck (nonces : List (String × String)) : Check :=
  match o.expectedNonce with
  | none =>
    check .unknown "no_nonce_policy"
      "no expected nonce supplied: replay of an old result cannot be excluded"
  | some expected =>
    let others := nonces.filter fun e => decide (N.lower e.2 ≠ N.lower expected)
    if others.isEmpty then check .pass "nonce_matches" expected
    else
      check .fail "nonce_mismatch" ("; ".intercalate (others.map fun e =>
        e.1 ++ ": " ++ (if e.2 = "" then "(none)" else e.2)))

def overallCheck (overall : Jwt) : Except String Check := do
  let iss := o.issuer.getD NRAS_ISSUER
  if !(overall.claim "iss").strictEquals (.str iss) then
    let text ← (overall.claim "iss").toText H
    return check .fail "wrong_issuer" ("iss " ++ text ++ " ≠ " ++ iss)
  else
    let verdict := overall.claim "x-nvidia-overall-att-result"
    return if verdict.strictEquals (.bool true) then
      check .pass "attestation_passed" "x-nvidia-overall-att-result = true"
    else
      check .fail "attestation_failed" ("x-nvidia-overall-att-result = " ++ N.jsonText verdict)

/-- `submods?.[id]`. -/
def submodEntry (overall : Jwt) (id : String) : JsValue :=
  ((overall.claim "submods").index id).toOption.getD .undefined

/-- The digest that a submods entry lists. -/
def submodDigest (overall : Jwt) (id : String) : Option JsValue :=
  match submodEntry overall id with
  | .array (.str "DIGEST" :: .array (.str "SHA256" :: rest) :: _) => some (rest.headD .undefined)
  | _ => none

/-- One turn of the loop over the submods, from the problems so far and the method. -/
def judgeSubmod (overall : Jwt) (found : List String × String) (e : String × Jwt) :
    Except String (List String × String) := do
  let digest ← match submodDigest overall e.1 with
    | some listed => do
      let text ← listed.toText H
      pure (N.lower text)
    | none => pure ""
  return if digest = "" then (found.1 ++ [e.1 ++ ": no SHA256 DIGEST entry in submods"], found.2)
  else if digest = toHex (H.sha256 (utf8 e.2.raw)) then
    (found.1, if found.2 = "" then "SHA-256 of the detached token" else found.2)
  else if digest = toHex (H.sha256 e.2.payloadBytes) then
    (found.1, if found.2 = "" then "SHA-256 of the detached claims" else found.2)
  else (found.1 ++ [e.1 ++ ": submods digest does not match the detached token"], found.2)

def submodsCheck (overall : Jwt) (gpuTokens : List (String × Jwt)) : Except String Check := do
  let (problems, method) ← gpuTokens.foldlM (judgeSubmod N H overall) ([], "")
  let count : JsNumber := .ofInt gpuTokens.length
  let others := o.expectedGpuCount.filter fun expected => !count.strictEq expected
  let problems := problems ++ others.toList.map fun expected =>
    "expected " ++ H.numberText expected ++ " GPU(s), got " ++ toString gpuTokens.length
  return if problems.isEmpty then
    check .pass "submods_bound"
      ("every GPU token is bound into the overall token (" ++ method ++ ")")
  else check .fail "submod_unbound" ("; ".intercalate problems)

def REQUIRED_TRUE : List String :=
  ["x-nvidia-gpu-arch-check", "x-nvidia-gpu-attestation-report-signature-verified",
    "x-nvidia-gpu-attestation-report-nonce-match"]

/-- What is wrong with the claims of a GPU. -/
def gpuProblems (id : String) (t : Jwt) : List String :=
  let text (name : String) := N.jsonText (t.claim name)
  (if (t.claim "measres").strictEquals (.str "success") then []
    else [id ++ ": measres " ++ text "measres"]) ++
  (REQUIRED_TRUE.filter fun c => t.hasClaim c && !(t.claim c).strictEquals (.bool true)).map
    (fun c => id ++ ": " ++ c ++ " = " ++ text c) ++
  (if t.hasClaim "dbgstat" && !(t.claim "dbgstat").strictEquals (.str "disabled") then
    [id ++ ": dbgstat " ++ text "dbgstat"] else []) ++
  (if t.hasClaim "secboot" && !(t.claim "secboot").strictEquals (.bool true) then
    [id ++ ": secboot " ++ text "secboot"] else [])

def gpuClaimsCheck (gpuTokens : List (String × Jwt)) : Check :=
  let problems := gpuTokens.flatMap fun e => gpuProblems N e.1 e.2
  if problems.isEmpty then
    check .pass "gpu_appraisal_passed"
      (toString gpuTokens.length ++ " GPU(s): measurements match NVIDIA's reference values")
  else check .fail "gpu_appraisal_failed" ("; ".intercalate problems)

/-- The nonce that binds a GPU result to the report of a CPU. -/
def cpuBindingNonce (cpuReportData : Bytes) : String :=
  toHex (H.sha256 (utf8 "cool.gpu-binding.v1" ++ [0] ++ cpuReportData))

def cpuBindingCheck : Check :=
  match o.cpuReportData with
  | none => check .notApplicable "no_cpu_report" "not bound to a CPU TEE report"
  | some report =>
    if o.expectedNonce.any fun nonce => N.lower nonce = cpuBindingNonce H report then
      check .pass "cpu_bound" "the NRAS nonce is the CooL binding nonce of the CPU report"
    else
      check .fail "cpu_binding_mismatch"
        "the NRAS nonce does not derive from the CPU report's REPORT_DATA"

def gpuOf (e : String × Jwt) : NvidiaGpu where
  id := e.1
  hwmodel := e.2.textClaim "hwmodel"
  driverVersion := e.2.textClaim "x-nvidia-gpu-driver-version"
  vbiosVersion := e.2.textClaim "x-nvidia-gpu-vbios-version"
  ueid := e.2.textClaim "ueid"

/-- When the overall token says that it was issued. -/
def issuedAt (overall : Jwt) : Except String (Option String) :=
  match overall.numberClaim "iat" with
  | some iat => (toISOString iat.thousandfold).map some
  | none => .ok none

/-! ## The verifier -/

def done (checks : Checks) (gpus : List NvidiaGpu) (issuedAt : Option String) :
    NvidiaVerification :=
  let (outcome, reasons) := classifyOutcome checks (checks.map Prod.fst)
  { outcome, checks, reasons, gpus, issuedAt, limitations := NVIDIA_LIMITS }

/-- What is answered where the guard has caught an error. -/
def malformedResult (message : String) : NvidiaVerification :=
  let c := check .fail "malformed" ("not an NRAS unified EAT result: " ++ message)
  done (("format", c) :: ["key_chain", "signatures", "freshness", "nonce", "overall_result",
    "submods", "gpu_claims", "cpu_binding"].map fun name => (name, NOT "format")) [] none

/-- The part of the verifier behind the guard. -/
def verifyTokens (overall : Jwt) (gpuTokens : List (String × Jwt)) :
    Except String NvidiaVerification := do
  let all := ("overall", overall) :: gpuTokens
  let anchors ← pinnedAnchors N o
  let found ← all.foldlM (judgeToken N H o anchors) {}
  let nonces ← all.mapM fun e => do
    let text ← eatNonceText H e.2
    return (e.1, text)
  let overallResult ← overallCheck N H o overall
  let submods ← submodsCheck N H o overall gpuTokens
  let iat ← issuedAt overall
  return done
    [("format", formatCheck found gpuTokens.length), ("key_chain", keyChainCheck found),
      ("signatures", signaturesCheck found all.length), ("freshness", tokenFreshnessCheck N o all),
      ("nonce", nonceCheck N o nonces), ("overall_result", overallResult), ("submods", submods),
      ("gpu_claims", gpuClaimsCheck N gpuTokens), ("cpu_binding", cpuBindingCheck N H o)]
    (gpuTokens.map gpuOf) iat

/-- Verify an NRAS attestation result. -/
def verifyNrasResult (result : JsValue) : Except String NvidiaVerification :=
  match parseResult N result with
  | .error message => .ok (malformedResult message)
  | .ok (overall, gpuTokens) => verifyTokens N H o overall gpuTokens

end

end CoolSdk
