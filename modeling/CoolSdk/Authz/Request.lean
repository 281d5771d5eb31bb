import CoolSdk.Authz.Execution
import CoolSdk.Authz.Signed
import CoolSdk.Runtime.Date

/-!
# Authorization requests

A request binds the exact action and target. Its parameters and context are not in it,
only commitments: a salted digest, or a keyed one, of the canonical encoding of the
normalized value. The plaintext and the salt travel to the enforcement boundary, which
recomputes the commitment.
-/

namespace CoolSdk

/-- How a request commits to its parameters and context. -/
inductive CommitmentScheme
  | saltedSha256
  | hmacSha256
  deriving DecidableEq, Repr

/-- The wire text of a scheme. -/
def CommitmentScheme.text : CommitmentScheme → String
  | saltedSha256 => "salted-sha-256"
  | hmacSha256 => "hmac-sha-256"

/-- The publishable request. -/
structure AuthorizationRequest where
  schema : String := "cool.authz-request.v1"
  requestId : String
  principal : String
  action : String
  resource : String
  audience : String
  policySelector : String
  paramsCommitment : Multihash
  contextCommitment : Multihash
  commitmentScheme : CommitmentScheme
  nonce : String
  issuedAt : String
  expiresAt : String
  delegation : Option String := none
  execution : Option ExecutionContext := none
  deriving DecidableEq, Repr

instance : ToJs AuthorizationRequest where
  toJs r := .object [("schema", .str r.schema), ("request_id", .str r.requestId),
    ("principal", .str r.principal), ("action", .str r.action), ("resource", .str r.resource),
    ("audience", .str r.audience), ("policy_selector", .str r.policySelector),
    ("params_commitment", .str r.paramsCommitment),
    ("context_commitment", .str r.contextCommitment),
    ("commitment_scheme", .str r.commitmentScheme.text), ("nonce", .str r.nonce),
    ("issued_at", .str r.issuedAt), ("expires_at", .str r.expiresAt),
    ("delegation", optional .str r.delegation), ("execution", optional toJs r.execution)]

section

variable (H : Host)

mutual

/-- Normalize a value, or refuse it with the path of what cannot be committed. -/
def normalize : JsValue → String → Except String JsValue
  | .null, _ => .ok .null
  | .str s, _ => .ok (.str (H.nfc s))
  | .bool b, _ => .ok (.bool b)
  | .num n, path =>
    if n.isSafeInteger then .ok (.num n)
    else .error (path ++ ": " ++ H.numberText n ++
      " is not a safe integer; send decimals as strings")
  | .bytes b, _ => .ok (.bytes b)
  | .array xs, path => do
    let out ← normalizeItems xs path 0
    .ok (.array out)
  | .object ms, path => do
    let out ← normalizeMembers ms path []
    .ok (.object out)
  | v, path => .error (path ++ ": " ++ v.typeOf ++ " values cannot be committed")

/-- `value.map((v, i) => normalize(v, path[i]))`. -/
def normalizeItems : List JsValue → String → Nat → Except String (List JsValue)
  | [], _, _ => .ok []
  | x :: xs, path, i => do
    let y ← normalize x (path ++ "[" ++ toString i ++ "]")
    let ys ← normalizeItems xs path (i + 1)
    .ok (y :: ys)

/-- The loop of `normalize` over `Object.entries`. -/
def normalizeMembers :
    JsValue.Members → String → JsValue.Members → Except String JsValue.Members
  | [], _, out => .ok out
  | (k, v) :: ms, path, out =>
    if v.isUndefined then normalizeMembers ms path out
    else do
      let n ← normalize v (path ++ "." ++ k)
      normalizeMembers ms path (JsValue.assign out (H.nfc k) n)

end

/-- What a commitment is to. -/
inductive CommitmentKind
  | params
  | context
  deriving DecidableEq, Repr

/-- The domain label of a commitment. -/
def CommitmentKind.domain : CommitmentKind → String
  | params => "cool.authz.params.v1\x00"
  | context => "cool.authz.context.v1\x00"

/-- The bytes a commitment is the digest of: label, salt and encoded normal form. -/
def commitmentBody (kind : CommitmentKind) (value : JsValue) (salt : String) :
    Except String Bytes := do
  let saltBytes ← fromHex salt
  let normal ← normalize H value "$"
  let encoded ← H.canonicalCbor normal
  .ok (utf8 kind.domain ++ (saltBytes ++ encoded))

/-- Commit to a value: salted SHA-256, or HMAC-SHA-256 under a tenant key. -/
def commitValue (kind : CommitmentKind) (value : JsValue) (salt : String) (key : Option Bytes) :
    Except String Multihash := do
  let body ← commitmentBody H kind value salt
  match key with
  | some key => multihashFromDigest (H.hmacSha256 key body)
  | none => .ok (mhSha256 H body)

/-- What a caller asks to have requested. -/
structure RequestInput where
  principal : String
  action : String
  resource : String
  audience : String
  policySelector : String
  params : JsValue
  context : JsValue := .object []
  delegation : Option String := none
  execution : Option ExecutionContext := none
  ttlMs : JsNumber := .ofInt 300000
  now : JsNumber
  requestId : Option String := none
  nonce : Option String := none
  commitmentKey : Option Bytes := none

/-- The random bytes drawn for a request. -/
structure RequestRandom where
  paramsSalt : Bytes
  contextSalt : Bytes
  requestId : Bytes
  nonce : Bytes

/-- What stays with the requester and the enforcement boundary. -/
structure RequestSecrets where
  params : JsValue
  paramsSalt : String
  context : JsValue
  contextSalt : String

/-- Build the publishable request and the private secrets. -/
def createAuthorizationRequest (input : RequestInput) (random : RequestRandom) :
    Except String (AuthorizationRequest × RequestSecrets) := do
  let paramsSalt := toHex random.paramsSalt
  let contextSalt := toHex random.contextSalt
  let paramsCommitment ← commitValue H .params input.params paramsSalt input.commitmentKey
  let contextCommitment ← commitValue H .context input.context contextSalt input.commitmentKey
  let issuedAt ← toISOString input.now
  let expiresAt ← toISOString (input.now.add input.ttlMs)
  .ok (
    { requestId := input.requestId.getD ("req_" ++ toHex random.requestId)
      principal := input.principal
      action := H.nfc input.action
      resource := H.nfc input.resource
      audience := input.audience
      policySelector := input.policySelector
      paramsCommitment
      contextCommitment
      commitmentScheme := if input.commitmentKey.isSome then .hmacSha256 else .saltedSha256
      nonce := input.nonce.getD (toHex random.nonce)
      issuedAt
      expiresAt
      delegation := input.delegation
      execution := input.execution },
    { params := input.params, paramsSalt, context := input.context, contextSalt })

/-- The digest of a request. -/
def requestDigest (r : AuthorizationRequest) : Except String Multihash :=
  digestOf H "cool.authz-request.v1" (toJs r)

/-- Whether a plaintext matches a stated commitment; an error is a mismatch. -/
def commitmentMatches (kind : CommitmentKind) (commitment : Multihash) (value : JsValue)
    (salt : String) (key : Option Bytes) : Bool :=
  match commitValue H kind value salt key with
  | .ok m => decide (m = commitment)
  | .error _ => false

/-- The parameter-substitution check. -/
def paramsMatch (r : AuthorizationRequest) (params : JsValue) (salt : String)
    (key : Option Bytes) : Bool :=
  commitmentMatches H .params r.paramsCommitment params salt key

/-- The same check for the context. -/
def contextMatches (r : AuthorizationRequest) (context : JsValue) (salt : String)
    (key : Option Bytes) : Bool :=
  commitmentMatches H .context r.contextCommitment context salt key

/-- A match recomputes the stated commitment. -/
theorem commitmentMatches_iff (kind : CommitmentKind) (commitment : Multihash) (value : JsValue)
    (salt : String) (key : Option Bytes) :
    commitmentMatches H kind commitment value salt key = true ↔
      commitValue H kind value salt key = .ok commitment := by
  unfold commitmentMatches
  cases commitValue H kind value salt key with
  | error err => simp only [Bool.false_eq_true, reduceCtorEq]
  | ok m => simp only [decide_eq_true_eq, Except.ok.injEq]

/-- The secrets of a created request are its input under the drawn salts. -/
theorem secrets_of_create {input : RequestInput} {random : RequestRandom}
    {r : AuthorizationRequest} {secrets : RequestSecrets}
    (h : createAuthorizationRequest H input random = .ok (r, secrets)) :
    secrets.params = input.params ∧ secrets.paramsSalt = toHex random.paramsSalt := by
  unfold createAuthorizationRequest at h
  obtain ⟨params, _, h⟩ := bind_eq_ok.mp h
  obtain ⟨context, _, h⟩ := bind_eq_ok.mp h
  obtain ⟨issuedAt, _, h⟩ := bind_eq_ok.mp h
  obtain ⟨expiresAt, _, h⟩ := bind_eq_ok.mp h
  cases h
  exact ⟨rfl, rfl⟩

/-- A created request commits to its parameters and its context under the secret salts. -/
theorem commitments_of_create {input : RequestInput} {random : RequestRandom}
    {r : AuthorizationRequest} {secrets : RequestSecrets}
    (h : createAuthorizationRequest H input random = .ok (r, secrets)) :
    paramsMatch H r secrets.params secrets.paramsSalt input.commitmentKey = true ∧
      contextMatches H r secrets.context secrets.contextSalt input.commitmentKey = true := by
  unfold createAuthorizationRequest at h
  obtain ⟨params, hparams, h⟩ := bind_eq_ok.mp h
  obtain ⟨context, hcontext, h⟩ := bind_eq_ok.mp h
  obtain ⟨issuedAt, _, h⟩ := bind_eq_ok.mp h
  obtain ⟨expiresAt, _, h⟩ := bind_eq_ok.mp h
  cases h
  exact ⟨(commitmentMatches_iff H _ _ _ _ _).mpr hparams,
    (commitmentMatches_iff H _ _ _ _ _).mpr hcontext⟩

end

end CoolSdk
