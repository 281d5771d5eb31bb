import CoolSdk.Authz.Decision
import CoolSdk.Authz.Replay

/-!
# The tool gateway

The gateway owns the execution of the tools registered with it. `invoke` runs up to the
nonce store without a pause, waits for its answer, runs the tool, waits for that answer
and signs a confirmation of what happened. Its three parts are separate definitions, so
that other invocations can run between them; `invoke` strings them together.
-/

namespace CoolSdk

/-- What a confirmation reports. -/
inductive ConfirmationOutcome
  | completed
  | rejected
  | failed
  deriving DecidableEq, Repr

/-- The wire text of a confirmation outcome. -/
def ConfirmationOutcome.text : ConfirmationOutcome → String
  | completed => "completed"
  | rejected => "rejected"
  | failed => "failed"

/-- The body of a confirmation. -/
structure ExternalConfirmation where
  schema : String := "cool.external-confirmation.v1"
  confirmationId : String
  target : String
  tool : String
  requestId : String
  requestDigest : Multihash
  decisionId : Option String := none
  outcome : ConfirmationOutcome
  reason : String
  responseDigest : Option Multihash := none
  externalRef : Option String := none
  confirmedAt : String
  deriving DecidableEq, Repr

instance : ToJs ExternalConfirmation where
  toJs c := .object [("schema", .str c.schema), ("confirmation_id", .str c.confirmationId),
    ("target", .str c.target), ("tool", .str c.tool), ("request_id", .str c.requestId),
    ("request_digest", .str c.requestDigest), ("decision_id", optional .str c.decisionId),
    ("outcome", .str c.outcome.text), ("reason", .str c.reason),
    ("response_digest", optional .str c.responseDigest),
    ("external_ref", optional .str c.externalRef), ("confirmed_at", .str c.confirmedAt)]

/-- What a registered tool is for. What it does is outside the model: a run supplies what
`execute` answers. -/
structure ToolDefinition where
  action : String
  /-- An exact id, or a prefix ending in `*`. -/
  resource : String
  deriving DecidableEq, Repr

/-- What a tool answers when it does not throw. -/
structure ToolOutput where
  response : JsValue
  externalRef : Option String := none

/-- What was thrown, by what its `message` reads as. -/
inductive Thrown
  /-- Reading it throws: what was thrown is `null` or `undefined`, or has an accessor that
  throws. -/
  | unreadable (fault : String)
  /-- It reads as a value, `undefined` where there is no such property. -/
  | message (value : JsValue)
  /-- It reads as an object with a `slice` of its own, which answers a text or throws. -/
  | sliced (answer : Except String String)

/-- A gateway: its options and the tools registered with it. -/
structure ToolGateway where
  id : String
  audience : String
  /-- Signs confirmations. -/
  key : KeyPair
  trust : TrustStore
  directory : Option PrincipalDirectory := none
  roots : Option (List String) := none
  tools : OrderedMap String ToolDefinition

/-- What a gateway reads from its callbacks when an invocation starts. -/
structure Surroundings where
  now : JsNumber
  /-- `revokedDelegations`, absent when there is no callback. -/
  revokedDelegations : Option (List String) := none
  /-- The workload that is executing tools right now, as far as it is known. -/
  observedExecution : Option ExecutionContext := none

/-- A call for a protected tool. -/
structure Invocation where
  tool : String
  request : AuthorizationRequest
  params : JsValue
  paramsSalt : String
  decision : Signed AuthorizationDecision
  delegation : Option (List (Signed Delegation)) := none
  policy : Option PolicyDocument := none
  facts : Option Facts := none
  commitmentKey : Option Bytes := none

/-- What an invocation answers. -/
structure InvocationResult where
  confirmation : Signed ExternalConfirmation
  decisionReport : Option DecisionReport := none
  response : Option JsValue := none

/-- The clock and the random bytes read for one confirmation. -/
structure Stamp where
  now : JsNumber
  random : Bytes

/-- Where the synchronous part of an invocation ends. -/
inductive Screened
  | reject (reason : String) (report : Option DecisionReport)
  /-- Nothing stands in the way: the nonce is to be consumed. -/
  | consume (tool : ToolDefinition) (report : DecisionReport)

/-- Where an invocation goes once the nonce store has answered. -/
inductive Released
  | reject (reason : String)
  | execute
  deriving DecidableEq, Repr

namespace ToolGateway

/-- What the gateway verifies a chain against at a moment. -/
def chainOptions (gw : ToolGateway) (env : Surroundings) (directory : PrincipalDirectory)
    (at_ : JsNumber) : ChainOptions :=
  { directory
    roots := gw.roots.getD []
    at_
    revoked := some (env.revokedDelegations.getD []) }

/-- Register a tool under a new name. -/
def register (gw : ToolGateway) (name : String) (tool : ToolDefinition) :
    Except String ToolGateway :=
  if gw.tools.has name then .error ("tool " ++ name ++ " is already registered")
  else .ok { gw with tools := gw.tools.set name tool }

/-- `params["amount"]` when it is a number. -/
def amountOf : JsValue → Except String (Option JsNumber)
  | .null => .error "Cannot read properties of null (reading 'amount')"
  | .undefined => .error "Cannot read properties of undefined (reading 'amount')"
  | .object ms | .custom ms =>
    .ok (match Entries.get ms "amount" with
      | some (.num n) => some n
      | _ => none)
  | _ => .ok none

/-- Whether a check stands in the way at the boundary: everything that did not pass, except
what does not apply and the replay inputs the caller chose not to send. -/
def blocks (name : String) (c : Check) : Bool :=
  decide (c.status = .fail) ||
    (decide (c.status ≠ .pass) && decide (c.status ≠ .notApplicable) &&
      !(["policy_binding", "reproduced"].contains name && decide (c.status = .notChecked)))

section

variable (H : Host)

/-- `(err as Error).message.slice(0, 120)` as a template literal shows it. -/
def messageSlice : Thrown → Except String String
  | .unreadable fault => .error fault
  | .message .undefined => .error "Cannot read properties of undefined (reading 'slice')"
  | .message .null => .error "Cannot read properties of null (reading 'slice')"
  | .message (.str s) => .ok (slice 120 s)
  | .message (.bytes b) => H.textOf (.bytes (b.take 120))
  | .message (.array xs) => H.textOf (.array (xs.take 120))
  | .message _ => .error "err.message.slice is not a function"
  | .sliced answer => answer

/-- What the gateway hands to `verifyDecision`. -/
def decisionOptions (gw : ToolGateway) (env : Surroundings) (inv : Invocation)
    (amount : Option JsNumber) : VerifyDecisionOptions :=
  { request := inv.request
    trust := gw.trust
    mode := .enforcement
    now := env.now
    policy := inv.policy
    facts := inv.facts
    directory := gw.directory
    delegation := inv.delegation.map fun chain =>
      { chain
        roots := gw.roots.getD []
        revoked := some (env.revokedDelegations.getD [])
        amount } }

/-- The part of `invoke` after the decision has been verified. -/
def screenReport (env : Surroundings) (inv : Invocation) (tool : ToolDefinition)
    (report : DecisionReport) : Screened :=
  match report.checks.entries.find? fun e => blocks e.1 e.2 with
  | some (name, c) =>
    .reject ("decision_not_acceptable:" ++ name ++ ":" ++ c.reason) (some report)
  | none =>
    if (nonEmpty inv.request.delegation).isSome ∧ report.checks.delegation.status ≠ .pass then
      .reject "delegation_not_verified" (some report)
    else if report.decision ≠ .permit then
      .reject ("decision_" ++ report.decision.text) (some report)
    else
      let exec := compareExecution inv.request.execution env.observedExecution
      if exec.status = .fail ∨ exec.status = .unknown then .reject exec.reason (some report)
      else .consume tool report

/-- The part of `invoke` before it consumes the nonce. -/
def screen (gw : ToolGateway) (env : Surroundings) (inv : Invocation) :
    Except String Screened :=
  let r := inv.request
  match gw.tools.get inv.tool with
  | none => .ok (.reject "unknown_tool" none)
  | some tool =>
    if tool.action ≠ r.action ∨ covers tool.resource r.resource = false then
      .ok (.reject "tool_action_mismatch" none)
    else if r.audience ≠ gw.audience then .ok (.reject "wrong_audience" none)
    else if paramsMatch H r inv.params inv.paramsSalt inv.commitmentKey = false then
      .ok (.reject "parameter_mismatch" none)
    else do
      let amount ← amountOf inv.params
      let report ← verifyDecision H inv.decision (gw.decisionOptions env inv amount)
      .ok (screenReport env inv tool report)

/-- The part of `invoke` between the store's answer and the tool. -/
def release : ConsumeResult → Released
  | .consumed => .execute
  | .replayed => .reject "replayed"
  | .unavailable => .reject "replay_store_unavailable"

/-- Sign a confirmation. -/
def confirm (gw : ToolGateway) (inv : Invocation) (outcome : ConfirmationOutcome)
    (reason : String) (responseDigest : Option Multihash) (externalRef : Option String)
    (stamp : Stamp) : Except String (Signed ExternalConfirmation) := do
  let requestDigest ← requestDigest H inv.request
  let confirmedAt ← toISOString stamp.now
  signObject H "cool.external-confirmation.v1"
    ({ confirmationId := "conf_" ++ toHex stamp.random
       target := gw.id
       tool := inv.tool
       requestId := inv.request.requestId
       requestDigest
       decisionId := some inv.decision.body.decisionId
       outcome
       reason
       responseDigest
       externalRef
       confirmedAt } : ExternalConfirmation) gw.key

/-- Confirm that a tool did not run. -/
def reject (gw : ToolGateway) (inv : Invocation) (reason : String)
    (report : Option DecisionReport) (stamp : Stamp) : Except String InvocationResult := do
  let confirmation ← gw.confirm H inv .rejected reason none none stamp
  .ok { confirmation, decisionReport := report }

/-- The digest of a response. -/
def responseDigest (response : JsValue) : Except String Multihash := do
  let clone ← H.jsonClone (match response with
    | .undefined => .null
    | v => v)
  let bytes ← H.canonicalCbor clone
  .ok (mhSha256 H bytes)

/-- Confirm what a tool answered. -/
def complete (gw : ToolGateway) (inv : Invocation) (report : DecisionReport) (out : ToolOutput)
    (stamp : Stamp) : Except String InvocationResult := do
  let digest ← responseDigest H out.response
  let confirmation ← gw.confirm H inv .completed "executed" (some digest)
    (nonEmpty out.externalRef) stamp
  .ok { confirmation, decisionReport := some report, response := some out.response }

/-- The part of `invoke` after the tool has answered; whatever fails on the way to a
`completed` confirmation is confirmed as a failure of the tool. -/
def settle (gw : ToolGateway) (inv : Invocation) (report : DecisionReport)
    (answer : Except Thrown ToolOutput) (stamp failure : Stamp) : Except String InvocationResult :=
  match (do
    let out ← answer
    (gw.complete H inv report out stamp).mapError fun err => Thrown.message (.str err)) with
  | .ok result => .ok result
  | .error err => do
    let text ← messageSlice H err
    let confirmation ← gw.confirm H inv .failed ("tool_error:" ++ text) none none failure
    .ok { confirmation, decisionReport := some report }

/-- A call of a tool's `execute`. -/
structure ToolCall where
  tool : ToolDefinition
  params : JsValue

/-- What an invocation waits for, and what its confirmations read. -/
structure Answers where
  /-- The answer of the nonce store, or what it throws. -/
  consume : Except String ConsumeResult
  /-- The answer of the tool, or what it throws. -/
  execute : Except Thrown ToolOutput
  stamp : Stamp
  /-- The stamp of the confirmation of a failure. -/
  failure : Stamp

/-- The tool call an invocation made, if any, and what it answered or threw. -/
structure InvokeRun where
  called : Option ToolCall
  result : Except String InvocationResult

/-- The whole of `invoke`. -/
def invoke (gw : ToolGateway) (env : Surroundings) (inv : Invocation) (answers : Answers) :
    InvokeRun :=
  match gw.screen H env inv with
  | .error err => { called := none, result := .error err }
  | .ok (.reject reason report) =>
    { called := none, result := gw.reject H inv reason report answers.stamp }
  | .ok (.consume tool report) =>
    match answers.consume with
    | .error err => { called := none, result := .error err }
    | .ok answer =>
      match release answer with
      | .reject reason =>
        { called := none, result := gw.reject H inv reason (some report) answers.stamp }
      | .execute =>
        { called := some { tool, params := inv.params }
          result := gw.settle H inv report answers.execute answers.stamp answers.failure }

end

end ToolGateway

end CoolSdk
