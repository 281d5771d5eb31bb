import CoolSdk.Authz.Gateway

/-!
# Invocations in progress

An invocation that waits: for its continuation to run after the store's answer, or for its
tool. What it does when it goes on is a function of the task alone, whichever store it
asked. A task whose nonce was consumed holds a claim, which going on turns into the one
execution it makes.
-/

namespace CoolSdk

/-- How far an invocation has come. -/
inductive Stage
  /-- The store has answered and the continuation is queued. -/
  | consuming (tool : ToolDefinition) (report : DecisionReport) (answer : ConsumeResult)
  /-- The tool is running. -/
  | executing (report : DecisionReport)
  /-- The invocation has answered or thrown. -/
  | settled (result : Except String InvocationResult)

/-- One call of `invoke`, at one gateway. -/
structure Task where
  gw : ToolGateway
  inv : Invocation
  stage : Stage

/-- A call of a tool's `execute`, with the scope and the nonce it was released under. -/
structure Execution where
  audience : String
  nonce : String
  call : ToolGateway.ToolCall

/-- What a nonce is unique for. -/
def Execution.token (e : Execution) : String × String := (e.audience, e.nonce)

namespace Task

/-- The scope and the nonce of an invocation. -/
def token (t : Task) : String × String := (t.gw.audience, t.inv.request.nonce)

section

variable (H : Host)

/-- An invocation between the store's answer and its next pause, with the execution it makes. -/
def resume (t : Task) (stamp : Stamp) : Task × Option Execution :=
  match t.stage with
  | .consuming tool report answer =>
    match ToolGateway.release answer with
    | .reject reason =>
      ({ t with stage := .settled (t.gw.reject H t.inv reason (some report) stamp) }, none)
    | .execute =>
      ({ t with stage := .executing report },
        some ⟨t.gw.audience, t.inv.request.nonce, ⟨tool, t.inv.params⟩⟩)
  | _ => (t, none)

/-- An invocation from the tool's answer to its end. -/
def finish (t : Task) (answer : Except Thrown ToolOutput) (stamp failure : Stamp) : Task :=
  match t.stage with
  | .executing report =>
    { t with stage := .settled (t.gw.settle H t.inv report answer stamp failure) }
  | _ => t

end

/-- The claim a task holds: the store let it through, and it has not gone on. -/
def claim (t : Task) : Option (String × String) :=
  match t.stage with
  | .consuming _ _ answer => if answer = .consumed then some t.token else none
  | _ => none

variable {H : Host}

/-- Going on gives up the claim. -/
theorem claim_resume (t : Task) (stamp : Stamp) : (t.resume H stamp).1.claim = none := by
  obtain ⟨gw, inv, stage⟩ := t
  cases stage with
  | consuming tool report answer => cases answer <;> rfl
  | executing report => rfl
  | settled result => rfl

/-- Going on executes for the claim held, and only for it. -/
theorem token_resume (t : Task) (stamp : Stamp) :
    (t.resume H stamp).2.map Execution.token = t.claim := by
  obtain ⟨gw, inv, stage⟩ := t
  cases stage with
  | consuming tool report answer => cases answer <;> rfl
  | executing report => rfl
  | settled result => rfl

/-- A tool that answers changes no claim. -/
theorem claim_finish (t : Task) (answer : Except Thrown ToolOutput) (stamp failure : Stamp) :
    (t.finish H answer stamp failure).claim = t.claim := by
  obtain ⟨gw, inv, stage⟩ := t
  cases stage <;> rfl

/-- An execution comes from a task whose store answered, with the tool it was screened for. -/
theorem execution_of_resume {t : Task} {stamp : Stamp} {e : Execution}
    (h : (t.resume H stamp).2 = some e) :
    ∃ tool report, t.stage = .consuming tool report .consumed ∧
      e = ⟨t.gw.audience, t.inv.request.nonce, ⟨tool, t.inv.params⟩⟩ := by
  obtain ⟨gw, inv, stage⟩ := t
  cases stage with
  | consuming tool report answer =>
    cases answer with
    | consumed => exact ⟨tool, report, rfl, (Option.some.inj h).symm⟩
    | replayed => cases h
    | unavailable => cases h
  | executing report => cases h
  | settled result => cases h

/-- No task goes back to waiting for its store. -/
theorem stage_resume_ne (t : Task) (stamp : Stamp) (tool : ToolDefinition)
    (report : DecisionReport) (answer : ConsumeResult) :
    (t.resume H stamp).1.stage ≠ .consuming tool report answer := by
  obtain ⟨gw, inv, stage⟩ := t
  cases stage with
  | consuming tool' report' answer' => cases answer' <;> exact Stage.noConfusion
  | executing report => exact Stage.noConfusion
  | settled result => exact Stage.noConfusion

/-- A task that waits for its store still waits after a tool's answer, and no other does. -/
theorem stage_finish {t : Task} {answer : Except Thrown ToolOutput} {stamp failure : Stamp}
    {tool : ToolDefinition} {report : DecisionReport} {result : ConsumeResult}
    (h : (t.finish H answer stamp failure).stage = .consuming tool report result) :
    t.finish H answer stamp failure = t := by
  obtain ⟨gw, inv, stage⟩ := t
  cases stage with
  | consuming tool' report' answer' => rfl
  | executing report => cases h
  | settled result => rfl

end Task

end CoolSdk
