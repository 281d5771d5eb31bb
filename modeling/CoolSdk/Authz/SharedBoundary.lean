import CoolSdk.Authz.Invocation
import CoolSdk.Authz.ReplayShared
import CoolSdk.Core.Transition

/-!
# Gateways over a forgetting store

Gateways on several machines share one store, whose backend may forget. Every party reads
the same clock, which only moves forward. The evaluator decides requests, gateways judge
the invocations that present its decisions, the backend inserts, loses answers and forgets,
and callers give up on it, in any order. The moves that are possible are written as one
partial function.
-/

namespace CoolSdk

/-- How far an invocation over a shared store has come. -/
inductive SharedStage
  /-- The backend has been asked. -/
  | inserting (tool : ToolDefinition) (report : DecisionReport)
  /-- The store has answered. -/
  | answered (stage : Stage)

/-- One call of `invoke` over a shared store. -/
structure SharedTask where
  gw : ToolGateway
  inv : Invocation
  /-- The clock reading the invocation was judged at. -/
  sentAt : ℚ
  stage : SharedStage

namespace SharedTask

/-- The scope and the nonce of an invocation. -/
def token (t : SharedTask) : String × String := (t.gw.audience, t.inv.request.nonce)

/-- The same invocation, as far as `task` has come after the store's answer. -/
def after (t : SharedTask) (task : Task) : SharedTask :=
  ⟨task.gw, task.inv, t.sentAt, .answered task.stage⟩

section

variable (H : Host)

/-- An invocation that the store has answered, between two pauses. -/
def resume (t : SharedTask) (stamp : Stamp) : SharedTask × Option Execution :=
  match t.stage with
  | .inserting _ _ => (t, none)
  | .answered stage => ((⟨t.gw, t.inv, stage⟩ : Task).resume H stamp).map t.after id

/-- An invocation from the tool's answer to its end. -/
def finish (t : SharedTask) (answer : Except Thrown ToolOutput) (stamp failure : Stamp) :
    SharedTask :=
  match t.stage with
  | .inserting _ _ => t
  | .answered stage => t.after ((⟨t.gw, t.inv, stage⟩ : Task).finish H answer stamp failure)

end

/-- The claim an invocation holds. -/
def claim (t : SharedTask) : Option (String × String) :=
  match t.stage with
  | .inserting _ _ => none
  | .answered stage => (⟨t.gw, t.inv, stage⟩ : Task).claim

variable {H : Host}

/-- Going on gives up the claim. -/
theorem claim_resume (t : SharedTask) (stamp : Stamp) : (t.resume H stamp).1.claim = none := by
  obtain ⟨gw, inv, sentAt, stage⟩ := t
  cases stage with
  | inserting tool report => rfl
  | answered stage => exact Task.claim_resume ⟨gw, inv, stage⟩ stamp

/-- Going on executes for the claim held, and only for it. -/
theorem token_resume (t : SharedTask) (stamp : Stamp) :
    (t.resume H stamp).2.map Execution.token = t.claim := by
  obtain ⟨gw, inv, sentAt, stage⟩ := t
  cases stage with
  | inserting tool report => rfl
  | answered stage => exact Task.token_resume ⟨gw, inv, stage⟩ stamp

/-- A tool that answers changes no claim. -/
theorem claim_finish (t : SharedTask) (answer : Except Thrown ToolOutput)
    (stamp failure : Stamp) : (t.finish H answer stamp failure).claim = t.claim := by
  obtain ⟨gw, inv, sentAt, stage⟩ := t
  cases stage with
  | inserting tool report => rfl
  | answered stage => exact Task.claim_finish ⟨gw, inv, stage⟩ answer stamp failure

/-- An invocation that is on its way to the store after going on has not moved. -/
theorem resume_of_inserting {t : SharedTask} {stamp : Stamp} {tool : ToolDefinition}
    {report : DecisionReport} (h : (t.resume H stamp).1.stage = .inserting tool report) :
    (t.resume H stamp).1 = t := by
  obtain ⟨gw, inv, sentAt, stage⟩ := t
  cases stage with
  | inserting tool' report' => rfl
  | answered stage => cases h

/-- Nor has one that is on its way to the store after a tool's answer. -/
theorem finish_of_inserting {t : SharedTask} {answer : Except Thrown ToolOutput}
    {stamp failure : Stamp} {tool : ToolDefinition} {report : DecisionReport}
    (h : (t.finish H answer stamp failure).stage = .inserting tool report) :
    t.finish H answer stamp failure = t := by
  obtain ⟨gw, inv, sentAt, stage⟩ := t
  cases stage with
  | inserting tool' report' => rfl
  | answered stage => cases h

end SharedTask

/-- An insertion a caller was told it won: for which nonce, on which request's expiry, when. -/
structure Grant where
  token : String × String
  expiresAt : String
  insertedAt : ℚ

/-- The state of all parties. -/
structure SharedBoundary where
  clock : ℚ
  /-- The evaluator's decisions, each with its request. -/
  decided : List (AuthorizationRequest × AuthorizationDecision)
  memory : Memory
  /-- Insertions under way whose callers have given up on them. -/
  flying : List (String × String)
  tasks : List SharedTask
  executions : List Execution
  /-- History: no move reads it. -/
  granted : List Grant

/-- What happens next. -/
inductive SharedMove
  /-- Time passes. -/
  | tick (clock : ℚ)
  /-- The evaluator decides a request. -/
  | decide (input : DecideInput) (random : Bytes)
  /-- A gateway judges an invocation and, if it is let through, asks the backend. -/
  | invoke (gw : ToolGateway) (env : Surroundings) (inv : Invocation) (stamp : Stamp)
  /-- The backend inserts for an invocation; its answer may be lost. -/
  | insert (i : Nat) (delivered : Bool)
  /-- The store's timer runs out, or the backend throws; the insertion may still happen. -/
  | giveUp (i : Nat)
  /-- An insertion nobody waits for any more happens. -/
  | late (key value : String)
  /-- The backend forgets a key. -/
  | forget (key : String)
  /-- An invocation goes on with the store's answer. -/
  | resume (i : Nat) (stamp : Stamp)
  /-- The tool of an invocation answers or throws. -/
  | finish (i : Nat) (answer : Except Thrown ToolOutput) (stamp failure : Stamp)

namespace SharedBoundary

/-- All parties before the first decision, over a backend that remembers anything. -/
def start (clock : ℚ) (memory : Memory) : SharedBoundary :=
  { clock
    memory
    decided := []
    flying := []
    tasks := []
    executions := []
    granted := [] }

/-- One more invocation, judged now. -/
def add (w : SharedBoundary) (gw : ToolGateway) (inv : Invocation) (stage : SharedStage) :
    SharedBoundary :=
  { w with tasks := w.tasks ++ [⟨gw, inv, w.clock, stage⟩] }

section

variable (H : Host) (store : SharedNonceStore)

/-- A decision, made at the reading of the clock. -/
def decide (w : SharedBoundary) (input : DecideInput) (random : Bytes) : Option SharedBoundary :=
  if input.now = .finite w.clock then
    match decisionBody H input random with
    | .error _ => some w
    | .ok d => some { w with decided := (input.request, d) :: w.decided }
  else none

/-- An invocation that presents a decision of the evaluator on its request. -/
def invoke (w : SharedBoundary) (gw : ToolGateway) (env : Surroundings) (inv : Invocation)
    (stamp : Stamp) : Option SharedBoundary :=
  if env.now = .finite w.clock ∧ (inv.request, inv.decision.body) ∈ w.decided then
    match gw.screen H env inv with
    | .error err => some (w.add gw inv (.answered (.settled (.error err))))
    | .ok (.reject reason report) =>
      some (w.add gw inv (.answered (.settled (gw.reject H inv reason report stamp))))
    | .ok (.consume tool report) => some (w.add gw inv (.inserting tool report))
  else none

/-- The backend's insertion for an invocation, and what its caller is told. -/
def insert (w : SharedBoundary) (i : Nat) (delivered : Bool) : Option SharedBoundary :=
  match w.tasks[i]? with
  | some ⟨gw, inv, sentAt, .inserting tool report⟩ =>
    let r := w.memory.insertIfAbsent (store.keyOf H gw.audience inv.request.nonce)
      inv.request.requestId w.clock
    let answer := if delivered then if r.1 then .consumed else .replayed else .unavailable
    let grant : Grant := ⟨(gw.audience, inv.request.nonce), inv.request.expiresAt, w.clock⟩
    some { w with
      memory := r.2
      tasks := w.tasks.set i ⟨gw, inv, sentAt, .answered (.consuming tool report answer)⟩
      granted := if answer = .consumed then grant :: w.granted else w.granted }
  | _ => none

/-- A caller that stops waiting for the backend. -/
def giveUp (w : SharedBoundary) (i : Nat) : Option SharedBoundary :=
  match w.tasks[i]? with
  | some ⟨gw, inv, sentAt, .inserting tool report⟩ =>
    some { w with
      flying := (store.keyOf H gw.audience inv.request.nonce, inv.request.requestId) :: w.flying
      tasks := w.tasks.set i ⟨gw, inv, sentAt, .answered (.consuming tool report .unavailable)⟩ }
  | _ => none

/-- The next state, if the move is possible. -/
def step (w : SharedBoundary) : SharedMove → Option SharedBoundary
  | .tick clock => if w.clock ≤ clock then some { w with clock } else none
  | .decide input random => w.decide H input random
  | .invoke gw env inv stamp => w.invoke H gw env inv stamp
  | .insert i delivered => w.insert H store i delivered
  | .giveUp i => w.giveUp H store i
  | .late key value =>
    if (key, value) ∈ w.flying then
      some { w with
        memory := (w.memory.insertIfAbsent key value w.clock).2
        flying := w.flying.erase (key, value) }
    else none
  | .forget key =>
    if w.memory.MayForget store.ttlMs key w.clock then
      some { w with memory := w.memory.forget key }
    else none
  | .resume i stamp =>
    (w.tasks[i]?).map fun t =>
      { w with
        tasks := w.tasks.set i (t.resume H stamp).1
        executions := (t.resume H stamp).2.toList ++ w.executions }
  | .finish i answer stamp failure =>
    (w.tasks[i]?).map fun t => { w with tasks := w.tasks.set i (t.finish H answer stamp failure) }

/-- Every order of moves. -/
def system : TransitionSystem SharedBoundary SharedMove where
  init w := ∃ clock memory, w = start clock memory
  step w m w' := w.step H store m = some w'

end

variable {H : Host} {store : SharedNonceStore}

/-- What an insertion can do: tell its caller of a win, on a key the backend did not
remember, or tell it anything else. -/
theorem insert_cases {w w' : SharedBoundary} {i : Nat} {delivered : Bool}
    (h : w.insert H store i delivered = some w') :
    ∃ gw inv sentAt tool report, w.tasks[i]? = some ⟨gw, inv, sentAt, .inserting tool report⟩ ∧
      let key := store.keyOf H gw.audience inv.request.nonce
      let memory := (w.memory.insertIfAbsent key inv.request.requestId w.clock).2
      let answered (answer : ConsumeResult) : SharedTask :=
        ⟨gw, inv, sentAt, .answered (.consuming tool report answer)⟩
      (∃ answer, answer ≠ .consumed ∧
          w' = { w with memory, tasks := w.tasks.set i (answered answer) }) ∨
        (delivered = true ∧ w.memory key = none ∧
          memory key = some ⟨inv.request.requestId, w.clock⟩ ∧
          w' = { w with
            memory
            tasks := w.tasks.set i (answered .consumed)
            granted := ⟨(gw.audience, inv.request.nonce), inv.request.expiresAt, w.clock⟩ ::
              w.granted }) := by
  unfold insert at h
  split at h
  · rename_i gw inv sentAt tool report ht
    refine ⟨gw, inv, sentAt, tool, report, ht, ?_⟩
    simp only [Option.some.injEq] at h
    cases delivered with
    | false => exact Or.inl ⟨.unavailable, nofun, h.symm⟩
    | true =>
      by_cases hwon : (w.memory.insertIfAbsent (store.keyOf H gw.audience inv.request.nonce)
          inv.request.requestId w.clock).1 = true
      · obtain ⟨habsent, hstored⟩ := Memory.insertIfAbsent_fst hwon
        simp only [hwon, if_true] at h
        exact Or.inr ⟨rfl, habsent, hstored, h.symm⟩
      · simp only [hwon, Bool.false_eq_true, if_true, if_false, reduceCtorEq] at h
        exact Or.inl ⟨.replayed, nofun, h.symm⟩
  · cases h

/-- A caller that stops waiting is told nothing. -/
theorem giveUp_cases {w w' : SharedBoundary} {i : Nat} (h : w.giveUp H store i = some w') :
    ∃ gw inv sentAt tool report flying,
      w.tasks[i]? = some ⟨gw, inv, sentAt, .inserting tool report⟩ ∧
        w' = { w with
          flying
          tasks := w.tasks.set i
            ⟨gw, inv, sentAt, .answered (.consuming tool report .unavailable)⟩ } := by
  unfold giveUp at h
  split at h
  · rename_i gw inv sentAt tool report ht
    exact ⟨gw, inv, sentAt, tool, report, _, ht, (Option.some.inj h).symm⟩
  · cases h

end SharedBoundary

end CoolSdk
