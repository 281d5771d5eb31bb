import CoolSdk.Authz.Invocation
import CoolSdk.Authz.Mediation
import CoolSdk.Core.OneShot

/-!
# At-most-once execution

Any number of gateways share one local nonce store. An invocation runs without a pause up
to the store's answer; then others may run before it goes on, and again before its tool
answers. Each step of this system is a step of a one-shot ledger over audience and nonce,
so no interleaving executes twice for one nonce.
-/

namespace CoolSdk

/-- Gateways over one store: its contents, every invocation so far, and every execution. -/
structure Boundary where
  store : LocalNonceStore
  tasks : List Task
  executions : List Execution

/-- What happens next. -/
inductive Move
  /-- A gateway is invoked; nothing else runs before the store has answered. -/
  | invoke (gw : ToolGateway) (env : Surroundings) (inv : Invocation) (fault : FileFault)
      (stamp : Stamp)
  /-- An invocation goes on with the store's answer. -/
  | resume (i : Nat) (stamp : Stamp)
  /-- The tool of an invocation answers or throws. -/
  | finish (i : Nat) (answer : Except Thrown ToolOutput) (stamp failure : Stamp)

namespace Boundary

/-- A store before any invocation. -/
def start (store : LocalNonceStore) : Boundary := { store, tasks := [], executions := [] }

/-- One more invocation. -/
def add (w : Boundary) (t : Task) : Boundary := { w with tasks := w.tasks ++ [t] }

section

variable (H : Host)

/-- A new invocation, up to its first pause. -/
def invoke (w : Boundary) (gw : ToolGateway) (env : Surroundings) (inv : Invocation)
    (fault : FileFault) (stamp : Stamp) : Boundary :=
  match gw.screen H env inv with
  | .error err => w.add ⟨gw, inv, .settled (.error err)⟩
  | .ok (.reject reason report) =>
    w.add ⟨gw, inv, .settled (gw.reject H inv reason report stamp)⟩
  | .ok (.consume tool report) =>
    let consumed :=
      w.store.consume H fault gw.audience inv.request.nonce inv.request.requestId
    { w with store := consumed.2 }.add ⟨gw, inv, .consuming tool report consumed.1⟩

/-- An invocation goes on after the store's answer. -/
def resume (w : Boundary) (i : Nat) (stamp : Stamp) : Boundary :=
  match w.tasks[i]? with
  | some t =>
    { w with
      tasks := w.tasks.set i (t.resume H stamp).1
      executions := (t.resume H stamp).2.toList ++ w.executions }
  | none => w

/-- An invocation ends after its tool's answer. -/
def finish (w : Boundary) (i : Nat) (answer : Except Thrown ToolOutput)
    (stamp failure : Stamp) : Boundary :=
  match w.tasks[i]? with
  | some t => { w with tasks := w.tasks.set i (t.finish H answer stamp failure) }
  | none => w

/-- One step. -/
def step (w : Boundary) : Move → Boundary
  | .invoke gw env inv fault stamp => w.invoke H gw env inv fault stamp
  | .resume i stamp => w.resume H i stamp
  | .finish i answer stamp failure => w.finish H i answer stamp failure

/-- Every interleaving of invocations over a store with any contents. -/
def system : TransitionSystem Boundary Move where
  init w := ∃ store, w = start store
  step w m w' := w' = w.step H m

/-- The ledger of a boundary. -/
def ledger (w : Boundary) : Ledger (String × String) where
  spent k := w.store.Remembers H k.1 k.2
  held := Ledger.claims Task.claim w.tasks
  fired := ↑(w.executions.map Execution.token)

end

variable {H : Host}

/-! ## Every step is a step of the ledger -/

/-- An invocation that settles at once claims nothing. -/
private theorem ledger_add_settled (w : Boundary) (gw : ToolGateway) (inv : Invocation)
    (result : Except String InvocationResult) :
    (w.add ⟨gw, inv, .settled result⟩).ledger H = w.ledger H := by
  simp only [ledger, add, Ledger.claims_append, Task.claim, Option.toList, Multiset.coe_nil,
    add_zero]

/-- An invocation claims its nonce or claims nothing. -/
theorem ledger_invoke (w : Boundary) (gw : ToolGateway) (env : Surroundings) (inv : Invocation)
    (fault : FileFault) (stamp : Stamp) :
    (w.ledger H).Step ((w.invoke H gw env inv fault stamp).ledger H) := by
  unfold invoke
  cases hs : gw.screen H env inv with
  | error err =>
    simp only [ledger_add_settled]
    exact .refl _
  | ok screened =>
    cases screened with
    | reject reason report =>
      simp only [ledger_add_settled]
      exact .refl _
    | consume tool report =>
      simp only [ledger, add, Ledger.claims_append]
      rcases w.store.consume_cases H fault gw.audience inv.request.nonce inv.request.requestId with
        ⟨hanswer, hstore⟩ | ⟨hfresh, text, hstore⟩
      · simp only [Task.claim, hanswer, if_false, hstore, Option.toList, Multiset.coe_nil, add_zero]
        exact .refl _
      · have hkept : ∀ k : String × String, w.store.Remembers H k.1 k.2 →
            (w.store.remember H gw.audience inv.request.nonce text).Remembers H k.1 k.2 :=
          fun k hk => hk.remember H gw.audience inv.request.nonce text
        rw [hstore]
        by_cases hanswer : (w.store.consume H fault gw.audience inv.request.nonce
            inv.request.requestId).1 = .consumed
        · simp only [Task.claim, hanswer, if_true, Option.toList, Multiset.coe_singleton,
            Multiset.add_comm _ {_}, Multiset.singleton_add]
          exact .claim (k := (gw.audience, inv.request.nonce)) hfresh hkept
            (w.store.remembers_remember_self H _ _ text)
        · simp only [Task.claim, hanswer, if_false, Option.toList, Multiset.coe_nil, add_zero]
          exact .rest hkept le_rfl

/-- Going on fires the claim, if there is one. -/
theorem ledger_resume (w : Boundary) (i : Nat) (stamp : Stamp) :
    (w.ledger H).Step ((w.resume H i stamp).ledger H) := by
  unfold resume
  cases ht : w.tasks[i]? with
  | none => exact .refl _
  | some t =>
    simp only [ledger, List.map_append, ← Option.toList_map]
    exact Ledger.Step.resume ht (t.claim_resume stamp) (t.token_resume stamp)

/-- A tool that answers changes no claim. -/
theorem ledger_finish (w : Boundary) (i : Nat) (answer : Except Thrown ToolOutput)
    (stamp failure : Stamp) :
    (w.ledger H).Step ((w.finish H i answer stamp failure).ledger H) := by
  unfold finish
  cases ht : w.tasks[i]? with
  | none => exact .refl _
  | some t =>
    simp only [ledger, Ledger.claims_set_eq Task.claim ht (t.claim_finish answer stamp failure)]
    exact .refl _

/-- Every step of the boundary is a step of its ledger. -/
theorem ledger_step (w : Boundary) (m : Move) : (w.ledger H).Step ((w.step H m).ledger H) := by
  cases m with
  | invoke gw env inv fault stamp => exact ledger_invoke w gw env inv fault stamp
  | resume i stamp => exact ledger_resume w i stamp
  | finish i answer stamp failure => exact ledger_finish w i answer stamp failure

/-- In every reachable boundary no nonce of an audience has been executed for twice. -/
theorem nodup_executions {w : Boundary} (h : (system H).Reachable w) :
    (w.executions.map Execution.token).Nodup := by
  have hfired := Ledger.nodup_fired_of_runWhere (fun _ => True) (ledger H) ?_ ?_ h
  · exact Multiset.coe_nodup.mp hfired
  · rintro s ⟨store, rfl⟩
    exact ⟨trivial, Ledger.sound_empty rfl rfl⟩
  · rintro s m s' _ _ rfl
    exact ⟨trivial, ledger_step s m⟩

/-! ## What was established of every execution -/

/-- Left alone, an invocation does in three steps what `invoke` does. -/
theorem invoke_alone (w : Boundary) (gw : ToolGateway) (env : Surroundings) (inv : Invocation)
    (fault : FileFault) (answer : Except Thrown ToolOutput) (stamp failure : Stamp) :
    let answers : ToolGateway.Answers :=
      { consume := .ok (w.store.consume H fault gw.audience inv.request.nonce
          inv.request.requestId).1
        execute := answer, stamp, failure }
    let i := w.tasks.length
    let w' := ((w.invoke H gw env inv fault stamp).resume H i stamp).finish H i answer stamp failure
    w'.tasks = w.tasks ++ [⟨gw, inv, .settled (gw.invoke H env inv answers).result⟩] ∧
      w'.executions = (gw.invoke H env inv answers).called.toList.map
        (fun call => ⟨gw.audience, inv.request.nonce, call⟩) ++ w.executions := by
  simp only
  unfold invoke ToolGateway.invoke
  cases hs : gw.screen H env inv with
  | error err => simp [add, resume, finish, Task.resume, Task.finish]
  | ok screened =>
    cases screened with
    | reject reason report => simp [add, resume, finish, Task.resume, Task.finish]
    | consume tool report =>
      cases ha : (w.store.consume H fault gw.audience inv.request.nonce
          inv.request.requestId).1 <;>
        simp [add, resume, finish, Task.resume, Task.finish, ToolGateway.release, ha]

/-- What is known of every invocation that waits for its store's answer, and of every
execution: it was admitted. -/
structure Mediated (H : Host) (w : Boundary) : Prop where
  tasks : ∀ t ∈ w.tasks, ∀ tool report answer, t.stage = .consuming tool report answer →
    ∃ env, Admitted H t.gw env t.inv tool
  executions : ∀ e ∈ w.executions, ∃ gw env inv, Admitted H gw env inv e.call.tool ∧
    e = ⟨gw.audience, inv.request.nonce, ⟨e.call.tool, inv.params⟩⟩

theorem Mediated.invoke {w : Boundary} (h : w.Mediated H) (gw : ToolGateway) (env : Surroundings)
    (inv : Invocation) (fault : FileFault) (stamp : Stamp) :
    (w.invoke H gw env inv fault stamp).Mediated H := by
  have hadd : ∀ store stage, (∀ tool report answer, stage = .consuming tool report answer →
      ∃ env, Admitted H gw env inv tool) →
        (Boundary.add { w with store } ⟨gw, inv, stage⟩).Mediated H := by
    intro store stage hstage
    refine ⟨?_, h.executions⟩
    intro t hmem
    rcases List.mem_append.mp hmem with hmem | hmem
    · exact h.tasks t hmem
    · rw [List.mem_singleton.mp hmem]
      exact hstage
  unfold Boundary.invoke
  cases hs : gw.screen H env inv with
  | error err =>
    refine hadd w.store _ ?_
    rintro tool report answer ⟨⟩
  | ok screened =>
    cases screened with
    | reject reason report =>
      refine hadd w.store _ ?_
      rintro tool report answer ⟨⟩
    | consume tool report =>
      refine hadd _ _ ?_
      rintro tool' report' answer ⟨⟩
      exact ⟨env, ToolGateway.admitted_of_screen hs⟩

theorem Mediated.resume {w : Boundary} (h : w.Mediated H) (i : Nat) (stamp : Stamp) :
    (w.resume H i stamp).Mediated H := by
  unfold Boundary.resume
  cases ht : w.tasks[i]? with
  | none => exact h
  | some t =>
    refine ⟨?_, ?_⟩
    · intro t' hmem tool report answer hstage
      rcases List.mem_or_eq_of_mem_set hmem with hmem | rfl
      · exact h.tasks t' hmem tool report answer hstage
      · exact absurd hstage (t.stage_resume_ne stamp tool report answer)
    · intro e he
      rcases List.mem_append.mp he with hnew | hold
      · obtain ⟨tool, report, hstage, rfl⟩ :=
          Task.execution_of_resume (Option.mem_toList.mp hnew)
        obtain ⟨env, hadmitted⟩ :=
          h.tasks t (List.mem_of_getElem? ht) tool report .consumed hstage
        exact ⟨t.gw, env, t.inv, hadmitted, rfl⟩
      · exact h.executions e hold

theorem Mediated.finish {w : Boundary} (h : w.Mediated H) (i : Nat)
    (answer : Except Thrown ToolOutput) (stamp failure : Stamp) :
    (w.finish H i answer stamp failure).Mediated H := by
  unfold Boundary.finish
  cases ht : w.tasks[i]? with
  | none => exact h
  | some t =>
    refine ⟨?_, h.executions⟩
    intro t' hmem tool report result hstage
    rcases List.mem_or_eq_of_mem_set hmem with hmem | rfl
    · exact h.tasks t' hmem tool report result hstage
    · have hsame := Task.stage_finish hstage
      rw [hsame] at hstage ⊢
      exact h.tasks t (List.mem_of_getElem? ht) tool report result hstage

/-- Complete mediation under any interleaving: every execution was of an admitted invocation. -/
theorem mediated_of_reachable {w : Boundary} (h : (system H).Reachable w) : w.Mediated H := by
  refine h.invariant ?_ ?_
  · rintro s ⟨store, rfl⟩
    refine ⟨?_, ?_⟩
    · intro t ht
      exact absurd ht List.not_mem_nil
    · intro e he
      exact absurd he List.not_mem_nil
  · rintro s m s' hi rfl
    cases m with
    | invoke gw env inv fault stamp => exact hi.invoke gw env inv fault stamp
    | resume i stamp => exact hi.resume i stamp
    | finish i answer stamp failure => exact hi.finish i answer stamp failure

/-! ## At most once -/

/-- An invocation that is not let through to the store leaves the store alone. -/
theorem store_of_not_consume {gw : ToolGateway} {env : Surroundings} {inv : Invocation}
    (h : ∀ tool report, gw.screen H env inv ≠ .ok (.consume tool report)) (w : Boundary)
    (fault : FileFault) (stamp : Stamp) :
    (w.step H (.invoke gw env inv fault stamp)).store = w.store := by
  change (w.invoke H gw env inv fault stamp).store = w.store
  unfold invoke
  cases hs : gw.screen H env inv with
  | error err => rfl
  | ok screened =>
    cases screened with
    | reject reason report => rfl
    | consume tool report => exact absurd hs (h tool report)

/-- At-most-once execution. However any invocations of any gateways over one store interleave,
and whatever their tools answer, at most one execution happens for a nonce of an audience. An
invocation that ends before its consume step leaves the store as it was, so that an unused
nonce can still be consumed. -/
theorem at_most_once {w : Boundary} (h : (system H).Reachable w) :
    (∀ audience nonce,
        (w.executions.filter fun e => e.token = (audience, nonce)).length ≤ 1) ∧
      ∀ gw env inv fault stamp,
        (∀ tool report, gw.screen H env inv ≠ .ok (.consume tool report)) →
          (w.step H (.invoke gw env inv fault stamp)).store = w.store ∧
          ∀ nonce requestId, ¬w.store.Remembers H gw.audience nonce →
            ((w.step H (.invoke gw env inv fault stamp)).store.consume H .none gw.audience nonce
              requestId).1 = .consumed := by
  refine ⟨?_, ?_⟩
  · intro audience nonce
    have hnodup := (List.nodup_iff_count_le_one.mp (nodup_executions h)) (audience, nonce)
    rw [List.count, List.countP_map, List.countP_eq_length_filter] at hnodup
    simpa only [Function.comp_def, beq_eq_decide] using hnodup
  · intro gw env inv fault stamp hreject
    have hstore := store_of_not_consume hreject w fault stamp
    refine ⟨hstore, ?_⟩
    intro nonce requestId hfresh
    rw [hstore]
    exact LocalNonceStore.consume_of_not_remembers H hfresh requestId

/-! ## A race on the reference host -/

open Reference ToolGateway

/-- The gateway of the payment under another name. -/
def otherGateway : ToolGateway := { payGateway with id := "gateway-2" }

/-- Two requests with one nonce race at two gateways over an in-process store. -/
def race : Except String Boundary := do
  let r := timelyRequest
  let r' := { timelyRequest with requestId := "req-2" }
  let s ← payDecision r (clock 60000)
  let s' ← payDecision r' (clock 60000)
  let stamp : Stamp := payAnswers.stamp
  .ok ([.invoke payGateway (payEnv (clock 120000)) (payInvocation r s) .none stamp,
    .invoke otherGateway (payEnv (clock 120001)) (payInvocation r' s') .none stamp,
    .resume 1 stamp, .resume 0 stamp, .finish 0 (.error (.message (.str "timeout"))) stamp stamp].foldl
      (Boundary.step host) (start (.memory .new)))

/-- The general result at work: the race ends with one execution, and a gateway that refuses
leaves the store of the race alone. -/
theorem at_most_once_race : ∃ w, race = .ok w ∧ w.executions.length = 1 ∧
    (∀ audience nonce,
        (w.executions.filter fun e => e.token = (audience, nonce)).length ≤ 1) ∧
      ∀ gw env inv fault stamp,
        (∀ tool report, gw.screen host env inv ≠ .ok (.consume tool report)) →
          (w.step host (.invoke gw env inv fault stamp)).store = w.store ∧
          ∀ nonce requestId, ¬w.store.Remembers host gw.audience nonce →
            ((w.step host (.invoke gw env inv fault stamp)).store.consume host .none gw.audience
              nonce requestId).1 = .consumed := by
  have hrun : race.map (fun w => w.executions.length) = .ok 1 := by decide +kernel
  obtain ⟨w, hw, hlength⟩ := ok_of_map_eq hrun
  refine ⟨w, hw, hlength, at_most_once ?_⟩
  obtain ⟨s, _, hw⟩ := bind_eq_ok.mp hw
  obtain ⟨s', _, hw⟩ := bind_eq_ok.mp hw
  cases hw
  exact TransitionSystem.reachable_foldl (S := system host) (fun _ _ => rfl) ⟨_, rfl⟩ _

end Boundary

end CoolSdk
