import CoolSdk.Authz.Commitment
import CoolSdk.Authz.Mediation
import CoolSdk.Core.Transition

/-!
# Parameters that others can write to

A caller hands a gateway a reference to its parameters, not a copy. The gateway checks what
the object holds, waits for the nonce store, and hands the same object to the tool. Other
tasks run while it waits, and any of them may write to the object. A tool therefore gets
checked parameters exactly where the object still encodes as it did when it was checked.
-/

namespace CoolSdk

/-- An invocation that waits for the nonce store. Its `params` are what the object at `ref`
held when they were checked. -/
structure Suspended where
  gw : ToolGateway
  inv : Invocation
  ref : Nat
  tool : ToolDefinition
  report : DecisionReport

/-- A call of a tool, with the invocation it was made for. -/
structure ParamsUse where
  inv : Invocation
  call : ToolGateway.ToolCall

/-- The parameter objects, every invocation that waits, and every call of a tool. -/
structure BorrowedParams where
  objects : Nat → JsValue
  suspended : List Suspended
  uses : List ParamsUse

/-- What happens next. -/
inductive ParamsMove
  /-- A gateway is invoked on the object at a reference. -/
  | invoke (gw : ToolGateway) (env : Surroundings) (inv : Invocation) (ref : Nat)
  /-- Another task writes to an object. -/
  | write (ref : Nat) (value : JsValue)
  /-- The nonce store answers or throws, after any delay. -/
  | answer (i : Nat) (answer : Except String ConsumeResult)

/-- The canonical bytes of a value's normal form, which a commitment is to. -/
def committedBytes (H : Host) (value : JsValue) : Except String Bytes := do
  let normal ← normalize H value "$"
  H.canonicalCbor normal

section

variable {H : Host}

/-- Values with the same committed bytes have the same commitment. -/
theorem commitValue_of_committedBytes {p q : JsValue}
    (h : committedBytes H q = committedBytes H p) (kind : CommitmentKind) (salt : String)
    (key : Option Bytes) :
    commitValue H kind q salt key = commitValue H kind p salt key := by
  have hbody (v : JsValue) : commitmentBody H kind v salt = (do
      let saltBytes ← fromHex salt
      let encoded ← committedBytes H v
      .ok (utf8 kind.domain ++ (saltBytes ++ encoded))) := by
    simp only [commitmentBody, committedBytes, bind_assoc]
  refine commitValue_congr ?_
  rw [hbody, hbody, h]

/-- A value that encodes has committed bytes. -/
theorem EncodedAs.committedBytes_eq {v : JsValue} {e : Bytes} (h : EncodedAs H v e) :
    committedBytes H v = .ok e := by
  obtain ⟨n, hn, he⟩ := h
  exact bind_eq_ok.mpr ⟨n, hn, he⟩

/-- Under one salt, values whose digests do not collide match one commitment only where they
have the same committed bytes. -/
theorem committedBytes_of_paramsMatch {r : AuthorizationRequest} {p q : JsValue} {salt : String}
    {key : Option Bytes} (hcollision : NoCollision H .params p salt q salt key)
    (hp : paramsMatch H r p salt key = true) (hq : paramsMatch H r q salt key = true) :
    committedBytes H q = committedBytes H p := by
  obtain ⟨x, hx, hy⟩ := body_eq_of_commitValue hcollision
    ((commitmentMatches_iff H _ _ _ _ _).mp hp) ((commitmentMatches_iff H _ _ _ _ _).mp hq)
  obtain ⟨a, e, ha, he, rfl⟩ := commitmentBody_eq_ok.mp hx
  obtain ⟨b, f, hb, hf, hsame⟩ := commitmentBody_eq_ok.mp hy
  obtain rfl := Except.ok.inj (ha.symm.trans hb)
  have hef : e = f := List.append_cancel_left (List.append_cancel_left hsame)
  rw [he.committedBytes_eq, hf.committedBytes_eq, hef]

end

/-- What a call for an invocation got passes the check its parameters passed. -/
def ParamsUse.Checked (H : Host) (u : ParamsUse) : Prop :=
  paramsMatch H u.inv.request u.call.params u.inv.paramsSalt u.inv.commitmentKey = true

namespace BorrowedParams

/-- Objects before any invocation. -/
def start (objects : Nat → JsValue) : BorrowedParams := { objects, suspended := [], uses := [] }

section

variable (H : Host)

/-- A new invocation, up to its first pause. One that is not let through makes no call. -/
def invoke (w : BorrowedParams) (gw : ToolGateway) (env : Surroundings) (inv : Invocation)
    (ref : Nat) : BorrowedParams :=
  let inv := { inv with params := w.objects ref }
  match gw.screen H env inv with
  | .ok (.consume tool report) =>
    { w with suspended := w.suspended ++ [⟨gw, inv, ref, tool, report⟩] }
  | _ => w

/-- The store's answer. The object is read again for the tool. -/
def answer (w : BorrowedParams) (i : Nat) (answer : Except String ConsumeResult) :
    Option BorrowedParams :=
  (w.suspended[i]?).map fun s =>
    let w := { w with suspended := w.suspended.eraseIdx i }
    match answer.map ToolGateway.release with
    | .ok .execute => { w with uses := ⟨s.inv, ⟨s.tool, w.objects s.ref⟩⟩ :: w.uses }
    | _ => w

/-- The next state, if the move is possible. -/
def step (w : BorrowedParams) : ParamsMove → Option BorrowedParams
  | .invoke gw env inv ref => some (w.invoke H gw env inv ref)
  | .write ref value => some { w with objects := Function.update w.objects ref value }
  | .answer i answer => w.answer i answer

/-- Every interleaving of invocations and writes. -/
def system : TransitionSystem BorrowedParams ParamsMove where
  init w := ∃ objects, w = start objects
  step w m w' := w.step H m = some w'

/-- Where the move is the store's go-ahead, the object encodes as it did when it was checked. -/
def Unchanged (w : BorrowedParams) : ParamsMove → Prop
  | .answer i (.ok .consumed) =>
    ∀ s ∈ w.suspended[i]?, committedBytes H (w.objects s.ref) = committedBytes H s.inv.params
  | _ => True

instance (w : BorrowedParams) (m : ParamsMove) : Decidable (Unchanged H w m) := by
  unfold Unchanged
  split <;> infer_instance

end

variable {H : Host}

/-- An invocation that is not written to makes the call that `invoke` makes. -/
theorem uses_of_invoke (w : BorrowedParams) (gw : ToolGateway) (env : Surroundings)
    (inv : Invocation) (ref : Nat) (answers : ToolGateway.Answers) {tool : ToolDefinition}
    {report : DecisionReport}
    (h : gw.screen H env { inv with params := w.objects ref } = .ok (.consume tool report)) :
    ((w.invoke H gw env inv ref).answer w.suspended.length answers.consume).map uses =
      some ((gw.invoke H env { inv with params := w.objects ref } answers).called.toList.map
        (ParamsUse.mk { inv with params := w.objects ref }) ++ w.uses) := by
  simp only [invoke, h, answer, List.getElem?_concat_length, Option.map_some,
    ToolGateway.invoke]
  cases answers.consume with
  | error err => rfl
  | ok a => cases a <;> rfl

/-! ## The invariant -/

/-- What is known of every waiting invocation: its parameters passed the check. -/
def Screened (H : Host) (w : BorrowedParams) : Prop :=
  ∀ s ∈ w.suspended,
    paramsMatch H s.inv.request s.inv.params s.inv.paramsSalt s.inv.commitmentKey = true

theorem Screened.invoke {w : BorrowedParams} (h : w.Screened H) (gw : ToolGateway)
    (env : Surroundings) (inv : Invocation) (ref : Nat) :
    (w.invoke H gw env inv ref).Screened H := by
  simp only [BorrowedParams.invoke]
  split
  · rename_i tool report hscreen
    intro s hs
    rcases List.mem_append.mp hs with hs | hs
    · exact h s hs
    · obtain ⟨_, _, _, _, hparams, _⟩ := ToolGateway.screen_consume hscreen
      rw [List.mem_singleton.mp hs]
      exact hparams
  · exact h

/-- What an answer can do: end an invocation, with a call on what the object holds now or
without one. -/
theorem answer_cases {w w' : BorrowedParams} {i : Nat} {answer : Except String ConsumeResult}
    (h : w.answer i answer = some w') :
    ∃ s, w.suspended[i]? = some s ∧ w'.objects = w.objects ∧
      w'.suspended = w.suspended.eraseIdx i ∧
      (w'.uses = w.uses ∨ (answer = .ok .consumed ∧
        w'.uses = ⟨s.inv, ⟨s.tool, w.objects s.ref⟩⟩ :: w.uses)) := by
  obtain ⟨s, hs, rfl⟩ := Option.map_eq_some_iff.mp h
  refine ⟨s, hs, ?_⟩
  cases answer with
  | error err => exact ⟨rfl, rfl, .inl rfl⟩
  | ok a =>
    cases a with
    | consumed => exact ⟨rfl, rfl, .inr ⟨rfl, rfl⟩⟩
    | replayed => exact ⟨rfl, rfl, .inl rfl⟩
    | unavailable => exact ⟨rfl, rfl, .inl rfl⟩

/-- Every step keeps it. -/
theorem Screened.step {w w' : BorrowedParams} (h : w.Screened H) {m : ParamsMove}
    (hw : w.step H m = some w') : w'.Screened H := by
  cases m with
  | invoke gw env inv ref =>
    cases hw
    exact h.invoke gw env inv ref
  | write ref value =>
    cases hw
    exact h
  | answer i answer =>
    obtain ⟨s, _, _, hsuspended, _⟩ := answer_cases hw
    intro t ht
    rw [hsuspended] at ht
    exact h t (List.mem_of_mem_eraseIdx ht)

theorem screened_of_reachable {w : BorrowedParams} (h : (system H).Reachable w) :
    w.Screened H := by
  refine h.invariant ?_ fun s m s' hs hstep => hs.step hstep
  rintro s ⟨objects, rfl⟩ t ht
  exact absurd ht List.not_mem_nil

/-! ## What the tool gets -/

/-- Parameters that passed the check still pass it where the object encodes as it did. -/
theorem checked_of_committedBytes {s : Suspended} {params : JsValue}
    (hscreened : paramsMatch H s.inv.request s.inv.params s.inv.paramsSalt s.inv.commitmentKey =
      true) (hsame : committedBytes H params = committedBytes H s.inv.params) :
    (⟨s.inv, ⟨s.tool, params⟩⟩ : ParamsUse).Checked H := by
  refine (commitmentMatches_iff H _ _ _ _ _).mpr ?_
  rw [commitValue_of_committedBytes hsame]
  exact (commitmentMatches_iff H _ _ _ _ _).mp hscreened

/-- What is known in a run whose every step meets the condition. -/
structure Safe (H : Host) (w : BorrowedParams) : Prop where
  screened : w.Screened H
  uses : ∀ u ∈ w.uses, u.Checked H

theorem Safe.step {w w' : BorrowedParams} (h : w.Safe H) {m : ParamsMove}
    (hsame : Unchanged H w m) (hw : w.step H m = some w') : w'.Safe H := by
  refine ⟨h.screened.step hw, ?_⟩
  cases m with
  | invoke gw env inv ref =>
    cases hw
    simp only [invoke]
    split <;> exact h.uses
  | write ref value =>
    cases hw
    exact h.uses
  | answer i answer =>
    obtain ⟨s, hs, _, _, hcalls | ⟨rfl, hcalls⟩⟩ := answer_cases hw
    · rw [hcalls]
      exact h.uses
    · rw [hcalls]
      intro u hu
      rcases List.mem_cons.mp hu with rfl | hu
      · have hchecked := h.screened s (List.mem_of_getElem? hs)
        exact checked_of_committedBytes hchecked (hsame s hs)
      · exact h.uses u hu

/-- The parameters a tool gets are checked ones in every run in which the object encodes at
every go-ahead as it did when it was checked. Elsewhere they are not: what a go-ahead hands
over passes the check only where the object still encodes so, unless the digest collides. -/
theorem checked_of_unchanged :
    (∀ w, (system H).RunWhere (Unchanged H) w → ∀ u ∈ w.uses, u.Checked H) ∧
      ∀ w, (system H).Reachable w → ∀ i s, w.suspended[i]? = some s →
        NoCollision H .params s.inv.params s.inv.paramsSalt (w.objects s.ref) s.inv.paramsSalt
          s.inv.commitmentKey →
        ((⟨s.inv, ⟨s.tool, w.objects s.ref⟩⟩ : ParamsUse).Checked H ↔
          Unchanged H w (.answer i (.ok .consumed))) := by
  refine ⟨?_, ?_⟩
  · intro w hrun
    have hsafe : w.Safe H := by
      refine hrun.invariant ?_ ?_
      · rintro s ⟨objects, rfl⟩
        exact ⟨fun t ht => absurd ht List.not_mem_nil, fun u hu => absurd hu List.not_mem_nil⟩
      · exact fun s m s' h hsame hstep => h.step hsame hstep
    exact hsafe.uses
  · intro w hw i s hs hcollision
    have hscreened := screened_of_reachable hw s (List.mem_of_getElem? hs)
    constructor
    · intro hchecked t ht
      obtain rfl := Option.some.inj (hs.symm.trans ht)
      exact committedBytes_of_paramsMatch hcollision hscreened hchecked
    · intro hsame
      exact checked_of_committedBytes hscreened (hsame s hs)

/-! ## A payment on the reference host -/

open Reference ToolGateway

/-- A payment is checked, its parameters are written to, and the store lets it through: the
end of that run, if every move is possible and meets the condition. -/
def payWritten (ok : BorrowedParams → ParamsMove → Prop) [∀ w m, Decidable (ok w m)]
    (r : AuthorizationRequest) (written : JsValue) : Option BorrowedParams := do
  let s ← (payDecision r (clock 60000)).toOption
  [.invoke payGateway (payEnv (clock 120000)) (payInvocation r s) 0,
    .write 0 written, .answer 0 (.ok .consumed)].foldlM
      (fun w m => if ok w m then w.step host m else none) (start fun _ => payParams)

/-- A run that reaches its end is a run of the system. -/
private theorem runWhere_of_payWritten {ok : BorrowedParams → ParamsMove → Prop}
    [∀ w m, Decidable (ok w m)] {r : AuthorizationRequest} {written : JsValue}
    {w : BorrowedParams} (h : payWritten ok r written = some w) : (system host).RunWhere ok w := by
  obtain ⟨s, _, h⟩ := Option.bind_eq_some_iff.mp h
  refine .foldlM (fun _ _ _ hstep => hstep) ?_ h
  exact .start ⟨_, rfl⟩

/-- The same parameters, with a member that is not committed to. -/
def annotatedParams : JsValue := .object [("note", .undefined), ("to", .str "acct:2")]

/-- The general result at work: a write that leaves the normal form alone does no harm. -/
theorem checked_of_unchanged_payment : ∃ w,
    payWritten (Unchanged host) timelyRequest annotatedParams = some w ∧ w.uses.length = 1 ∧
      ∀ u ∈ w.uses, u.Checked host := by
  have hrun : (payWritten (Unchanged host) timelyRequest annotatedParams).map
      (fun w => w.uses.length) = some 1 := by
    decide +kernel
  obtain ⟨w, hw, hlength⟩ := Option.map_eq_some_iff.mp hrun
  exact ⟨w, hw, hlength, checked_of_unchanged.1 w (runWhere_of_payWritten hw)⟩

/-- The payment to somebody else. -/
def divertedParams : JsValue := .object [("to", .str "acct:9")]

/-- A task that writes while the gateway waits has its own parameters executed. -/
theorem diverted_use : ∃ w, (system host).Reachable w ∧ ∃ u ∈ w.uses, ¬u.Checked host := by
  have hrun : (payWritten (fun _ _ => True) timelyRequest divertedParams).map (fun w =>
      w.uses.map fun u =>
        paramsMatch host u.inv.request u.call.params u.inv.paramsSalt u.inv.commitmentKey) =
      some [false] := by
    decide +kernel
  obtain ⟨w, hw, huses⟩ := Option.map_eq_some_iff.mp hrun
  obtain ⟨u, hu⟩ := List.length_eq_one_iff.mp (by simpa using congrArg List.length huses)
  rw [hu] at huses
  refine ⟨w, runWhere_of_payWritten hw, u, hu ▸ List.mem_singleton.mpr rfl, ?_⟩
  have hfalse := (List.cons.inj huses).1
  exact fun hchecked => Bool.false_ne_true (hfalse.symm.trans hchecked)

end BorrowedParams

end CoolSdk
