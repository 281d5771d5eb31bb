import CoolSdk.Nitro.Frames
import CoolSdk.Nitro.Sealer
import CoolSdk.Runtime.Json

/-!
# The enclave server

Any number of connections feed frames to one sealer. The first hello starts it and its handler
waits for the attestation; all other frames, of this and of other connections, are handled in the
meantime. Whatever the order of chunks and answers, one enclave instance presents one key, answers
each frame once, and what it sends as receipts are the receipts of one sealer.
-/

namespace CoolSdk

/-! ## Calls of a sealer -/

/-- The history with a further call, as the sealer answers it. -/
def SealerHistory.call (H : Host) (w : SealerHistory) (c : SealerCall) : SealerHistory :=
  w.record c (w.sealer.call H c)

/-- An envelope is signed over its digest by the sealer's key alone, and brings along the
attestation that it references. -/
structure NitroReceiptSealer.Sealed (H : Host) (s : NitroReceiptSealer) (env : SignedEnvelope) :
    Prop where
  signed : ∃ message, signatureMessage env.digest = .ok message ∧
    env.signatures = [H.hybridSign message s.key]
  attested : env.attestation = some ⟨"aws-nitro", toBase64 s.attestation⟩
  referenced : env.core.attestationRef = some (toHex (H.sha256 s.attestation))

namespace NitroReceiptSealer

variable {H : Host} {s : NitroReceiptSealer} {c : SealerCall}

/-- What sealing an event comes to: nothing, a retry, a lost number or a new receipt. -/
theorem sealEvent_cases (event : SealInput) (sources : CreationSources) :
    (∃ e, s.sealEvent H event sources = (.error e, s)) ∨
      (∃ prior, s.issued.get event.eventId = some prior ∧
        s.sealEvent H event sources = (.ok prior, s)) ∨
      (∃ e, s.sealEvent H event sources = (.error e, { s with next := s.following })) ∨
      ∃ epoch env, s.receipt H event epoch sources = .ok env ∧ s.sealEvent H event sources =
        (.ok env, { s with next := s.following, issued := s.issued.set event.eventId env }) := by
  rw [sealEvent]
  cases hepoch : s.epoch with
  | none => exact .inl ⟨_, rfl⟩
  | some epoch =>
    cases hprior : s.issued.get event.eventId with
    | some prior => exact .inr (.inl ⟨prior, rfl, rfl⟩)
    | none =>
      cases hreceipt : s.receipt H event epoch sources with
      | error e => exact .inr (.inr (.inl ⟨e, by simp only [hreceipt]⟩))
      | ok env =>
        exact .inr (.inr (.inr ⟨epoch, env, hreceipt, by simp only [hreceipt]⟩))

/-- A call keeps what a sealer was started with. -/
theorem call_keeps (c : SealerCall) : (s.call H c).2.key = s.key ∧
    (s.call H c).2.registry = s.registry ∧ (s.call H c).2.attestation = s.attestation := by
  cases c with
  | acceptEpoch signed =>
    rw [call, acceptEpoch]
    split_ifs <;> exact ⟨rfl, rfl, rfl⟩
  | sealEvent event sources =>
    rw [call]
    obtain ⟨e, h⟩ | ⟨prior, -, h⟩ | ⟨e, h⟩ | ⟨epoch, env, -, h⟩ := s.sealEvent_cases event sources
    all_goals
      rw [h]
      exact ⟨rfl, rfl, rfl⟩

/-- Whose receipts a sealer issues depends on its key and its attestation. -/
theorem Sealed.of_eq {s' : NitroReceiptSealer} {env : SignedEnvelope} (h : s.Sealed H env)
    (hkey : s'.key = s.key) (hattestation : s'.attestation = s.attestation) :
    s'.Sealed H env := by
  obtain ⟨hsigned, hattested, hreferenced⟩ := h
  exact ⟨hkey.symm ▸ hsigned, hattestation.symm ▸ hattested, hattestation.symm ▸ hreferenced⟩

/-- A receipt is sealed by the sealer that makes it. -/
theorem sealed_of_receipt {event : SealInput} {epoch : JsNumber} {sources : CreationSources}
    {env : SignedEnvelope} (h : s.receipt H event epoch sources = .ok env) : s.Sealed H env := by
  obtain ⟨core, hcore, h⟩ := bind_eq_ok.mp h
  rw [createEnvelope_sequenced] at hcore
  obtain ⟨plain, -, rfl⟩ := ok_of_map_eq hcore
  rw [signEnvelope, if_neg (List.cons_ne_nil _ _)] at h
  split_ifs at h with hother
  obtain ⟨bytes, hbytes, h⟩ := bind_eq_ok.mp h
  obtain ⟨message, hmessage, h⟩ := bind_eq_ok.mp h
  cases h
  exact ⟨⟨message, hmessage, rfl⟩, rfl, rfl⟩

/-- What a call returns was issued before or is sealed now. -/
theorem sealed_of_call (hissued : ∀ r ∈ s.issued.entries, s.Sealed H r.2) (c : SealerCall) :
    (∀ env, (s.call H c).1 = .ok (some env) → s.Sealed H env) ∧
      ∀ r ∈ (s.call H c).2.issued.entries, s.Sealed H r.2 := by
  cases c with
  | acceptEpoch signed =>
    rw [call, acceptEpoch]
    split_ifs
    all_goals exact ⟨fun _ hanswer => (by cases hanswer), hissued⟩
  | sealEvent event sources =>
    rw [call]
    obtain ⟨e, h⟩ | ⟨prior, hprior, h⟩ | ⟨e, h⟩ | ⟨epoch, sealed, hreceipt, h⟩ :=
      s.sealEvent_cases event sources
    all_goals rw [h]
    · exact ⟨fun _ hanswer => (by cases hanswer), hissued⟩
    · refine ⟨fun env hanswer => ?_, hissued⟩
      cases hanswer
      exact hissued _ (OrderedMap.mem_of_get hprior)
    · exact ⟨fun _ hanswer => (by cases hanswer), hissued⟩
    · have hsealed := sealed_of_receipt hreceipt
      refine ⟨fun env hanswer => ?_, fun r hr => ?_⟩
      · cases hanswer
        exact hsealed
      · rcases Entries.mem_set hr with rfl | hr
        · exact hsealed
        · exact hissued r hr

end NitroReceiptSealer

namespace SealerHistory

variable {H : Host} {w : SealerHistory} {key : KeyPair} {registry : PayloadRegistry}
  {attestation : Bytes}

/-- What was returned before a call is still there after it. -/
theorem mem_returned_call {r : String × SignedEnvelope} (hr : r ∈ w.returned) (c : SealerCall) :
    r ∈ (w.call H c).returned := by
  rw [call, record, returned, List.filterMap_append]
  exact List.mem_append_left _ hr

/-- What sealing an event answers is among what is returned. -/
theorem mem_returned_sealEvent {event : SealInput} {sources : CreationSources}
    {env : SignedEnvelope} (h : (w.sealer.sealEvent H event sources).1 = .ok env) :
    (event.eventId, env) ∈ (w.call H (.sealEvent event sources)).returned := by
  rw [call, record, returned, List.filterMap_append]
  refine List.mem_append_right _ ?_
  simp [SealerStep.returned, NitroReceiptSealer.call, h, Except.map]

/-- A run keeps what the sealer was started with, and all it has issued or returned is sealed by
it. -/
theorem sealed_of_reachable (h : (sealerRuns H key registry attestation).Reachable w) :
    (w.sealer.key = key ∧ w.sealer.registry = registry ∧ w.sealer.attestation = attestation) ∧
      (∀ r ∈ w.sealer.issued.entries, w.sealer.Sealed H r.2) ∧
      ∀ r ∈ w.returned, w.sealer.Sealed H r.2 := by
  apply h.invariant
  · rintro w rfl
    exact ⟨⟨rfl, rfl, rfl⟩, fun r hr => (by cases hr), fun r hr => (by cases hr)⟩
  · rintro w c w' ⟨⟨hkey, hregistry, hattestation⟩, hissued, hreturned⟩ rfl
    obtain ⟨hkey', hregistry', hattestation'⟩ :=
      NitroReceiptSealer.call_keeps (H := H) (s := w.sealer) c
    obtain ⟨hanswer, hheld⟩ := NitroReceiptSealer.sealed_of_call hissued c
    refine ⟨⟨hkey'.trans hkey, hregistry'.trans hregistry, hattestation'.trans hattestation⟩,
      fun r hr => (hheld r hr).of_eq hkey' hattestation', fun r hr => ?_⟩
    apply NitroReceiptSealer.Sealed.of_eq _ hkey' hattestation'
    rw [record, returned, List.filterMap_append, List.mem_append] at hr
    rcases hr with hr | hr
    · exact hreturned r hr
    · obtain ⟨step, hstep, hr⟩ := List.mem_filterMap.mp hr
      rw [List.mem_singleton.mp hstep] at hr
      rw [SealerStep.returned] at hr
      split at hr
      · rename_i event sources env hmade hanswered
        cases hr
        exact hanswer env hanswered
      · cases hr

end SealerHistory

namespace Nitro

/-- A message of the enclave. -/
inductive Reply
  | register (keyId : String) (entry : DirectoryEntry) (attestation : Bytes)
  | ack (epoch : JsNumber)
  | receipt (envelope : SignedEnvelope)
  | error (message : String)

/-- The frame type of a message. -/
def Reply.type : Reply → Nat
  | .register .. => 4
  | .ack _ => 3
  | .receipt _ => 2
  | .error _ => 5

/-- What the server takes from the runtime. -/
structure ServerHost where
  /-- `dec`: `JSON.parse` of a payload's text. -/
  parse : Bytes → Except String JsValue
  /-- `Buffer.from(text, "base64")`. -/
  bufferFrom : String → Bytes
  /-- `Number(value)` of a JSON value. -/
  toNumber : JsValue → Except String JsNumber
  /-- The event that a value states. Of a value that states none, reading it fails. -/
  asEvent : JsValue → Except String SealInput
  /-- `enc`: the text of a message's JSON. -/
  stringify : Reply → Bytes

/-- The server with all that happened to it. -/
structure EnclaveServer where
  registry : PayloadRegistry
  /-- The nonces a sealer was started with; `starting` is set where there is one. -/
  asked : List Bytes := []
  /-- The sealer, once it has started. -/
  sealer : Option SealerHistory := none
  /-- The handler that waits for the sealer: its connection and the frames still to handle. -/
  waiting : Option (Nat × List Frame) := none
  /-- The open connections. -/
  links : Nat → Option FrameDecoder := fun _ => none
  /-- The connection of every frame handed to a handler and of every chunk that was no frames. -/
  taken : List Nat := []
  /-- What was sent, and on which connection. -/
  sent : List (Nat × Reply) := []
  /-- The process has ended on an error nothing catches. -/
  down : Bool := false

/-- What handling a frame comes to, before anything is sent. -/
inductive Handled
  | reply (r : Reply)
  | failed (message : String)
  /-- The handler waits for the sealer. -/
  | pending

namespace EnclaveServer

variable (H : Host) (X : ServerHost)

/-! ## Sending -/

/-- Write a message to a connection. -/
def send (s : EnclaveServer) (c : Nat) (r : Reply) : Except FrameError EnclaveServer :=
  (encodeFrame r.type (X.stringify r)).map fun _ => { s with sent := s.sent ++ [(c, r)] }

/-- Report an error. Nothing catches what is thrown on the way. -/
def sendError (s : EnclaveServer) (c : Nat) (message : String) : EnclaveServer :=
  match s.send X c (.error message) with
  | .ok s' => s'
  | .error _ => { s with down := true }

/-- Send an answer; where it does not fit a frame, that is reported. -/
def answer (s : EnclaveServer) (c : Nat) (r : Reply) : EnclaveServer :=
  match s.send X c r with
  | .ok s' => s'
  | .error e => s.sendError X c e.detail

/-! ## Frames -/

/-- The nonce of a hello. -/
def nonceOf (body : JsValue) : Except String Bytes := do
  let nonce ← body.read "nonce"
  let text ← if nonce.nullish then .ok "" else nonce.toText H
  .ok (X.bufferFrom text)

/-- A hello starts the sealer unless one was started. -/
def hello (s : EnclaveServer) (body : JsValue) : EnclaveServer × Handled :=
  if s.asked ≠ [] then
    (s, .failed
      "this enclave instance already has a key; restart the enclave for a new attestation")
  else
    match nonceOf H X body with
    | .error message => (s, .failed message)
    | .ok nonce =>
      if nonce.length < 16 then (s, .failed "hello needs a nonce of at least 16 bytes")
      else ({ s with asked := s.asked ++ [nonce] }, .pending)

/-- A register assigns the sealer its epoch. -/
def register (s : EnclaveServer) (body : JsValue) : EnclaveServer × Handled :=
  match s.sealer with
  | none => (s, .failed "hello first")
  | some w =>
    match body.read "epoch" >>= X.toNumber with
    | .error message => (s, .failed message)
    | .ok epoch =>
      let signed : EpochAssignment := { registration := { epoch, keyId := w.sealer.key.keyId } }
      let s' := { s with sealer := some (w.call H (.acceptEpoch signed)) }
      match w.sealer.acceptEpoch signed with
      | .ok _ => (s', .reply (.ack epoch))
      | .error message => (s', .failed message)

/-- A receipt frame has its event sealed. -/
def receipt (s : EnclaveServer) (body : JsValue) (sources : CreationSources) :
    EnclaveServer × Handled :=
  match s.sealer with
  | none => (s, .failed "hello first")
  | some w =>
    match body.read "input" >>= X.asEvent with
    | .error message => (s, .failed message)
    | .ok event =>
      let s' := { s with sealer := some (w.call H (.sealEvent event sources)) }
      match (w.sealer.sealEvent H event sources).1 with
      | .ok envelope => (s', .reply (.receipt envelope))
      | .error message => (s', .failed message)

/-- Handle one frame, up to the sending. -/
def onFrame (s : EnclaveServer) (f : Frame) (sources : CreationSources) :
    EnclaveServer × Handled :=
  match X.parse f.payload with
  | .error message => (s, .failed message)
  | .ok body =>
    if f.type = 1 then s.hello H X body
    else if f.type = 4 then s.register H X body
    else if f.type = 2 then s.receipt H X body sources
    else (s, .failed s!"unexpected frame type {f.type}")

/-- A handler's loop. It stops where it waits for the sealer and where the process ends. -/
def handle (c : Nat) : EnclaveServer → List Frame → (Nat → CreationSources) → EnclaveServer
  | s, [], _ => s
  | s, f :: fs, sources =>
    if s.down then s
    else
      match s.onFrame H X f (sources 0) with
      | (s', .pending) => { s' with waiting := some (c, fs) }
      | (s', .reply r) => handle c (s'.answer X c r) fs fun n => sources (n + 1)
      | (s', .failed message) => handle c (s'.sendError X c message) fs fun n => sources (n + 1)

/-! ## Events -/

/-- A chunk arrives on a connection. Frames in front of a framing error are lost with it. -/
def onData (s : EnclaveServer) (c : Nat) (chunk : Bytes) (sources : Nat → CreationSources) :
    EnclaveServer :=
  match s.links c with
  | none => s
  | some decoder =>
    match decoder.push chunk with
    | (.error e, _) =>
      { { s with taken := s.taken ++ [c] }.sendError X c e.detail with
        links := Function.update s.links c none }
    | (.ok frames, decoder') =>
      handle H X c
        { s with
          links := Function.update s.links c (some decoder')
          taken := s.taken ++ frames.map fun _ => c } frames sources

/-- The sealer has started, or has failed to: the handler that waits goes on. -/
def onStarted (s : EnclaveServer) (result : Except String (KeyPair × Bytes))
    (sources : Nat → CreationSources) : EnclaveServer :=
  match s.waiting with
  | none => s
  | some (c, fs) =>
    match result with
    | .error message => handle H X c ({ s with waiting := none }.sendError X c message) fs sources
    | .ok (key, attestation) =>
      let started : NitroReceiptSealer := { key, registry := s.registry, attestation }
      handle H X c ({ s with waiting := none, sealer := some { sealer := started } }.answer X c
        (.register key.keyId key.directoryEntry attestation)) fs sources

end EnclaveServer

/-- What happens to a server. -/
inductive ServerEvent
  | connect (c : Nat)
  | close (c : Nat)
  | data (c : Nat) (chunk : Bytes) (sources : Nat → CreationSources)
  | started (result : Except String (KeyPair × Bytes)) (sources : Nat → CreationSources)

/-- The server after an event; a process that has ended stays so. -/
def EnclaveServer.next (H : Host) (X : ServerHost) (s : EnclaveServer) :
    ServerEvent → EnclaveServer
  | .connect c =>
    if s.down ∨ s.links c ≠ none then s
    else { s with links := Function.update s.links c (some .empty) }
  | .close c => if s.down then s else { s with links := Function.update s.links c none }
  | .data c chunk sources => if s.down then s else s.onData H X c chunk sources
  | .started result sources => if s.down then s else s.onStarted H X result sources

/-- The server from its start, under events in any order. -/
def serveEnclave (H : Host) (X : ServerHost) (registry : PayloadRegistry) :
    TransitionSystem EnclaveServer ServerEvent where
  init s := s = { registry }
  step s e s' := s' = s.next H X e

/-! ## What a frame does -/

/-- What is sent where a frame is not left pending. -/
def Handled.shown : Handled → Option Reply
  | .reply r => some r
  | .failed message => some (.error message)
  | .pending => none

/-- What a frame does to a server, and what it comes to. -/
inductive Handles (H : Host) (s : EnclaveServer) : EnclaveServer × Handled → Prop
  | failed {message} : Handles H s (s, .failed message)
  | asked {nonce} : s.asked = [] → Handles H s ({ s with asked := [nonce] }, .pending)
  | refused {w call message} : s.sealer = some w →
      Handles H s ({ s with sealer := some (w.call H call) }, .failed message)
  | acked {w call epoch} : s.sealer = some w →
      Handles H s ({ s with sealer := some (w.call H call) }, .reply (.ack epoch))
  | sealed {w event sources envelope} : s.sealer = some w →
      (w.sealer.sealEvent H event sources).1 = .ok envelope →
      Handles H s ({ s with sealer := some (w.call H (.sealEvent event sources)) },
        .reply (.receipt envelope))

/-- Handling a frame sends nothing yet. -/
theorem Handles.keeps {H : Host} {s s' : EnclaveServer} {o : Handled} (h : Handles H s (s', o)) :
    s'.sent = s.sent ∧ s'.waiting = s.waiting ∧ s'.taken = s.taken ∧ s'.down = s.down := by
  cases h <;> exact ⟨rfl, rfl, rfl, rfl⟩

/-- The error text does not fit a frame. -/
def ServerHost.Oversized (X : ServerHost) (message : String) : Prop :=
  MAX_FRAME_BYTES < (X.stringify (.error message)).length

/-- What comes of sending a message: it is sent, an error is sent for it, or the process ends. -/
inductive Sends (X : ServerHost) (s : EnclaveServer) (c : Nat) (r : Reply) : EnclaveServer → Prop
  | sent : Sends X s c r { s with sent := s.sent ++ [(c, r)] }
  | reported {message} : Sends X s c r { s with sent := s.sent ++ [(c, .error message)] }
  | ended {message} : X.Oversized message → Sends X s c r { s with down := true }

namespace EnclaveServer

variable {H : Host} {X : ServerHost} {s : EnclaveServer} {c : Nat}

theorem onFrame_handles (f : Frame) (sources : CreationSources) :
    Handles H s (s.onFrame H X f sources) := by
  rw [onFrame]
  cases X.parse f.payload with
  | error message => exact .failed
  | ok body =>
    dsimp only
    split_ifs
    · rw [hello]
      split_ifs with hasked
      · exact .failed
      · cases nonceOf H X body with
        | error message => exact .failed
        | ok nonce =>
          dsimp only
          rw [not_not.mp hasked, List.nil_append]
          split_ifs
          · exact .failed
          · exact .asked (not_not.mp hasked)
    · rw [register]
      cases hsealer : s.sealer with
      | none => exact .failed
      | some w =>
        dsimp only
        cases body.read "epoch" >>= X.toNumber with
        | error message => exact .failed
        | ok epoch =>
          dsimp only
          split
          · exact .acked hsealer
          · exact .refused hsealer
    · rw [receipt]
      cases hsealer : s.sealer with
      | none => exact .failed
      | some w =>
        dsimp only
        cases body.read "input" >>= X.asEvent with
        | error message => exact .failed
        | ok event =>
          dsimp only
          split
          · rename_i envelope henvelope
            exact .sealed hsealer henvelope
          · exact .refused hsealer
    · exact .failed

/-- A message is written exactly where it fits a frame. -/
theorem send_cases (s : EnclaveServer) (c : Nat) (r : Reply) :
    s.send X c r = .ok { s with sent := s.sent ++ [(c, r)] } ∨
      MAX_FRAME_BYTES < (X.stringify r).length ∧ ∃ e, s.send X c r = .error e := by
  rw [send, encodeFrame]
  split_ifs with hlong
  · exact .inr ⟨hlong, _, rfl⟩
  · exact .inl rfl

theorem sendError_sends (s : EnclaveServer) (c : Nat) (r : Reply) (message : String) :
    Sends X s c r (s.sendError X c message) := by
  rw [sendError]
  obtain h | ⟨hlong, e, h⟩ := s.send_cases (X := X) c (.error message)
  · rw [h]
    exact .reported
  · rw [h]
    exact .ended hlong

theorem answer_sends (s : EnclaveServer) (c : Nat) (r : Reply) :
    Sends X s c r (s.answer X c r) := by
  rw [answer]
  obtain h | ⟨-, e, h⟩ := s.send_cases (X := X) c r
  · rw [h]
    exact .sent
  · rw [h]
    exact s.sendError_sends c r e.detail

/-- What holds of a server and the frames its handler has still to handle, and is kept by every
frame, holds when the handler stops. -/
theorem handle_induction {P : EnclaveServer → List Frame → Prop}
    (hdown : ∀ s fs, s.down = true → P s fs → P s [])
    (hturn : ∀ s f fs s' o r s'', P s (f :: fs) → s.down = false → Handles H s (s', o) →
      o.shown = some r → Sends X s' c r s'' → P s'' fs)
    (hpending : ∀ s f fs s', P s (f :: fs) → s.down = false → Handles H s (s', .pending) →
      P { s' with waiting := some (c, fs) } [])
    {fs : List Frame} (sources : Nat → CreationSources) (h : P s fs) :
    P (handle H X c s fs sources) [] := by
  induction fs generalizing s sources with
  | nil => exact h
  | cons f fs ih =>
    rw [handle]
    split_ifs with hended
    · exact hdown s _ hended h
    · have hup : s.down = false := by simpa using hended
      have hhandles := onFrame_handles (H := H) (X := X) (s := s) f (sources 0)
      split
      · rename_i s' houtcome
        exact hpending s f fs s' h hup (houtcome ▸ hhandles)
      · rename_i s' r houtcome
        exact ih _ (hturn s f fs s' _ r _ h hup (houtcome ▸ hhandles) rfl (answer_sends s' c r))
      · rename_i s' message houtcome
        exact ih _ (hturn s f fs s' _ _ _ h hup (houtcome ▸ hhandles) rfl
          (sendError_sends s' c _ message))

end EnclaveServer

/-! ## One key -/

/-- A message is the sealer's: the key it presents is the sealer's, its receipt was issued by it. -/
def Reply.Of (o : Option SealerHistory) : Reply → Prop
  | .register keyId entry attestation => ∃ w, o = some w ∧ w.sealer.key.keyId = keyId ∧
      w.sealer.key.directoryEntry = entry ∧ w.sealer.attestation = attestation
  | .receipt envelope => ∃ w, o = some w ∧ ∃ id, (id, envelope) ∈ w.returned
  | .ack _ | .error _ => True

/-- What is the sealer's stays so after a call. -/
theorem Reply.Of.call {H : Host} {w : SealerHistory} {r : Reply} (h : r.Of (some w))
    (call : SealerCall) : r.Of (some (w.call H call)) := by
  obtain ⟨hkey, -, hattestation⟩ := NitroReceiptSealer.call_keeps (H := H) (s := w.sealer) call
  cases r with
  | register keyId entry attestation =>
    obtain ⟨w', hw, hkeyId, hentry, hdocument⟩ := h
    cases hw
    refine ⟨_, rfl, ?_, ?_, hattestation.trans hdocument⟩
    · exact (congrArg KeyPair.keyId hkey).trans hkeyId
    · exact (congrArg KeyPair.directoryEntry hkey).trans hentry
  | receipt envelope =>
    obtain ⟨w', hw, id, hreturned⟩ := h
    cases hw
    exact ⟨_, rfl, id, SealerHistory.mem_returned_call hreturned call⟩
  | ack epoch => trivial
  | error message => trivial

def Reply.isRegister : Reply → Bool
  | .register .. => true
  | _ => false

/-- Before there is a sealer, what is sent presents no key and claims nothing about a sealer. -/
theorem Reply.Of.none {r : Reply} (h : r.Of none) :
    r.isRegister = false ∧ ∀ o, r.Of o := by
  cases r with
  | register keyId entry attestation =>
    obtain ⟨w, hw, -⟩ := h
    cases hw
  | receipt envelope =>
    obtain ⟨w, hw, -⟩ := h
    cases hw
  | ack epoch => exact ⟨rfl, fun _ => trivial⟩
  | error message => exact ⟨rfl, fun _ => trivial⟩

namespace EnclaveServer

/-- How often a key was presented. -/
def presented (s : EnclaveServer) : Nat := s.sent.countP fun m => m.2.isRegister

/-- The server asks for one key, presents it at most once and serves the receipts of one sealer. -/
structure Keyed (H : Host) (registry : PayloadRegistry) (s : EnclaveServer) : Prop where
  given : s.registry = registry
  asked : s.asked.length ≤ 1
  waits : s.waiting ≠ none → s.asked ≠ [] ∧ s.sealer = none
  starts : s.sealer ≠ none → s.asked ≠ []
  fresh : s.sealer = none → s.presented = 0
  once : s.presented ≤ 1
  runs : ∀ w, s.sealer = some w →
    (sealerRuns H w.sealer.key registry w.sealer.attestation).Reachable w
  sent : ∀ m ∈ s.sent, m.2.Of s.sealer

section

variable {H : Host} {X : ServerHost} {registry : PayloadRegistry} {s s' : EnclaveServer} {c : Nat}

/-- A call of the sealer keeps the server to its key. -/
theorem Keyed.call (h : s.Keyed H registry) {w : SealerHistory} (hw : s.sealer = some w)
    (call : SealerCall) : Keyed H registry { s with sealer := some (w.call H call) } := by
  have hsome : s.sealer ≠ none := by simp [hw]
  obtain ⟨hkey, -, hattestation⟩ := NitroReceiptSealer.call_keeps (H := H) (s := w.sealer) call
  refine ⟨h.given, h.asked, fun hwaits => ?_, fun _ => h.starts hsome, fun hnone => ?_, h.once,
    fun w' hw' => ?_, fun m hm => ?_⟩
  · exact absurd (h.waits hwaits).2 hsome
  · cases hnone
  · cases hw'
    have hkey' : (w.call H call).sealer.key = w.sealer.key := hkey
    have hattestation' : (w.call H call).sealer.attestation = w.sealer.attestation := hattestation
    rw [hkey', hattestation']
    exact (h.runs w hw).snoc trivial rfl
  · exact Reply.Of.call (hw ▸ h.sent m hm) call

/-- A frame keeps the server to its key, and what it is answered with is the sealer's. -/
theorem Keyed.handles (h : s.Keyed H registry) {o : Handled} {r : Reply}
    (hhandles : Handles H s (s', o)) (hshown : o.shown = some r) :
    s'.Keyed H registry ∧ r.Of s'.sealer ∧ r.isRegister = false := by
  cases hhandles with
  | failed =>
    cases hshown
    exact ⟨h, trivial, rfl⟩
  | asked hasked => cases hshown
  | refused hw =>
    cases hshown
    exact ⟨h.call hw _, trivial, rfl⟩
  | acked hw =>
    cases hshown
    exact ⟨h.call hw _, trivial, rfl⟩
  | @sealed w event sources envelope hw hsealed =>
    cases hshown
    exact ⟨h.call hw _, ⟨_, rfl, _, SealerHistory.mem_returned_sealEvent hsealed⟩, rfl⟩

/-- A handler that waits is the first. -/
theorem Keyed.pending (h : s.Keyed H registry) (hhandles : Handles H s (s', .pending))
    (fs : List Frame) : Keyed H registry { s' with waiting := some (c, fs) } := by
  cases hhandles with
  | @asked nonce hasked =>
    have hnone : s.sealer = none := by
      by_contra hsome
      exact h.starts hsome hasked
    refine ⟨h.given, le_rfl, fun _ => ⟨List.cons_ne_nil _ _, hnone⟩,
      fun _ => List.cons_ne_nil _ _, h.fresh, h.once, h.runs, h.sent⟩

/-- Sending one of the sealer's messages keeps the server to its key; a key that was presented
is not presented again. -/
theorem Keyed.sends (h : s.Keyed H registry) {r : Reply} (hof : r.Of s.sealer)
    (hnew : r.isRegister = true → s.presented = 0) (hsends : Sends X s c r s') :
    s'.Keyed H registry := by
  have hpresented : ∀ r : Reply, presented { s with sent := s.sent ++ [(c, r)] } =
      s.presented + if r.isRegister then 1 else 0 := by
    intro r
    simp [presented, List.countP_append, List.countP_cons]
  have hadd : ∀ r : Reply, r.Of s.sealer → (r.isRegister = true → s.presented = 0) →
      Keyed H registry { s with sent := s.sent ++ [(c, r)] } := by
    intro r hof hnew
    refine ⟨h.given, h.asked, h.waits, h.starts, fun hnone => ?_, ?_, h.runs, fun m hm => ?_⟩
    · rw [hpresented, (hnone ▸ hof : r.Of none).none.1, h.fresh hnone]
      rfl
    · rw [hpresented]
      cases hregister : r.isRegister with
      | true => simp [hnew hregister]
      | false => exact h.once
    · rcases List.mem_append.mp hm with hm | hm
      · exact h.sent m hm
      · rw [List.mem_singleton.mp hm]
        exact hof
  cases hsends with
  | sent => exact hadd r hof hnew
  | reported => exact hadd _ trivial fun hregister => (by cases hregister)
  | ended _ => exact ⟨h.given, h.asked, h.waits, h.starts, h.fresh, h.once, h.runs, h.sent⟩

/-- A handler keeps the server to its key. -/
theorem Keyed.handle (h : s.Keyed H registry) (fs : List Frame)
    (sources : Nat → CreationSources) : (handle H X c s fs sources).Keyed H registry := by
  refine handle_induction (P := fun s _ => s.Keyed H registry) ?_ ?_ ?_ sources h
  · intro s fs _ h
    exact h
  · intro s f fs s' o r s'' h _ hhandles hshown hsends
    obtain ⟨hkeyed, hof, hquiet⟩ := h.handles hhandles hshown
    refine hkeyed.sends hof (fun hregister => ?_) hsends
    rw [hquiet] at hregister
    cases hregister
  · intro s f fs s' h _ hhandles
    exact h.pending hhandles fs

/-- When the sealer has started or failed, the handler that waited sends what came of it and goes
on. -/
theorem Keyed.resumes (h : s.Keyed H registry) {fs : List Frame}
    (hwaiting : s.waiting = some (c, fs)) (result : Except String (KeyPair × Bytes))
    (sources : Nat → CreationSources) :
    ∃ t r t', s.onStarted H X result sources = EnclaveServer.handle H X c t' fs sources ∧
      Sends X t c r t' ∧ t'.Keyed H registry ∧
      t.sent = s.sent ∧ t.waiting = none ∧ t.taken = s.taken ∧ t.down = s.down := by
  obtain ⟨hasked, hnone⟩ := h.waits (by simp [hwaiting])
  rw [onStarted, hwaiting]
  cases result with
  | error message =>
    have hready : Keyed H registry { s with waiting := none } :=
      ⟨h.given, h.asked, fun hwaits => (hwaits rfl).elim, h.starts, h.fresh, h.once, h.runs, h.sent⟩
    have hsends := sendError_sends (X := X) { s with waiting := none } c (.error "") message
    have hreported := hready.sends (r := .error "") trivial (fun hregister => by cases hregister)
      hsends
    exact ⟨_, _, _, rfl, hsends, hreported, rfl, rfl, rfl, rfl⟩
  | ok started =>
    obtain ⟨key, attestation⟩ := started
    have hstarted : Keyed H registry { s with
        waiting := none
        sealer := some { sealer := { key, registry := s.registry, attestation } } } := by
      refine ⟨h.given, h.asked, fun hwaits => (hwaits rfl).elim, fun _ => hasked,
        fun hnone => (by cases hnone), h.once, fun w hw => ?_, fun m hm => ?_⟩
      · cases hw
        rw [← h.given]
        exact .start rfl
      · exact (hnone ▸ h.sent m hm : m.2.Of none).none.2 _
    have hsends := answer_sends (X := X) { s with
      waiting := none
      sealer := some { sealer := { key, registry := s.registry, attestation } } } c
      (.register key.keyId key.directoryEntry attestation)
    have hpresented := hstarted.sends (r := .register key.keyId key.directoryEntry attestation)
      ⟨_, rfl, rfl, rfl, rfl⟩ (fun _ => h.fresh hnone) hsends
    exact ⟨_, _, _, rfl, hsends, hpresented, rfl, rfl, rfl, rfl⟩

/-- Every event keeps the server to its key. -/
theorem Keyed.next (h : s.Keyed H registry) (e : ServerEvent) :
    (s.next H X e).Keyed H registry := by
  have hlinks : ∀ links, Keyed H registry { s with links } := fun links =>
    ⟨h.given, h.asked, h.waits, h.starts, h.fresh, h.once, h.runs, h.sent⟩
  cases e with
  | connect c =>
    rw [EnclaveServer.next]
    split_ifs
    · exact h
    · exact hlinks _
  | close c =>
    rw [EnclaveServer.next]
    split_ifs
    · exact h
    · exact hlinks _
  | data c chunk sources =>
    rw [EnclaveServer.next]
    split_ifs
    · exact h
    rw [onData]
    cases s.links c with
    | none => exact h
    | some decoder =>
      dsimp only
      have htaken : ∀ links taken, Keyed H registry { s with links, taken } := fun links taken =>
        ⟨h.given, h.asked, h.waits, h.starts, h.fresh, h.once, h.runs, h.sent⟩
      split
      · rename_i error decoder' _
        have hreported := (htaken s.links (s.taken ++ [c])).sends (r := .error "") trivial
          (fun hregister => by cases hregister)
          (sendError_sends (X := X) _ c (.error "") error.detail)
        exact ⟨hreported.given, hreported.asked, hreported.waits, hreported.starts,
          hreported.fresh, hreported.once, hreported.runs, hreported.sent⟩
      · exact (htaken _ _).handle _ sources
  | started result sources =>
    rw [EnclaveServer.next]
    split_ifs
    · exact h
    cases hwaiting : s.waiting with
    | none =>
      rw [onStarted, hwaiting]
      exact h
    | some waiter =>
      obtain ⟨t, r, t', hresumed, -, hkeyed, -⟩ := h.resumes (X := X) hwaiting result sources
      rw [hresumed]
      exact hkeyed.handle waiter.2 sources

end

/-! ## One answer a frame -/

/-- The messages sent on a connection. -/
def answers (s : EnclaveServer) (c : Nat) : Nat := s.sent.countP fun m => m.1 = c

/-- The frames of a connection whose handler waits for the sealer. -/
def outstanding (s : EnclaveServer) (c : Nat) : Nat :=
  match s.waiting with
  | none => 0
  | some (c', fs) => if c' = c then fs.length + 1 else 0

/-- Frames that a handler on one connection has still to handle. -/
def owed (c : Nat) (fs : List Frame) (c' : Nat) : Nat := if c = c' then fs.length else 0

/-- Every frame that was handed over is answered once, waits, or is still owed; only where the
process ended may answers be missing, and it ends only on an error that fits no frame. -/
structure Accounted (X : ServerHost) (s : EnclaveServer) (rest : Nat → Nat) : Prop where
  bound : ∀ c, s.answers c + s.outstanding c + rest c ≤ s.taken.count c
  exact : s.down = false → ∀ c, s.answers c + s.outstanding c + rest c = s.taken.count c
  ended : s.down = true → ∃ message, X.Oversized message

section

variable {H : Host} {X : ServerHost} {registry : PayloadRegistry} {s s' : EnclaveServer} {c : Nat}

theorem answers_append (c c' : Nat) (r : Reply) :
    answers { s with sent := s.sent ++ [(c, r)] } c' = s.answers c' + if c = c' then 1 else 0 := by
  simp [answers, List.countP_append, List.countP_cons]

/-- Sending answers one frame. -/
theorem Accounted.sends {f : Frame} {fs : List Frame} {r : Reply}
    (h : s.Accounted X (owed c (f :: fs))) (hsends : Sends X s c r s') :
    s'.Accounted X (owed c fs) := by
  have howed : ∀ c', owed c (f :: fs) c' = owed c fs c' + if c = c' then 1 else 0 := by
    intro c'
    simp only [owed, List.length_cons]
    split_ifs <;> rfl
  have hadd : ∀ r : Reply, Accounted X { s with sent := s.sent ++ [(c, r)] } (owed c fs) := by
    intro r
    refine ⟨fun c' => ?_, fun hup c' => ?_, h.ended⟩
    · have hbound := h.bound c'
      rw [howed] at hbound
      rw [answers_append]
      change _ + s.outstanding c' + _ ≤ s.taken.count c'
      omega
    · have hexact := h.exact hup c'
      rw [howed] at hexact
      rw [answers_append]
      change _ + s.outstanding c' + _ = s.taken.count c'
      omega
  cases hsends with
  | sent => exact hadd r
  | reported => exact hadd _
  | @ended message hlong =>
    refine ⟨fun c' => ?_, fun hup => (by cases hup), fun _ => ⟨message, hlong⟩⟩
    have hbound := h.bound c'
    rw [howed] at hbound
    change s.answers c' + s.outstanding c' + _ ≤ s.taken.count c'
    omega

/-- A server that keeps to its key accounts for its frames while a handler runs. -/
theorem Accounted.handle {fs : List Frame} (hkeyed : s.Keyed H registry)
    (h : s.Accounted X (owed c fs)) (sources : Nat → CreationSources) :
    (handle H X c s fs sources).Accounted X (owed c []) := by
  refine (handle_induction (H := H) (X := X)
    (P := fun s fs => s.Keyed H registry ∧ s.Accounted X (owed c fs)) ?_ ?_ ?_ sources
    ⟨hkeyed, h⟩).2
  · rintro s fs hdown ⟨hkeyed, h⟩
    refine ⟨hkeyed, fun c' => ?_, fun hup => ?_, h.ended⟩
    · have hbound := h.bound c'
      have hnone : owed c [] c' ≤ owed c fs c' := by
        simp only [owed, List.length_nil]
        split_ifs <;> omega
      omega
    · rw [hdown] at hup
      cases hup
  · rintro s f fs s' o r s'' ⟨hkeyed, h⟩ _ hhandles hshown hsends
    obtain ⟨hkeyed', hof, hquiet⟩ := hkeyed.handles hhandles hshown
    obtain ⟨hsent, hwaiting, htaken, hdown⟩ := hhandles.keeps
    have h' : s'.Accounted X (owed c (f :: fs)) := by
      constructor
      · simpa only [answers, outstanding, hsent, hwaiting, htaken] using h.bound
      · simpa only [answers, outstanding, hsent, hwaiting, htaken, hdown] using h.exact
      · simpa only [hdown] using h.ended
    refine ⟨hkeyed'.sends hof (fun hregister => ?_) hsends, h'.sends hsends⟩
    rw [hquiet] at hregister
    cases hregister
  · rintro s f fs s' ⟨hkeyed, h⟩ hup hhandles
    refine ⟨hkeyed.pending hhandles fs, ?_⟩
    cases hhandles with
    | @asked nonce hasked =>
      have hfree : s.waiting = none := by
        by_contra hwaits
        exact (hkeyed.waits hwaits).1 hasked
      have hmoved : ∀ c', outstanding { s with asked := [nonce], waiting := some (c, fs) } c' +
          owed c [] c' = s.outstanding c' + owed c (f :: fs) c' := by
        intro c'
        simp only [outstanding, owed, hfree, List.length_cons, List.length_nil]
        split_ifs <;> omega
      refine ⟨fun c' => ?_, fun _ c' => ?_, h.ended⟩
      · rw [Nat.add_assoc, hmoved, ← Nat.add_assoc]
        exact h.bound c'
      · rw [Nat.add_assoc, hmoved, ← Nat.add_assoc]
        exact h.exact hup c'

/-- Every event keeps the accounts. -/
theorem Accounted.next (hkeyed : s.Keyed H registry) (h : s.Accounted X fun _ => 0)
    (e : ServerEvent) : (s.next H X e).Accounted X fun _ => 0 := by
  have hnone : ∀ c : Nat, owed c [] = fun _ => 0 := by
    intro c
    funext c'
    simp [owed]
  have hlinks : ∀ links, Accounted X { s with links } fun _ => 0 := fun links =>
    ⟨h.bound, h.exact, h.ended⟩
  cases e with
  | connect c =>
    rw [EnclaveServer.next]
    split_ifs
    · exact h
    · exact hlinks _
  | close c =>
    rw [EnclaveServer.next]
    split_ifs
    · exact h
    · exact hlinks _
  | data c chunk sources =>
    rw [EnclaveServer.next]
    split_ifs
    · exact h
    rw [onData]
    cases s.links c with
    | none => exact h
    | some decoder =>
      dsimp only
      have htaken : ∀ links (fs : List Frame),
          Accounted X { s with links, taken := s.taken ++ fs.map fun _ => c } (owed c fs) := by
        intro links fs
        have hcount : ∀ c', (s.taken ++ fs.map fun _ => c).count c' =
            s.taken.count c' + owed c fs c' := by
          intro c'
          rw [List.count_append, List.map_const', List.count_replicate, owed]
          simp only [beq_iff_eq]
        refine ⟨fun c' => ?_, fun hup c' => ?_, h.ended⟩
        · change s.answers c' + s.outstanding c' + _ ≤ (s.taken ++ _).count c'
          rw [hcount]
          exact Nat.add_le_add_right (h.bound c') _
        · change s.answers c' + s.outstanding c' + _ = (s.taken ++ _).count c'
          rw [hcount]
          exact congrArg (· + owed c fs c') (h.exact hup c')
      split
      · rename_i error decoder' _
        have hreported := (htaken s.links [⟨0, [], []⟩]).sends
          (sendError_sends (X := X) _ c (.error "") error.detail)
        rw [hnone] at hreported
        exact ⟨hreported.bound, hreported.exact, hreported.ended⟩
      · rename_i frames decoder' _
        rw [← hnone c]
        have htakes : ∀ links, Keyed H registry
            { s with links, taken := s.taken ++ frames.map fun _ => c } := fun _ =>
          ⟨hkeyed.given, hkeyed.asked, hkeyed.waits, hkeyed.starts, hkeyed.fresh, hkeyed.once,
            hkeyed.runs, hkeyed.sent⟩
        exact (htaken _ frames).handle (htakes _) sources
  | started result sources =>
    rw [EnclaveServer.next]
    split_ifs
    · exact h
    cases hwaiting : s.waiting with
    | none =>
      rw [onStarted, hwaiting]
      exact h
    | some waiter =>
      obtain ⟨c, fs⟩ := waiter
      obtain ⟨t, r, t', hresumed, hsends, hkeyed', hsent, hwaits, htaken, hdown⟩ :=
        hkeyed.resumes (X := X) hwaiting result sources
      have hmoved : ∀ c', t.outstanding c' + owed c (⟨0, [], []⟩ :: fs) c' = s.outstanding c' := by
        intro c'
        simp only [outstanding, owed, hwaits, hwaiting, List.length_cons, Nat.zero_add]
      have hready : t.Accounted X (owed c (⟨0, [], []⟩ :: fs)) := by
        refine ⟨fun c' => ?_, fun hup c' => ?_, fun hended => h.ended (hdown ▸ hended)⟩
        · rw [answers, hsent, htaken, Nat.add_assoc, hmoved]
          exact h.bound c'
        · rw [answers, hsent, htaken, Nat.add_assoc, hmoved]
          exact h.exact (hdown ▸ hup) c'
      rw [hresumed, ← hnone c]
      exact (hready.sends hsends).handle hkeyed' sources

end

end EnclaveServer

/-! ## All runs -/

section

variable {H : Host} {X : ServerHost} {registry : PayloadRegistry} {s : EnclaveServer}

/-- Whatever happens to a server, it keeps to one key and accounts for its frames. -/
theorem keyed_of_reachable (h : (serveEnclave H X registry).Reachable s) :
    s.Keyed H registry ∧ s.Accounted X fun _ => 0 := by
  apply h.invariant
  · rintro s rfl
    refine ⟨⟨rfl, Nat.zero_le _, fun hwaits => (hwaits rfl).elim, fun hstarts => (hstarts rfl).elim,
      fun _ => rfl, Nat.zero_le _, fun w hw => (by cases hw), fun m hm => (by cases hm)⟩,
      ⟨fun c => le_rfl, fun _ c => rfl, fun hended => (by cases hended)⟩⟩
  · rintro s e s' ⟨hkeyed, haccounted⟩ rfl
    exact ⟨hkeyed.next e, haccounted.next hkeyed e⟩

/-- **One key for each enclave**: over all connections and whatever the order of chunks and
answers, at most one sealer is started, its key is presented at most once, and every receipt that is
sent is signed by exactly that key and brings along the attestation it was presented with. -/
theorem enclave_presents_one_key (h : (serveEnclave H X registry).Reachable s) :
    s.asked.length ≤ 1 ∧ s.presented ≤ 1 ∧
      ∀ c envelope, (c, .receipt envelope) ∈ s.sent → ∃ sealer : NitroReceiptSealer,
        sealer.Sealed H envelope ∧
        ∀ c' keyId entry attestation, (c', .register keyId entry attestation) ∈ s.sent →
          sealer.key.keyId = keyId ∧ sealer.key.directoryEntry = entry ∧
            sealer.attestation = attestation := by
  obtain ⟨hkeyed, -⟩ := keyed_of_reachable h
  refine ⟨hkeyed.asked, hkeyed.once, fun c envelope hsent => ?_⟩
  obtain ⟨w, hw, id, hreturned⟩ := hkeyed.sent _ hsent
  obtain ⟨-, -, hsealed⟩ := SealerHistory.sealed_of_reachable (hkeyed.runs w hw)
  refine ⟨w.sealer, hsealed _ hreturned, fun c' keyId entry attestation hregister => ?_⟩
  obtain ⟨w', hw', hpresented⟩ := hkeyed.sent _ hregister
  cases hw.symm.trans hw'
  exact hpresented

end

/-! ## A first contact -/

end Nitro

namespace Reference

open Nitro

def helloText : String := "\x7b\"nonce\":\"AAAAAAAAAAAAAAAAAAAAAA==\"\x7d"

def registerText : String := "\x7b\"epoch\":1\x7d"

/-- `JSON.parse` on the texts of a first contact. -/
def readContact (payload : Bytes) : Except String JsValue :=
  if payload = utf8 helloText then .ok (.object [("nonce", .str "AAAAAAAAAAAAAAAAAAAAAA==")])
  else if payload = utf8 registerText then .ok (.object [("epoch", .num (.ofInt 1))])
  else .error "Unexpected end of JSON input"

/-- The runtime's functions on the texts of a first contact. -/
def serverHost : ServerHost where
  parse := readContact
  bufferFrom text := match atob (utf8 text) with
    | .ok bytes => bytes
    | .error _ => []
  toNumber
    | .num n => .ok n
    | _ => .ok .nan
  asEvent _ := .error "Cannot read properties of undefined (reading 'event_id')"
  stringify
    | .register keyId entry attestation =>
      utf8 ("\x7b\"key_id\":\"" ++ keyId ++ "\",\"entry\":\x7b\"ml_dsa_pub\":\"" ++
        entry.mlDsaPub ++ "\",\"ed25519_pub\":\"" ++ entry.ed25519Pub ++ "\"\x7d,\"attestation\":\"" ++
        toBase64 attestation ++ "\"\x7d")
    | .ack _ => utf8 registerText
    | .receipt _ => []
    | .error message => utf8 ("\x7b\"message\":\"" ++ message ++ "\"\x7d")

/-- A message that arrives in one piece is handed over at once. -/
theorem push_message {m : Message} (hm : m.Sendable) : ∃ encoding,
    FrameDecoder.empty.push encoding = (.ok [m.received encoding], .empty) := by
  obtain ⟨encoding, -, hread⟩ := encode_sendable hm
  have hpush := push_encodings (.cons hread .nil)
  rw [List.flatten_singleton] at hpush
  exact ⟨encoding, hpush⟩

theorem parse_serverHost : serverHost.parse = readContact := rfl

theorem parse_helloText : serverHost.parse (utf8 helloText) =
    .ok (.object [("nonce", .str "AAAAAAAAAAAAAAAAAAAAAA==")]) := by
  rw [parse_serverHost, readContact, if_pos rfl]

theorem parse_registerText : serverHost.parse (utf8 registerText) =
    .ok (.object [("epoch", .num (.ofInt 1))]) := by
  have hother : utf8 registerText ≠ utf8 helloText := by decide
  rw [parse_serverHost, readContact, if_neg hother, if_pos rfl]

/-- A server with an open connection. -/
def linkedServer : EnclaveServer :=
  { registry := commitRegistry, links := Function.update (fun _ => none) 0 (some .empty) }

/-- A server that was asked for a key. -/
def askedServer : EnclaveServer :=
  { linkedServer with
    links := Function.update linkedServer.links 0 (some .empty)
    taken := [0]
    asked := [List.replicate 16 0]
    waiting := some (0, []) }

/-- A server that has presented its key. -/
def startedServer : EnclaveServer :=
  { askedServer with
    waiting := none
    sealer := some { sealer := { key := sourceKey, registry := commitRegistry, attestation := [] } }
    sent := [(0, .register sourceKey.keyId sourceKey.directoryEntry [])] }

/-- A server that was given an epoch. -/
def assignedServer : EnclaveServer :=
  { startedServer with
    links := Function.update startedServer.links 0 (some .empty)
    taken := [0, 0]
    sealer := some (SealerHistory.call totalHost
      { sealer := { key := sourceKey, registry := commitRegistry, attestation := [] } } assignEpoch)
    sent := [(0, .register sourceKey.keyId sourceKey.directoryEntry []), (0, .ack (.ofInt 1))] }

theorem next_hello {encoding : Bytes} (hpush : FrameDecoder.empty.push encoding =
    (.ok [Message.received ⟨1, utf8 helloText⟩ encoding], .empty)) :
    linkedServer.next totalHost serverHost (.data 0 encoding fun _ => sealSources) =
      askedServer := by
  have hlink : linkedServer.links 0 = some .empty := rfl
  have hread : serverHost.parse (Message.received ⟨1, utf8 helloText⟩ encoding).payload = _ :=
    parse_helloText
  rw [EnclaveServer.next, if_neg (by decide), EnclaveServer.onData, hlink]
  dsimp only
  rw [hpush]
  dsimp only
  rw [EnclaveServer.handle, if_neg (by exact Bool.false_ne_true), EnclaveServer.onFrame, hread]
  dsimp only
  have htype : (Message.received ⟨1, utf8 helloText⟩ encoding).type = 1 := rfl
  rw [if_pos htype]
  rfl

theorem next_register {encoding : Bytes} (hpush : FrameDecoder.empty.push encoding =
    (.ok [Message.received ⟨4, utf8 registerText⟩ encoding], .empty)) :
    startedServer.next totalHost serverHost (.data 0 encoding fun _ => sealSources) =
      assignedServer := by
  have hlink : startedServer.links 0 = some .empty := rfl
  have hread : serverHost.parse (Message.received ⟨4, utf8 registerText⟩ encoding).payload = _ :=
    parse_registerText
  rw [EnclaveServer.next, if_neg (by decide), EnclaveServer.onData, hlink]
  dsimp only
  rw [hpush]
  dsimp only
  have htype : (Message.received ⟨4, utf8 registerText⟩ encoding).type = 4 := rfl
  rw [EnclaveServer.handle, if_neg (by exact Bool.false_ne_true), EnclaveServer.onFrame, hread]
  dsimp only
  rw [if_neg (by rw [htype]; decide), if_pos htype]
  rfl

/-- A hello and then a register arrive on one connection. -/
theorem reachable_assignedServer :
    (serveEnclave totalHost serverHost commitRegistry).Reachable assignedServer := by
  obtain ⟨hello, hhello⟩ := push_message (m := ⟨1, utf8 helloText⟩) ⟨by decide, by decide⟩
  obtain ⟨register, hregister⟩ := push_message (m := ⟨4, utf8 registerText⟩) ⟨by decide, by decide⟩
  have hstart : (serveEnclave totalHost serverHost commitRegistry).Reachable
      { registry := commitRegistry } := .start rfl
  have hlinked : (serveEnclave totalHost serverHost commitRegistry).Reachable linkedServer :=
    hstart.snoc (l := ServerEvent.connect 0) trivial rfl
  have hasked := hlinked.snoc trivial (next_hello hhello).symm
  have hstarted : (serveEnclave totalHost serverHost commitRegistry).Reachable startedServer :=
    hasked.snoc (l := ServerEvent.started (.ok (sourceKey, [])) fun _ => sealSources) trivial rfl
  exact hstarted.snoc trivial (next_register hregister).symm

end Reference

namespace Nitro

open Reference

/-- A server that was given an epoch has presented one key. -/
theorem enclave_presents_one_key_assigned :
    assignedServer.presented = 1 ∧ assignedServer.asked.length ≤ 1 ∧ assignedServer.presented ≤ 1 ∧
      ∀ c envelope, (c, .receipt envelope) ∈ assignedServer.sent → ∃ sealer : NitroReceiptSealer,
        sealer.Sealed totalHost envelope ∧
        ∀ c' keyId entry attestation,
          (c', .register keyId entry attestation) ∈ assignedServer.sent →
          sealer.key.keyId = keyId ∧ sealer.key.directoryEntry = entry ∧
            sealer.attestation = attestation :=
  ⟨rfl, enclave_presents_one_key reachable_assignedServer⟩

end Nitro

end CoolSdk
