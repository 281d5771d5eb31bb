import CoolSdk.Core.Rendezvous
import CoolSdk.Core.Transition
import CoolSdk.Nitro.Authenticated
import CoolSdk.Nitro.Frames
import CoolSdk.Phala.ReferencePlane
import CoolSdk.Platform.Sections
import CoolSdk.Runtime.Json

/-!
# The collector

The host's side of the enclave link: challenge the enclave, verify its attestation, assign an
epoch, have sample events sealed and verify each receipt. Requests are made one after the other
and meet the frames that arrive in their order. The outcome depends on the bytes that arrived alone,
and what passes was attested before its key was trusted for anything.
-/

namespace CoolSdk.Nitro

/-! ## Artifacts -/

/-- What is kept of a check. -/
structure CheckSummary where
  status : CheckStatus
  reason : String
  deriving DecidableEq, Repr

structure EnclaveIdentity where
  keyId : String
  entry : DirectoryEntry
  moduleId : Option String
  attestationB64 : String

structure AttestationSummary where
  overallStatus : OverallStatus
  documentSha256 : String
  reasons : List String
  checks : List (String × CheckSummary)

/-- A receipt with what its verification said. -/
structure CollectedReceipt where
  envelope : SignedEnvelope
  overallStatus : OverallStatus
  outcome : Outcome
  reasons : List String

structure ValidationArtifact where
  schema : String := "cool.nitro-validation.v1"
  recordedAt : String
  /-- The trust bundle is not the pinned one. -/
  synthetic : Bool
  trustBundle : String × String
  policy : NitroPcrPolicy
  nonce : String
  enclave : EnclaveIdentity
  attestation : AttestationSummary
  receipts : List CollectedReceipt := []
  passed : Bool := false
  environment : Option (List (String × String))

/-! ## The collector's requests -/

/-- What the collector takes from the runtime and the package's standard registry. -/
structure CollectorHost where
  /-- `dec`: `JSON.parse` of a payload's text. -/
  parse : Bytes → Except String JsValue
  /-- `enc`: the text of a value's JSON. -/
  stringify : JsValue → Bytes
  /-- `Buffer.from(text, "base64")`. -/
  bufferFrom : String → Bytes
  /-- `randomBytes(32)` for the challenge, and two for each event. -/
  nonce : Bytes
  commitments : Nat → Bytes × Bytes
  /-- The entry that a value states; the cast of the source is taken at its word. -/
  asEntry : JsValue → DirectoryEntry
  /-- The envelope that a value states. -/
  asEnvelope : JsValue → SignedEnvelope
  standard : PayloadRegistry

structure CollectOptions where
  policy : NitroPcrPolicy
  trustBundle : Option NitroTrustBundle := none
  count : Option Nat := none
  environment : Option (List (String × String)) := none
  /-- What the clock says, by the number of the reading. -/
  now : Nat → JsNumber

/-- Where the collector is. The named phases wait for the answer to their request. -/
inductive Phase
  | hello
  | register (base : ValidationArtifact) (trust : TrustStore)
  | receipt (base : ValidationArtifact) (trust : TrustStore) (done : List CollectedReceipt)
      (input : JsValue) (rest : List JsValue)
  | returned (artifact : ValidationArtifact)
  | failed (message : String)

section

variable {κ : Type} (N : NitroHost κ) (H : Host) (X : CollectorHost) (o : CollectOptions)

/-- A sample event: commitments only. -/
def validationEvent (at_ : JsNumber) (i : Nat) : Except String JsValue := do
  let time ← toISOString (at_.add (.ofInt i))
  .ok (.object [
    ("event_id", .str s!"nitro-validation-{i}"), ("event_type", .str "ai.inference"),
    ("occurred_at", .str time), ("observed_at", .str time),
    ("source", .object [("system", .str "cool-nitro-validation"), ("instance", .str "enclave")]),
    ("actor", .object [("id", .str "workload:cool-nitro-validation"), ("type", .str "workload")]),
    ("action", .str "infer"),
    ("resource", .object [("type", .str "model"), ("ref", .str "validation/echo@1")]),
    ("payload", .object [("model", .str "validation/echo"), ("model_version", .str "1"),
      ("input_commitment", .str ("mh:sha256:" ++ toHex (X.commitments i).1)),
      ("output_commitment", .str ("mh:sha256:" ++ toHex (X.commitments i).2))])])

/-- `VALIDATION_EVENTS`. -/
def validationEvents (n : Nat) (at_ : JsNumber) : Except String (List JsValue) :=
  (List.range n).mapM (validationEvent X at_)

def CollectOptions.bundle : NitroTrustBundle := o.trustBundle.getD N.AWS_NITRO_TRUST_BUNDLE

/-- The challenge answers to the nonce that was just sent. -/
def challenge : VerifyNitroOptions :=
  { trustBundle := some (o.bundle N), policy := some o.policy
    freshness := some (.nonce X.nonce none) }

/-- The characters that `trim` takes off a text. -/
def isSpace (c : Char) : Bool :=
  [0x20, 0xa0, 0x1680, 0x2028, 0x2029, 0x202f, 0x205f, 0x3000, 0xfeff].contains c.toNat ||
    decide (0x9 ≤ c.toNat ∧ c.toNat ≤ 0xd) || decide (0x2000 ≤ c.toNat ∧ c.toNat ≤ 0x200a)

def trim (text : String) : String :=
  String.ofList (((text.toList.dropWhile isSpace).reverse.dropWhile isSpace).reverse)

/-- The artifact so far, when the attestation was judged. -/
def baseArtifact (recordedAt : String) (key : ReceiptKey) (document : Bytes)
    (report : NitroAttestationReport) : ValidationArtifact :=
  { recordedAt
    synthetic := decide ((o.bundle N).id ≠ N.AWS_NITRO_TRUST_BUNDLE.id)
    trustBundle := ((o.bundle N).id, (o.bundle N).version)
    policy := o.policy
    nonce := toHex X.nonce
    enclave := {
      keyId := key.keyId, entry := key.entry
      moduleId := nonEmpty (report.claims.map NitroClaims.moduleId)
      attestationB64 := toBase64 document }
    attestation := {
      overallStatus := report.overallStatus, documentSha256 := report.documentSha256
      reasons := report.reasons
      checks := report.checks.map fun e => (e.1, ⟨e.2.status, e.2.reason⟩) }
    environment := o.environment }

/-- The record of the attested key. -/
def attestedRecord (key : ReceiptKey) (report : NitroAttestationReport) (validFrom : String) :
    KeyRecord :=
  { keyId := key.keyId, entry := key.entry, purposes := [.evidence]
    owner := trim ("nitro enclave " ++ (report.claims.map NitroClaims.moduleId).getD "")
    validFrom, status := .active }

/-- The answer to the challenge: only a report that passes has the key trusted. -/
def onRegister (reg : JsValue) : Except String Phase := do
  let keyId ← (← reg.read "key_id").toText H
  let entry := X.asEntry (← reg.read "entry")
  let document := X.bufferFrom (← (← reg.read "attestation").toText H)
  let key : ReceiptKey := { keyId, entry }
  let (report, _) ← verifyNitroAttestation N H document
    { challenge N X o with receiptKey := some key, now := some (o.now 0) }
  let base := baseArtifact N X o (← toISOString (o.now 1)) key document report
  if report.overallStatus ≠ .pass then .ok (.returned base)
  else do
    let asOf ← toISOString (o.now 2)
    let validFrom ← toISOString ((o.now 3).sub (.ofInt 60000))
    let trust ← TrustStore.ofSnapshot
      { schema := "cool.trust-snapshot.v1", id := "attested-enclave-key", asOf
        keys := [attestedRecord key report validFrom] }
    .ok (.register base trust)

/-- Go on with the next event, or return the artifact. -/
def proceed (base : ValidationArtifact) (trust : TrustStore) (done : List CollectedReceipt) :
    List JsValue → Phase
  | [] => .returned { base with
      receipts := done
      passed := decide (done ≠ []) && done.all fun r => decide (r.overallStatus = .pass) }
  | input :: rest => .receipt base trust done input rest

/-- The Nitro verifier on a document attached to a receipt. Its signer's entry is there. -/
def verifyAttached (document : Bytes) (signer : String) (entry : Option DirectoryEntry) :
    Except String NitroReport :=
  match entry with
  | none => .error (JsValue.readError "undefined" "ml_dsa_pub")
  | some entry => do
    let (report, _) ← verifyNitroAttestation N H document
      { challenge N X o with receiptKey := some { keyId := signer, entry } }
    .ok { overallStatus := report.overallStatus, reasons := report.reasons
          documentSha256 := report.documentSha256
          parserName := "cool-nitro", parserVersion := "1" }

def receiptOptions (trust : TrustStore) (now : JsNumber) : VerifyEnvelopeOptions :=
  { registry := X.standard, trust, now, nitro := verifyAttached N H X o }

/-- The answer to an event: the receipt is verified and kept. -/
def onReceipt (base : ValidationArtifact) (trust : TrustStore) (done : List CollectedReceipt)
    (rest : List JsValue) (out : JsValue) : Except String Phase := do
  let envelope := X.asEnvelope (← out.read "envelope")
  let r ← verifyEnvelope H envelope (receiptOptions N H X o trust (o.now (5 + done.length)))
  let receipt : CollectedReceipt :=
    { envelope, overallStatus := r.overallStatus, outcome := r.outcome, reasons := r.reasons }
  .ok (proceed base trust (done ++ [receipt]) rest)

/-- The request that a phase makes: its frame type, its body and the type that is expected. -/
def Phase.request : Phase → Option (Nat × JsValue × Nat)
  | .hello => some (1, .object [("nonce", .str (toBase64 X.nonce))], 4)
  | .register _ _ => some (4, .object [("epoch", .num (.ofInt 1))], 3)
  | .receipt _ _ _ input _ => some (2, .object [("input", input)], 2)
  | .returned _ | .failed _ => none

/-- The body of an answer. -/
def answerBody (f : Frame) (expect : Nat) : Except String JsValue := do
  let body ← X.parse f.payload
  if f.type = 5 then do
    let message ← (← body.read "message").toText H
    .error ("enclave error: " ++ message)
  else if f.type ≠ expect then .error s!"unexpected frame type {f.type}"
  else .ok body

/-- What the answer to a phase's request leads to. -/
def Phase.resume (body : JsValue) : Phase → Except String Phase
  | .hello => onRegister N H X o body
  | .register base trust => do
    let inputs ← validationEvents X (o.count.getD 3) (o.now 4)
    .ok (proceed base trust [] inputs)
  | .receipt base trust done _ rest => onReceipt N H X o base trust done rest body
  | p => .ok p

/-- A phase makes its request; one that fits no frame fails. -/
def Phase.enter (p : Phase) : Phase :=
  match p.request X with
  | none => p
  | some (type, body, _) =>
    match encodeFrame type (X.stringify body) with
    | .ok _ => p
    | .error e => .failed e.detail

/-- The phase after a frame that answers its request. -/
def Phase.advance (p : Phase) (f : Frame) : Phase :=
  match p.request X with
  | none => p
  | some (_, _, expect) =>
    match answerBody H X f expect >>= fun body => p.resume N H X o body with
    | .ok p' => p'.enter X
    | .error message => .failed message

end

/-! ## Frames and requests -/

/-- The collector on its socket. -/
structure Collector where
  decoder : FrameDecoder := .empty
  /-- The frames that no request has taken and the requests that wait for one, by number. -/
  session : Rendezvous Nat Frame := {}
  asked : Nat := 0
  /-- The frame that the current request was resolved with. -/
  resolved : Option Frame := none
  phase : Phase
  /-- What was sent and what has arrived. -/
  sent : List (Nat × JsValue) := []
  received : Bytes := []

inductive CollectorEvent
  | data (chunk : Bytes)
  /-- The current request goes on with its frame. -/
  | resume
  /-- The timer of the current request fires. Its place in the session stays. -/
  | timeout

namespace Collector

variable {κ : Type} (N : NitroHost κ) (H : Host) (X : CollectorHost) (o : CollectOptions)

/-- Make the request of the phase. -/
def ask (c : Collector) : Collector :=
  match c.phase.request X with
  | none => c
  | some (type, body, _) =>
    { c with
      asked := c.asked + 1
      sent := c.sent ++ [(type, body)]
      session := (c.session.take c.asked).1
      resolved := (c.session.take c.asked).2.head?.map Prod.snd }

/-- The collector once it is connected. -/
def start : Collector := ask X { phase := Phase.hello.enter X }

/-- A framing error is thrown out of the data handler and ends the process. -/
def onData (c : Collector) (chunk : Bytes) : Collector :=
  match c.decoder.push chunk with
  | (.error e, decoder) =>
    { c with decoder, received := c.received ++ chunk, phase := .failed e.detail }
  | (.ok frames, decoder) =>
    { c with
      decoder
      received := c.received ++ chunk
      session := (c.session.putAll frames).1
      resolved := c.resolved.or ((c.session.putAll frames).2.head?.map Prod.snd) }

/-- The collector after an event. Where no request is made the socket is destroyed. -/
def next (c : Collector) (e : CollectorEvent) : Collector :=
  if (c.phase.request X).isNone then c
  else
    match e with
    | .data chunk => c.onData chunk
    | .resume =>
      match c.resolved with
      | none => c
      | some f => ask X { c with resolved := none, phase := c.phase.advance N H X o f }
    | .timeout =>
      if c.resolved.isSome then c
      else { c with phase := .failed "enclave did not answer in time" }

end Collector

/-- The collector's runs, under chunks of any size and timers that fire at any time. -/
def collectFromEnclave {κ : Type} (N : NitroHost κ) (H : Host) (X : CollectorHost)
    (o : CollectOptions) : TransitionSystem Collector CollectorEvent where
  init c := c = Collector.start X
  step c e c' := c' = c.next N H X o e

section

variable {κ : Type} {N : NitroHost κ} {H : Host} {X : CollectorHost} {o : CollectOptions}

/-- A phase that makes no request has no answer to wait for. -/
theorem Phase.advance_ended {p : Phase} (h : p.request X = none) (f : Frame) :
    p.advance N H X o f = p := by
  rw [Phase.advance, h]

theorem Phase.foldl_advance_ended {p : Phase} (h : p.request X = none) (frames : List Frame) :
    frames.foldl (Phase.advance N H X o) p = p := by
  induction frames with
  | nil => rfl
  | cons f frames ih => rw [List.foldl_cons, p.advance_ended h, ih]

/-- A request that fits a frame is made. -/
theorem Phase.enter_eq {p : Phase} {type expect : Nat} {body : JsValue}
    (h : p.request X = some (type, body, expect))
    (hfits : (X.stringify body).length ≤ MAX_FRAME_BYTES) : p.enter X = p := by
  rw [Phase.enter, h]
  dsimp only
  rw [encodeFrame, if_neg (Nat.not_lt.mpr hfits)]

/-- An answer of the type that is expected leads on. -/
theorem Phase.advance_eq {p p' : Phase} {type : Nat} {body value : JsValue} {m : Message}
    {e : Bytes} (h : p.request X = some (type, body, m.type)) (hanswer : m.type ≠ 5)
    (hparse : X.parse m.payload = .ok value) (hresume : p.resume N H X o value = .ok p') :
    p.advance N H X o (m.received e) = p'.enter X := by
  have hbody : answerBody H X (m.received e) m.type = .ok value := by
    rw [answerBody]
    change (X.parse m.payload >>= fun body => if m.type = 5 then _ else
      if m.type ≠ m.type then _ else _) = _
    rw [hparse, ok_bind, if_neg hanswer, if_neg (not_not_intro rfl)]
  rw [Phase.advance, h]
  dsimp only
  rw [hbody, ok_bind, hresume]

variable (N H X o) in
/-- The phase that frames lead to, one for each request. -/
def Phase.after (frames : List Frame) : Phase :=
  frames.foldl (Phase.advance N H X o) (Phase.hello.enter X)

/-- Where the frames so far have taken the collector: the current request is the one behind those
it has answered, and is resolved by the next frame as soon as that is there. -/
structure Collector.Tracks (N : NitroHost κ) (H : Host) (X : CollectorHost) (o : CollectOptions)
    (c : Collector) (frames : List Frame) : Prop where
  decoded : FrameDecoder.empty.push c.received = (.ok frames, c.decoder)
  pairs : Rendezvous.Pairs (List.range c.asked) frames c.session
    ((List.range c.asked).zip frames)
  waits : c.phase.request X ≠ none → ∃ k ≤ frames.length, c.asked = k + 1 ∧
    c.phase = Phase.after N H X o (frames.take k) ∧ c.resolved = frames[k]?
  ended : c.phase.request X = none → c.phase = Phase.after N H X o frames

namespace Collector

variable {c : Collector} {frames : List Frame}

/-- Making a request changes neither the phase nor what has arrived. -/
theorem ask_keeps (c : Collector) : (Collector.ask X c).phase = c.phase ∧
    (Collector.ask X c).decoder = c.decoder ∧ (Collector.ask X c).received = c.received := by
  rw [Collector.ask]
  split <;> exact ⟨rfl, rfl, rfl⟩

theorem asked_ask (h : c.phase.request X ≠ none) : (Collector.ask X c).asked = c.asked + 1 := by
  rw [Collector.ask]
  split
  · rename_i hnone
    exact absurd hnone h
  · rfl

/-- Pushing a chunk is pushing all that has arrived. -/
theorem push_received (h : FrameDecoder.empty.push c.received = (.ok frames, c.decoder))
    {chunk : Bytes} {more : List Frame} {decoder : FrameDecoder}
    (hpush : c.decoder.push chunk = (.ok more, decoder)) :
    FrameDecoder.empty.push (c.received ++ chunk) = (.ok (frames ++ more), decoder) := by
  obtain ⟨hframes, hdecoder⟩ := Prod.mk.inj h
  obtain ⟨hmore, rfl⟩ := Prod.mk.inj hpush
  rw [FrameDecoder.empty, List.nil_append] at hframes hdecoder
  rw [← hdecoder] at hmore ⊢
  have hdrain : frameReader.drain c.received = (.ok frames, (frameReader.drain c.received).2) :=
    Prod.ext hframes rfl
  have hbehind : frameReader.drain ((frameReader.drain c.received).2 ++ chunk) =
      (.ok more, (frameReader.drain ((frameReader.drain c.received).2 ++ chunk)).2) :=
    Prod.ext hmore rfl
  rw [FrameDecoder.push, FrameDecoder.empty, List.nil_append, Reader.drain_append hdrain, hbehind]
  rfl

/-- Making a request takes the next frame, if that is there. -/
theorem Tracks.ask {k : Nat}
    (hdecoded : FrameDecoder.empty.push c.received = (.ok frames, c.decoder))
    (hpairs : Rendezvous.Pairs (List.range c.asked) frames c.session
      ((List.range c.asked).zip frames))
    (hk : k ≤ frames.length) (hasked : c.asked = k)
    (hphase : c.phase = Phase.after N H X o (frames.take k)) :
    (Collector.ask X c).Tracks N H X o frames := by
  rw [Collector.ask]
  cases hrequest : c.phase.request X with
  | none =>
    refine ⟨hdecoded, hpairs, fun hwaits => absurd hrequest hwaits, fun _ => ?_⟩
    have hafter := Phase.foldl_advance_ended (N := N) (H := H) (o := o) hrequest (frames.drop k)
    rw [hphase, Phase.after, ← List.foldl_append, List.take_append_drop] at hafter
    exact hphase.trans hafter.symm
  | some request =>
    obtain ⟨type, body, expect⟩ := request
    have htake := hpairs.take c.asked
    rw [← List.range_succ] at htake
    refine ⟨hdecoded, htake.met_eq ▸ htake, fun _ => ⟨k, hk, ?_, hphase, ?_⟩, fun hended => ?_⟩
    · rw [← hasked]
    · change Option.map Prod.snd (c.session.take c.asked).2.head? = _
      rw [hpairs.take_eq, List.length_range, hasked]
      cases frames[k]? <;> rfl
    · change c.phase.request X = none at hended
      rw [hrequest] at hended
      cases hended

theorem tracks_start : (Collector.start X).Tracks N H X o [] := by
  have hempty : frameReader.read [] = .ok none := rfl
  have hpush : FrameDecoder.empty.push [] = (.ok [], .empty) := by
    rw [FrameDecoder.push, FrameDecoder.empty, List.nil_append, Reader.drain_none hempty]
  exact Tracks.ask (k := 0) hpush Rendezvous.pairs_empty le_rfl rfl rfl

/-- A chunk brings the frames that it completes. -/
theorem Tracks.data (h : c.Tracks N H X o frames) (hwaits : c.phase.request X ≠ none)
    {chunk : Bytes} {more : List Frame} {decoder : FrameDecoder}
    (hpush : c.decoder.push chunk = (.ok more, decoder)) :
    (c.onData chunk).Tracks N H X o (frames ++ more) := by
  rw [Collector.onData, hpush]
  obtain ⟨k, hk, hasked, hphase, hresolved⟩ := h.waits hwaits
  have hput := h.pairs.putAll more
  refine ⟨push_received h.decoded hpush, hput.met_eq ▸ hput, fun _ => ⟨k, ?_, hasked, ?_, ?_⟩,
    fun hended => absurd hended hwaits⟩
  · rw [List.length_append]
    exact hk.trans (Nat.le_add_right _ _)
  · rw [List.take_append_of_le_length hk]
    exact hphase
  · change c.resolved.or _ = _
    rw [hresolved, h.pairs.putAll_eq, List.head?_drop, List.length_range, hasked]
    rcases Nat.lt_or_ge k frames.length with hlt | hge
    · rw [List.getElem?_eq_getElem hlt, List.getElem?_append_left hlt,
        List.getElem?_eq_getElem hlt]
      rfl
    · have hlength : frames.length = k := le_antisymm hge hk
      have hnone : frames[k]? = none := List.getElem?_eq_none hge
      rw [hnone, Option.none_or, hlength, min_eq_right (Nat.le_succ k), List.zip,
        List.getElem?_zipWith, List.getElem?_range (Nat.lt_succ_self k)]
      cases (frames ++ more)[k]? <;> rfl

/-- The current request goes on with the frame at its place. -/
theorem Tracks.resume (h : c.Tracks N H X o frames) {k : Nat} (hasked : c.asked = k + 1)
    (hwaits : c.phase.request X ≠ none) {f : Frame} (hframe : frames[k]? = some f) :
    c.next N H X o .resume = Collector.ask X { c with
      resolved := none
      phase := c.phase.advance N H X o f } ∧
    (c.next N H X o .resume).Tracks N H X o frames := by
  obtain ⟨k', hk, hasked', hphase, hresolved⟩ := h.waits hwaits
  obtain rfl : k' = k := by omega
  have hnext : c.next N H X o .resume = Collector.ask X { c with
      resolved := none
      phase := c.phase.advance N H X o f } := by
    unfold Collector.next
    rw [if_neg (by simpa using hwaits)]
    simp only [hresolved, hframe]
  obtain ⟨hlt, hget⟩ := List.getElem?_eq_some_iff.mp hframe
  refine ⟨hnext, hnext ▸ Tracks.ask h.decoded h.pairs hlt hasked ?_⟩
  change c.phase.advance N H X o f = _
  rw [hphase, Phase.after, Phase.after, List.take_add_one, hframe, List.foldl_append]
  rfl

/-- As long as no timer has fired and no framing error was met, the collector is where the frames
that arrived have taken it. -/
def Followed (N : NitroHost κ) (H : Host) (X : CollectorHost) (o : CollectOptions)
    (c : Collector) : Prop :=
  (∃ message, c.phase = .failed message) ∨ ∃ frames, c.Tracks N H X o frames

theorem Followed.next (h : c.Followed N H X o) (e : CollectorEvent) :
    (c.next N H X o e).Followed N H X o := by
  unfold Collector.next
  by_cases hended : (c.phase.request X).isNone
  · rw [if_pos hended]
    exact h
  rw [if_neg hended]
  have hrequest : c.phase.request X ≠ none := by simpa using hended
  rcases h with ⟨message, hfailed⟩ | ⟨frames, htracks⟩
  · rw [hfailed] at hrequest
    exact (hrequest rfl).elim
  cases e with
  | data chunk =>
    cases hpush : c.decoder.push chunk with
    | mk result decoder =>
      cases result with
      | error e =>
        refine .inl ⟨e.detail, ?_⟩
        dsimp only
        rw [Collector.onData, hpush]
      | ok more => exact .inr ⟨_, htracks.data hrequest hpush⟩
  | resume =>
    obtain ⟨k, hk, hasked, hphase, hresolved⟩ := htracks.waits hrequest
    cases hframe : c.resolved with
    | none => exact .inr ⟨frames, htracks⟩
    | some f =>
      have hresumed := (htracks.resume hasked hrequest (hresolved ▸ hframe)).2
      unfold Collector.next at hresumed
      rw [if_neg hended] at hresumed
      simp only [hframe] at hresumed
      exact .inr ⟨frames, hresumed⟩
  | timeout =>
    dsimp only
    split_ifs
    · exact .inr ⟨frames, htracks⟩
    · exact .inl ⟨_, rfl⟩

/-- In every run the collector is where the frames that arrived have taken it, or has failed. -/
theorem followed_of_reachable (h : (collectFromEnclave N H X o).Reachable c) :
    c.Followed N H X o := by
  apply h.invariant
  · rintro c rfl
    exact .inr ⟨[], tracks_start⟩
  · rintro c e c' hc rfl
    exact hc.next e

/-- Bytes that decode to frames take a collector where those frames lead: they arrive at once, and
each request goes on as soon as it can. -/
theorem exists_collected {bytes : Bytes} {decoder : FrameDecoder}
    (hpush : FrameDecoder.empty.push bytes = (.ok frames, decoder))
    (hstart : (Phase.hello.enter X).request X ≠ none) :
    ∃ c, (collectFromEnclave N H X o).Reachable c ∧ c.received = bytes ∧
      c.phase = Phase.after N H X o frames := by
  have hbegun : (collectFromEnclave N H X o).Reachable (Collector.start X) := .start rfl
  obtain ⟨hphase, hdecoder, hreceived⟩ := ask_keeps (X := X) { phase := Phase.hello.enter X }
  have hwaits : (Collector.start X).phase.request X ≠ none := by
    rw [Collector.start, hphase]
    exact hstart
  have hdata : (Collector.start X).next N H X o (.data bytes) =
      (Collector.start X).onData bytes := by
    unfold Collector.next
    rw [if_neg (by simpa using hwaits)]
  have hnext : (Collector.start X).decoder.push bytes = (.ok frames, decoder) := by
    rw [Collector.start, hdecoder]
    exact hpush
  have harrived := tracks_start.data (N := N) (H := H) (o := o) hwaits hnext
  rw [List.nil_append] at harrived
  have hbytes : ((Collector.start X).onData bytes).received = bytes := by
    rw [Collector.onData, hnext]
    exact congrArg (· ++ bytes) hreceived
  have hresumed : ∀ n ≤ frames.length, ∃ c : Collector,
      (collectFromEnclave N H X o).Reachable c ∧ c.received = bytes ∧
      c.Tracks N H X o frames ∧ (c.phase.request X ≠ none → n + 1 ≤ c.asked) := by
    intro n
    induction n with
    | zero =>
      intro _
      refine ⟨_, hbegun.snoc trivial hdata.symm, hbytes, harrived, fun hwaits => ?_⟩
      obtain ⟨k, -, hasked, -⟩ := harrived.waits hwaits
      omega
    | succ n ih =>
      intro hn
      obtain ⟨c, hreachable, hreceived, htracks, hfar⟩ := ih (Nat.le_of_succ_le hn)
      by_cases hended : c.phase.request X = none
      · exact ⟨c, hreachable, hreceived, htracks, fun hwaits => absurd hended hwaits⟩
      · obtain ⟨k, -, hasked, -⟩ := htracks.waits hended
        have hfar' := hfar hended
        rcases Nat.lt_or_ge n k with hlt | hge
        · exact ⟨c, hreachable, hreceived, htracks, fun _ => by omega⟩
        · have hframe : frames[k]? = some frames[k] := List.getElem?_eq_getElem (by omega)
          obtain ⟨hask, htracks'⟩ := htracks.resume hasked hended hframe
          refine ⟨_, hreachable.snoc trivial rfl, ?_, htracks', fun hwaits => ?_⟩
          · rw [hask, (ask_keeps _).2.2]
            exact hreceived
          · rw [hask, (ask_keeps _).1] at hwaits
            rw [hask, asked_ask hwaits]
            change n + 1 + 1 ≤ c.asked + 1
            omega
  obtain ⟨c, hreachable, hreceived, htracks, hfar⟩ := hresumed frames.length le_rfl
  refine ⟨c, hreachable, hreceived, ?_⟩
  by_cases hended : c.phase.request X = none
  · exact htracks.ended hended
  · obtain ⟨k, hk, hasked, hphase, -⟩ := htracks.waits hended
    have hlength : k = frames.length := by
      have hfar' := hfar hended
      omega
    rwa [hlength, List.take_length] at hphase

end Collector

/-- **The artifact depends on the bytes that arrived alone**: where two collectors with the same
nonce, events and clock readings return and one has received what the other has, and possibly more,
they return the same artifact, wherever the bytes were cut and whenever timers fired. -/
theorem artifact_of_bytes {c c' : Collector} (h : (collectFromEnclave N H X o).Reachable c)
    (h' : (collectFromEnclave N H X o).Reachable c') (hreceived : c.received <+: c'.received)
    {artifact artifact' : ValidationArtifact} (hreturned : c.phase = .returned artifact)
    (hreturned' : c'.phase = .returned artifact') : artifact = artifact' := by
  have hframes : ∀ {c : Collector} {artifact : ValidationArtifact},
      (collectFromEnclave N H X o).Reachable c → c.phase = .returned artifact →
        ∃ frames, FrameDecoder.empty.push c.received = (.ok frames, c.decoder) ∧
          Phase.after N H X o frames = .returned artifact := by
    intro c artifact h hreturned
    obtain ⟨message, hfailed⟩ | ⟨frames, htracks⟩ := Collector.followed_of_reachable h
    · rw [hreturned] at hfailed
      cases hfailed
    · have hended : c.phase.request X = none := by rw [hreturned]; rfl
      exact ⟨frames, htracks.decoded, (htracks.ended hended).symm.trans hreturned⟩
  obtain ⟨frames, hpush, hafter⟩ := hframes h hreturned
  obtain ⟨frames', hpush', hafter'⟩ := hframes h' hreturned'
  obtain ⟨rest, hrest⟩ := hreceived
  obtain ⟨hdecoded, -⟩ := Prod.mk.inj hpush
  obtain ⟨hdecoded', -⟩ := Prod.mk.inj hpush'
  rw [FrameDecoder.empty, List.nil_append] at hdecoded hdecoded'
  have hdrain : frameReader.drain c.received = (.ok frames, (frameReader.drain c.received).2) :=
    Prod.ext hdecoded rfl
  rw [← hrest, Reader.drain_append hdrain] at hdecoded'
  obtain ⟨more, -, rfl⟩ := ok_of_map_eq hdecoded'
  have hended : (Phase.after N H X o frames).request X = none := by rw [hafter]; rfl
  have hmore := Phase.foldl_advance_ended (N := N) (H := H) (o := o) hended more
  rw [Phase.after, ← List.foldl_append] at hmore
  have hsame := hafter'.symm.trans (hmore.trans hafter)
  cases hsame
  rfl

end

/-! ## What passes -/

section

variable {κ : Type} (N : NitroHost κ) (H : Host) (X : CollectorHost) (o : CollectOptions)

/-- The first answer names a key and carries a document that attests to it, under the bundle and
the policy asked for and to the nonce just sent. -/
structure AttestedIn (reg : JsValue) (key : ReceiptKey) (document : Bytes) : Prop where
  named : (reg.read "key_id" >>= JsValue.toText H) = .ok key.keyId
  presented : (reg.read "entry").map X.asEntry = .ok key.entry
  carried : (reg.read "attestation" >>= JsValue.toText H).map X.bufferFrom = .ok document
  attests : ∃ doc, Attests N H document (o.bundle N) o.policy key (.nonce X.nonce none) (o.now 0)
    (o.now 0) doc

/-- The collector trusts one key, which the first answer attested. -/
structure TrustedAfter (reg : JsValue) (base : ValidationArtifact) (trust : TrustStore) : Prop where
  attested : ∃ document, base.enclave.attestationB64 = toBase64 document ∧
    AttestedIn N H X o reg ⟨base.enclave.keyId, base.enclave.entry⟩ document
  only : ∀ id k, trust.get id = some k → id = base.enclave.keyId

/-- A receipt was verified against the collector's store, at some reading of the clock. -/
def JudgedBy (trust : TrustStore) (r : CollectedReceipt) : Prop :=
  ∃ n report, verifyEnvelope H r.envelope (receiptOptions N H X o trust (o.now n)) = .ok report ∧
    report.overallStatus = r.overallStatus

/-- What holds of a phase behind the first answer. -/
def Phase.Sound (reg : JsValue) : Phase → Prop
  | .hello => False
  | .register base trust => TrustedAfter N H X o reg base trust
  | .receipt base trust done _ _ =>
    TrustedAfter N H X o reg base trust ∧ ∀ r ∈ done, JudgedBy N H X o trust r
  | .returned artifact => artifact.passed = true → artifact.receipts ≠ [] ∧
      ∃ trust, TrustedAfter N H X o reg artifact trust ∧
        ∀ r ∈ artifact.receipts, r.overallStatus = .pass ∧ JudgedBy N H X o trust r
  | .failed _ => True

variable {N H X o} {reg : JsValue}

/-- Entering a phase does not change what is known, unless its request fails. -/
theorem Phase.Sound.enter {p : Phase} (h : p.Sound N H X o reg) :
    (p.enter X).Sound N H X o reg := by
  rw [Phase.enter]
  split
  · exact h
  · split
    · exact h
    · trivial

theorem sound_proceed {base : ValidationArtifact} {trust : TrustStore}
    {done : List CollectedReceipt} (htrusted : TrustedAfter N H X o reg base trust)
    (hdone : ∀ r ∈ done, JudgedBy N H X o trust r) (inputs : List JsValue) :
    (proceed base trust done inputs).Sound N H X o reg := by
  cases inputs with
  | cons input rest => exact ⟨htrusted, hdone⟩
  | nil =>
    intro hpassed
    have hall : done ≠ [] ∧ ∀ r ∈ done, r.overallStatus = .pass := by
      simpa [proceed, List.all_eq_true] using hpassed
    exact ⟨hall.1, trust, ⟨htrusted.attested, htrusted.only⟩,
      fun r hr => ⟨hall.2 r hr, hdone r hr⟩⟩

/-- The answer to the challenge has the key trusted only where the document attests to it. -/
theorem sound_onRegister {p : Phase} (h : onRegister N H X o reg = .ok p) :
    p.Sound N H X o reg := by
  unfold onRegister at h
  obtain ⟨keyIdValue, hkeyIdValue, h⟩ := bind_eq_ok.mp h
  obtain ⟨keyId, hkeyId, h⟩ := bind_eq_ok.mp h
  obtain ⟨entryValue, hentry, h⟩ := bind_eq_ok.mp h
  obtain ⟨documentValue, hdocumentValue, h⟩ := bind_eq_ok.mp h
  obtain ⟨text, htext, h⟩ := bind_eq_ok.mp h
  obtain ⟨⟨report, ledger⟩, hreport, h⟩ := bind_eq_ok.mp h
  obtain ⟨recordedAt, -, h⟩ := bind_eq_ok.mp h
  dsimp only at h
  split_ifs at h with hstatus
  · cases h
    intro hpassed
    cases hpassed
  · obtain ⟨asOf, -, h⟩ := bind_eq_ok.mp h
    obtain ⟨validFrom, -, h⟩ := bind_eq_ok.mp h
    obtain ⟨trust, htrust, h⟩ := bind_eq_ok.mp h
    cases h
    have hpass : report.overallStatus = .pass := not_not.mp hstatus
    obtain ⟨doc, a, keys, hclaims⟩ := claims_of_pass hreport hpass
    have hattests := hclaims.attests rfl rfl rfl
    refine ⟨⟨X.bufferFrom text, rfl, ⟨?_, ?_, ?_, doc, hattests⟩⟩, ?_⟩
    · rw [hkeyIdValue]
      exact hkeyId
    · rw [hentry]
      rfl
    · rw [hdocumentValue]
      exact congrArg (Except.map X.bufferFrom) htext
    · intro id k hk
      rw [TrustStore.ofSnapshot, if_neg (not_not_intro rfl)] at htrust
      cases htrust
      have hmem := List.mem_singleton.mp (OrderedMap.get_ofList hk)
      exact congrArg Prod.fst hmem

/-- An answer whose document attests has its key trusted. -/
theorem onRegister_eq {r entry : JsValue} {keyId text recordedAt asOf validFrom : String}
    {result : NitroAttestationReport × Option NonceLedger}
    (hkeyId : r.read "key_id" = .ok (.str keyId)) (hentry : r.read "entry" = .ok entry)
    (hdocument : r.read "attestation" = .ok (.str text))
    (hreport : verifyNitroAttestation N H (X.bufferFrom text)
      { challenge N X o with
        receiptKey := some ⟨keyId, X.asEntry entry⟩, now := some (o.now 0) } = .ok result)
    (hpass : result.1.overallStatus = .pass) (hrecorded : toISOString (o.now 1) = .ok recordedAt)
    (hasOf : toISOString (o.now 2) = .ok asOf)
    (hvalidFrom : toISOString ((o.now 3).sub (.ofInt 60000)) = .ok validFrom) :
    onRegister N H X o r = .ok (.register
      (baseArtifact N X o recordedAt ⟨keyId, X.asEntry entry⟩ (X.bufferFrom text) result.1)
      { id := "attested-enclave-key", asOf, maxAgeMs := none
        keys := .ofList
          [(keyId, attestedRecord ⟨keyId, X.asEntry entry⟩ result.1 validFrom)] }) := by
  have htext : ∀ s, JsValue.toText H (.str s) = .ok s := fun _ => rfl
  unfold onRegister
  simp only [hkeyId, hentry, hdocument, htext, ok_bind, hreport, hrecorded, hasOf, hvalidFrom,
    hpass, ne_eq, not_true_eq_false, if_false]
  rfl

/-- An attested key, an assigned epoch and one receipt that passes are an artifact that passed. -/
theorem passed_of_one_receipt {m₁ m₂ m₃ : Message} (e₁ e₂ e₃ : Bytes)
    {v₁ v₂ v₃ input envelope : JsValue} {base : ValidationArtifact} {trust : TrustStore}
    {y : SignedEnvelope} {t : JsNumber} {report : VerificationReport}
    (htypes : m₁.type = 4 ∧ m₂.type = 3 ∧ m₃.type = 2)
    (hparse : X.parse m₁.payload = .ok v₁ ∧ X.parse m₂.payload = .ok v₂ ∧
      X.parse m₃.payload = .ok v₃)
    (hnonce : (X.stringify (.object [("nonce", .str (toBase64 X.nonce))])).length ≤
      MAX_FRAME_BYTES)
    (hepoch : (X.stringify (.object [("epoch", .num (.ofInt 1))])).length ≤ MAX_FRAME_BYTES)
    (hinput : (X.stringify (.object [("input", input)])).length ≤ MAX_FRAME_BYTES)
    (hregister : onRegister N H X o v₁ = .ok (.register base trust))
    (hinputs : validationEvents X (o.count.getD 3) (o.now 4) = .ok [input])
    (henvelope : v₃.read "envelope" = .ok envelope)
    (hreceived : X.asEnvelope envelope = y ∧ o.now 5 = t)
    (hreport : verifyEnvelope H y (receiptOptions N H X o trust t) = .ok report)
    (hpass : report.overallStatus = .pass) : ∃ artifact : ValidationArtifact,
    Phase.after N H X o [m₁.received e₁, m₂.received e₂, m₃.received e₃] = .returned artifact ∧
      artifact.passed = true := by
  obtain ⟨htype₁, htype₂, htype₃⟩ := htypes
  obtain ⟨hparse₁, hparse₂, hparse₃⟩ := hparse
  obtain ⟨rfl, rfl⟩ := hreceived
  have hhello : Phase.hello.enter X = .hello := Phase.enter_eq rfl hnonce
  have hresume₂ : (Phase.register base trust).resume N H X o v₂ =
      .ok (.receipt base trust [] input []) := by
    rw [Phase.resume, hinputs, ok_bind]
    rfl
  have hresume₃ : (Phase.receipt base trust [] input []).resume N H X o v₃ =
      .ok (proceed base trust
        [⟨X.asEnvelope envelope, report.overallStatus, report.outcome, report.reasons⟩] []) := by
    rw [Phase.resume, onReceipt, henvelope, ok_bind]
    change (verifyEnvelope H (X.asEnvelope envelope) (receiptOptions N H X o trust (o.now 5)) >>=
      _) = _
    rw [hreport, ok_bind]
    rfl
  have hfirst : Phase.hello.advance N H X o (m₁.received e₁) =
      (Phase.register base trust).enter X :=
    Phase.advance_eq (by rw [htype₁]; rfl) (by omega) hparse₁ hregister
  have hsecond : (Phase.register base trust).advance N H X o (m₂.received e₂) =
      (Phase.receipt base trust [] input []).enter X :=
    Phase.advance_eq (by rw [htype₂]; rfl) (by omega) hparse₂ hresume₂
  have hthird := Phase.advance_eq (m := m₃) (p := .receipt base trust [] input [])
    (e := e₃) (by rw [htype₃]; rfl) (by omega) hparse₃ hresume₃
  rw [Phase.after, List.foldl_cons, List.foldl_cons, List.foldl_cons, List.foldl_nil, hhello,
    hfirst, Phase.enter_eq rfl hepoch, hsecond, Phase.enter_eq rfl hinput, hthird]
  exact ⟨_, rfl, by simp [hpass]⟩

theorem sound_resume {p p' : Phase} {body : JsValue} (hp : p.Sound N H X o reg)
    (hrequest : p.request X ≠ none) (h : p.resume N H X o body = .ok p') :
    p'.Sound N H X o reg := by
  cases p with
  | hello => exact hp.elim
  | register base trust =>
    obtain ⟨inputs, -, h⟩ := bind_eq_ok.mp h
    cases h
    exact sound_proceed hp (fun r hr => by cases hr) inputs
  | receipt base trust done input rest =>
    obtain ⟨htrusted, hdone⟩ := hp
    obtain ⟨value, -, h⟩ := bind_eq_ok.mp h
    obtain ⟨report, hreport, h⟩ := bind_eq_ok.mp h
    cases h
    refine sound_proceed htrusted (fun r hr => ?_) rest
    rcases List.mem_append.mp hr with hr | hr
    · exact hdone r hr
    · rw [List.mem_singleton.mp hr]
      exact ⟨_, report, hreport, rfl⟩
  | returned artifact => exact (hrequest rfl).elim
  | failed message => exact (hrequest rfl).elim

/-- Every further answer keeps what is known. -/
theorem Phase.Sound.advance {p : Phase} (h : p.Sound N H X o reg) (f : Frame) :
    (p.advance N H X o f).Sound N H X o reg := by
  rw [Phase.advance]
  cases hrequest : p.request X with
  | none => exact h
  | some request =>
    obtain ⟨type, body, expect⟩ := request
    dsimp only
    split
    · rename_i p' hp'
      obtain ⟨answer, -, hresume⟩ := bind_eq_ok.mp hp'
      exact (sound_resume h (by simp [hrequest]) hresume).enter
    · trivial

/-- The first answer is the only one that the collector has when it judges the attestation. -/
theorem sound_after {f : Frame} {t : List Frame}
    (hanswer : answerBody H X f 4 = .ok reg) :
    (Phase.after N H X o (f :: t)).Sound N H X o reg := by
  rw [Phase.after, List.foldl_cons]
  suffices hfirst : ((Phase.hello.enter X).advance N H X o f).Sound N H X o reg by
    generalize (Phase.hello.enter X).advance N H X o f = p at hfirst ⊢
    induction t generalizing p with
    | nil => exact hfirst
    | cons f t ih => exact ih _ (hfirst.advance f)
  rw [Phase.enter]
  split
  · rename_i hnone
    cases hnone
  · split
    · rw [Phase.advance]
      dsimp only [Phase.request]
      rw [hanswer, ok_bind]
      split
      · rename_i p hp
        exact (sound_onRegister hp).enter
      · trivial
    · trivial

/-- Behind the challenge there is a first answer. -/
theorem first_answer {frames : List Frame} (hgone : Phase.after N H X o frames ≠ .hello)
    (hup : ∀ message, Phase.after N H X o frames ≠ .failed message) :
    ∃ f rest reg, frames = f :: rest ∧ answerBody H X f 4 = .ok reg := by
  have hstart : Phase.hello.enter X = .hello ∨
      ∃ message, Phase.hello.enter X = .failed message := by
    rw [Phase.enter]
    dsimp only [Phase.request]
    split
    · exact .inl rfl
    · exact .inr ⟨_, rfl⟩
  have hfailed : ∀ message (frames : List Frame),
      frames.foldl (Phase.advance N H X o) (.failed message) = .failed message :=
    fun message frames => Phase.foldl_advance_ended rfl frames
  rcases hstart with hstart | ⟨message, hstart⟩
  · cases frames with
    | nil => exact absurd hstart hgone
    | cons f rest =>
      cases hanswer : answerBody H X f 4 with
      | ok reg => exact ⟨f, rest, reg, rfl, hanswer⟩
      | error message =>
        have hadvance : Phase.hello.advance N H X o f = .failed message := by
          rw [Phase.advance]
          dsimp only [Phase.request]
          rw [hanswer]
          rfl
        refine absurd ?_ (hup message)
        rw [Phase.after, hstart, List.foldl_cons, hadvance, hfailed]
  · refine absurd ?_ (hup message)
    rw [Phase.after, hstart, hfailed]

/-- A first frame that has arrived carries an answer that attests to a key. -/
def Collector.Attested (N : NitroHost κ) (H : Host) (X : CollectorHost) (o : CollectOptions)
    (c : Collector) : Prop :=
  ∃ front f rest decoder reg key document, front <+: c.received ∧
    FrameDecoder.empty.push front = (.ok (f :: rest), decoder) ∧
    answerBody H X f 4 = .ok reg ∧ AttestedIn N H X o reg key document

/-- Where a request other than the challenge is made, a first answer has attested to a key. -/
theorem attested_of_request {frames : List Frame} {type expect : Nat} {body : JsValue}
    (hrequest : (Phase.after N H X o frames).request X = some (type, body, expect))
    (htype : type ≠ 1) :
    ∃ f rest reg key document, frames = f :: rest ∧ answerBody H X f 4 = .ok reg ∧
      AttestedIn N H X o reg key document := by
  have hgone : Phase.after N H X o frames ≠ .hello := by
    intro hhello
    rw [hhello] at hrequest
    cases hrequest
    exact htype rfl
  have hup : ∀ message, Phase.after N H X o frames ≠ .failed message := by
    intro message hfailed
    rw [hfailed] at hrequest
    cases hrequest
  obtain ⟨f, rest, reg, rfl, hanswer⟩ := first_answer hgone hup
  have hsound := sound_after (N := N) (o := o) (t := rest) hanswer
  have htrusted : ∃ base trust, TrustedAfter N H X o reg base trust := by
    cases hphase : Phase.after N H X o (f :: rest) with
    | hello => exact absurd hphase hgone
    | register base trust =>
      rw [hphase] at hsound
      exact ⟨base, trust, hsound⟩
    | receipt base trust done input inputs =>
      rw [hphase] at hsound
      exact ⟨base, trust, hsound.1⟩
    | returned artifact =>
      rw [hphase] at hrequest
      cases hrequest
    | failed message => exact absurd hphase (hup message)
  obtain ⟨base, trust, htrusted⟩ := htrusted
  obtain ⟨document, -, hattested⟩ := htrusted.attested
  exact ⟨f, rest, reg, _, document, rfl, hanswer, hattested⟩

/-- What has arrived stays. -/
theorem Collector.Attested.mono {c c' : Collector} (h : c.Attested N H X o)
    (hreceived : c.received <+: c'.received) : c'.Attested N H X o := by
  obtain ⟨front, f, rest, decoder, reg, key, document, hfront, hrest⟩ := h
  exact ⟨front, f, rest, decoder, reg, key, document, hfront.trans hreceived, hrest⟩

/-- A collector that makes a request other than the challenge has an attested key. -/
theorem Collector.Followed.attested {c : Collector} (h : c.Followed N H X o) {type expect : Nat}
    {body : JsValue} (hrequest : c.phase.request X = some (type, body, expect))
    (htype : type ≠ 1) : c.Attested N H X o := by
  obtain ⟨message, hfailed⟩ | ⟨frames, htracks⟩ := h
  · rw [hfailed] at hrequest
    cases hrequest
  · obtain ⟨k, -, -, hphase, -⟩ := htracks.waits (by simp [hrequest])
    rw [hphase] at hrequest
    obtain ⟨f, rest, reg, key, document, hfirst, hanswer, hattested⟩ :=
      attested_of_request hrequest htype
    have hframes : frames = f :: (rest ++ frames.drop k) := by
      rw [← List.cons_append, ← hfirst, List.take_append_drop]
    exact ⟨c.received, f, _, c.decoder, reg, key, document, List.prefix_rfl,
      hframes ▸ htracks.decoded, hanswer, hattested⟩

/-- Making a request sends it and nothing else. -/
theorem Collector.sent_ask (c : Collector) : (Collector.ask X c).sent = c.sent ∨
    ∃ type body expect, (Collector.ask X c).phase.request X = some (type, body, expect) ∧
      (Collector.ask X c).sent = c.sent ++ [(type, body)] := by
  rw [Collector.ask]
  split
  · exact .inl rfl
  · rename_i type body expect hrequest
    exact .inr ⟨type, body, expect, hrequest, rfl⟩

/-- **Nothing is asked of an enclave that is not attested**: in every run, whenever the collector
has sent anything but its challenge, the first frame that arrived answers the challenge with a
document that attests to a key. -/
theorem asks_only_attested {c : Collector} (h : (collectFromEnclave N H X o).Reachable c) :
    ∀ m ∈ c.sent, m.1 = 1 ∨ c.Attested N H X o := by
  suffices hboth : c.Followed N H X o ∧ ∀ m ∈ c.sent, m.1 = 1 ∨ c.Attested N H X o from hboth.2
  have hask : ∀ c : Collector, (Collector.ask X c).Followed N H X o →
      (∀ m ∈ c.sent, m.1 = 1 ∨ (Collector.ask X c).Attested N H X o) →
      ∀ m ∈ (Collector.ask X c).sent, m.1 = 1 ∨ (Collector.ask X c).Attested N H X o := by
    intro c hfollowed hsent m hm
    obtain hsame | ⟨type, body, expect, hrequest, hmore⟩ := c.sent_ask (X := X)
    · exact hsent m (hsame ▸ hm)
    · rw [hmore] at hm
      rcases List.mem_append.mp hm with hm | hm
      · exact hsent m hm
      · rw [List.mem_singleton.mp hm]
        by_cases htype : type = 1
        · exact .inl htype
        · exact .inr (hfollowed.attested hrequest htype)
  apply h.invariant
  · rintro c rfl
    have hstart : (collectFromEnclave N H X o).Reachable (Collector.start X) := .start rfl
    have hfollowed := Collector.followed_of_reachable hstart
    exact ⟨hfollowed, hask _ hfollowed fun m hm => (by cases hm)⟩
  · rintro c e c' ⟨hfollowed, hsent⟩ rfl
    have hnext := hfollowed.next e
    refine ⟨hnext, ?_⟩
    unfold Collector.next at hnext ⊢
    by_cases hended : (c.phase.request X).isNone
    · rw [if_pos hended]
      exact hsent
    rw [if_neg hended] at hnext ⊢
    cases e with
    | data chunk =>
      have hdata : (c.onData chunk).sent = c.sent ∧ c.received <+: (c.onData chunk).received := by
        rw [Collector.onData]
        split <;> exact ⟨rfl, List.prefix_append _ _⟩
      intro m hm
      exact (hsent m (hdata.1 ▸ hm)).imp_right fun hattested => hattested.mono hdata.2
    | resume =>
      dsimp only at hnext ⊢
      split
      · exact hsent
      · rename_i f hframe
        rw [hframe] at hnext
        refine hask _ hnext fun m hm => (hsent m hm).imp_right fun hattested => hattested.mono ?_
        rw [(Collector.ask_keeps _).2.2]
    | timeout =>
      dsimp only
      split_ifs
      · exact hsent
      · exact fun m hm => (hsent m hm).imp_right fun hattested => hattested.mono List.prefix_rfl

end

end CoolSdk.Nitro

namespace CoolSdk.Reference

open Nitro

/-! ## A collected receipt -/

def collectedNonce : Bytes := List.replicate 32 42

/-- The payload that binds the receipt key, for a challenge of 32 bytes. -/
def collectedPayload : Bytes :=
  (attestedPayload 0).dropLast.dropLast ++ Cbor.encode (.bytes collectedNonce)

def collectedDocument : Bytes :=
  Cbor.encode (.array [.bytes es384Header, .map [], .bytes collectedPayload,
    .bytes (List.replicate 96 0)])

/-- The attesting host, with a decoder for the parts of the document. -/
def collectingHost : NitroHost Nat :=
  { attestingHost with
    decode := fun bytes =>
      if bytes = collectedDocument then
        .ok (.array [.bytes es384Header, .map [], .bytes collectedPayload,
          .bytes (List.replicate 96 0)])
      else if bytes = collectedPayload then
        .ok (.map [(.text "module_id", .text "i-1"), (.text "digest", .text "SHA384"),
          (.text "timestamp", .num (.ofInt 1700000000000)),
          (.text "pcrs", .map ([0, 1, 2].map fun i =>
            (.num (.ofInt (i : Nat)), .bytes (enclaveRegister i)))),
          (.text "certificate", .bytes [1]), (.text "cabundle", .array [.bytes [2]]),
          (.text "public_key", .bytes receiptSpki), (.text "user_data", .bytes receiptBinding),
          (.text "nonce", .bytes collectedNonce)])
      else if bytes = es384Header then .ok (.map [(.num (.ofInt 1), .num (.ofInt (-35)))])
      else .error "unexpected end of input" }

/-- The pair of the receipt key. -/
def receiptPair : KeyPair :=
  { keyId := receiptKey.keyId, directoryEntry := receiptKey.entry
    mlDsaSecret := [], ed25519Secret := [] }

/-- The enclave's first answer, with its document in base64. -/
def registration (attestation : String) : JsValue :=
  .object [("key_id", .str receiptKey.keyId), ("entry", toJs receiptKey.entry),
    ("attestation", .str attestation)]

def registerValue : JsValue := registration (toBase64 collectedDocument)

def receiptValue : JsValue :=
  .object [("envelope", .object [("format", .str "cool.signed-envelope.v1")])]

/-- The JSON of texts, small numbers and objects of them, where nothing is escaped. -/
def jsonText : JsValue → String
  | .str s => "\"" ++ s ++ "\""
  | .num n => numberText n
  | .object ms => "\x7b" ++ ",".intercalate (memberTexts ms) ++ "\x7d"
  | _ => "null"
where
  memberTexts : List (String × JsValue) → List String
    | [] => []
    | (k, v) :: ms => ("\"" ++ k ++ "\":" ++ jsonText v) :: memberTexts ms

def ackText : Bytes := utf8 "\x7b\"epoch\":1\x7d"

/-- The runtime's functions on the texts of one collection. -/
def collectorHost : CollectorHost where
  parse payload :=
    if payload = ackText then .ok (.object [("epoch", .num (.ofInt 1))])
    else if payload = utf8 (jsonText receiptValue) then .ok receiptValue
    else if payload = utf8 (jsonText registerValue) then .ok registerValue
    else .error "Unexpected end of JSON input"
  stringify v := utf8 (jsonText v)
  bufferFrom text := match atob (utf8 text) with
    | .ok bytes => bytes
    | .error _ => []
  nonce := collectedNonce
  commitments i := (List.replicate 32 (.ofNat i), List.replicate 32 (.ofNat (i + 1)))
  asEntry _ := receiptKey.entry
  asEnvelope _ := commitEnvelope receiptPair
  standard := commitRegistry

def collectOptions : CollectOptions :=
  { policy := enclavePolicy, count := some 1, now := fun _ => clock 1000 }

/-- The collector's question about the document. -/
def collectedQuestion : VerifyNitroOptions :=
  { challenge collectingHost collectorHost collectOptions with
    receiptKey := some receiptKey, now := some (clock 1000) }

/-- The report on the document, where it passes. -/
def collectedRun : Except String (NitroAttestationReport × Option NonceLedger) := do
  let result ← verifyNitroAttestation collectingHost totalHost collectedDocument collectedQuestion
  if result.1.overallStatus = .pass then .ok result else .error "the document does not attest"

theorem collectedRun_isOk : collectedRun.isOk = true := by decide +kernel

def collectedReport : NitroAttestationReport × Option NonceLedger :=
  valueOf collectedRun collectedRun_isOk

theorem collectedReport_pass :
    verifyNitroAttestation collectingHost totalHost collectedDocument collectedQuestion =
      .ok collectedReport ∧ collectedReport.1.overallStatus = .pass := by
  have hrun : collectedRun = .ok collectedReport := by
    unfold collectedReport
    exact eq_ok_valueOf collectedRun collectedRun_isOk
  generalize collectedReport = passed at hrun ⊢
  unfold collectedRun at hrun
  obtain ⟨result, hresult, hpass⟩ := bind_eq_ok.mp hrun
  split_ifs at hpass with hstatus
  rw [← Except.ok.inj hpass]
  exact ⟨hresult, hstatus⟩

/-- The record of the attested key, and the store that trusts it alone. -/
def collectedRecord : KeyRecord :=
  attestedRecord receiptKey collectedReport.1 "2025-12-31T23:59:01.000Z"

def collectedTrust : TrustStore :=
  { id := "attested-enclave-key", asOf := "2026-01-01T00:00:01.000Z", maxAgeMs := none
    keys := .ofList [(receiptKey.keyId, collectedRecord)] }

def collectedBase : ValidationArtifact :=
  baseArtifact collectingHost collectorHost collectOptions "2026-01-01T00:00:01.000Z" receiptKey
    collectedDocument collectedReport.1

theorem isoText_clock : toISOString (clock 1000) = .ok "2026-01-01T00:00:01.000Z" ∧
    toISOString ((clock 1000).sub (.ofInt 60000)) = .ok "2025-12-31T23:59:01.000Z" := by
  decide +kernel

theorem bufferFrom_toBase64 (bytes : Bytes) :
    collectorHost.bufferFrom (toBase64 bytes) = bytes := by
  have hread : atob (utf8 (toBase64 bytes)) = .ok bytes := atob_toBase64 bytes
  simp only [collectorHost, hread]

theorem onRegister_collected :
    onRegister collectingHost totalHost collectorHost collectOptions registerValue =
      .ok (.register collectedBase collectedTrust) := by
  obtain ⟨hreport, hpass⟩ := collectedReport_pass
  obtain ⟨hnow, hbefore⟩ := isoText_clock
  have hregister := onRegister_eq (N := collectingHost) (H := totalHost) (X := collectorHost)
    (o := collectOptions) (r := registerValue) rfl rfl rfl
    ((congrArg (verifyNitroAttestation collectingHost totalHost · collectedQuestion)
      (bufferFrom_toBase64 collectedDocument)).trans hreport) hpass hnow hnow hbefore
  rw [bufferFrom_toBase64] at hregister
  exact hregister

theorem canonicalCheck_collected :
    canonicalCheck totalHost (commitEnvelope receiptPair) =
      { check .pass "canonical" "committed bytes are canonical and match the core" with
        algorithm := some "cbor-cde" } := by
  obtain ⟨bytes, hbytes, hcore, hcbor, _, _⟩ := exists_commitEnvelope receiptPair
  have hread : fromBase64 totalHost (commitEnvelope receiptPair).coreCbor =
      canonicalize host commitCore := by
    rw [hcbor, hbytes]
    exact atob_toBase64 bytes
  rw [canonicalCheck, encodingVerdict, hread, hcore]
  decide +kernel

theorem digestCheck_collected {canonical : Check} (hcanonical : canonical.status = .pass) :
    digestCheck totalHost (commitEnvelope receiptPair) canonical =
      { check .pass "digest_matches" (commitEnvelope receiptPair).digest with
        algorithm := some "sha-256", evidenceRef := some (commitEnvelope receiptPair).digest } := by
  have hsame : ∀ env, digestCheck totalHost env canonical = digestCheck host env canonical :=
    fun _ => rfl
  rw [hsame, digestCheck_commitEnvelope receiptPair hcanonical]

/-- The envelope of the receipt key passes against that store. -/
theorem verify_collected :
    (verifyEnvelope totalHost (commitEnvelope receiptPair)
      (receiptOptions collectingHost totalHost collectorHost collectOptions collectedTrust
        (clock 1000))).map VerificationReport.overallStatus = .ok .pass := by
  simp only [verifyEnvelope, envelopeChecks, canonicalCheck_collected]
  rw [digestCheck_collected rfl]
  decide +kernel

/-- The requests of the collection fit a frame, and its answers are told apart. -/
theorem collected_texts :
    (collectorHost.stringify (.object [("nonce", .str (toBase64 collectedNonce))])).length ≤
        MAX_FRAME_BYTES ∧
      (collectorHost.stringify (.object [("epoch", .num (.ofInt 1))])).length ≤ MAX_FRAME_BYTES ∧
      (validationEvents collectorHost 1 (clock 1000)).map (fun events => events.map fun event =>
        decide ((collectorHost.stringify (.object [("input", event)])).length ≤
          MAX_FRAME_BYTES)) = .ok [true] ∧
      utf8 (jsonText receiptValue) ≠ ackText ∧ utf8 (jsonText registerValue) ≠ ackText ∧
      utf8 (jsonText registerValue) ≠ utf8 (jsonText receiptValue) := by decide +kernel

/-- The frames of an attested key, an assigned epoch and a receipt. -/
def collectedMessages : List Message :=
  [⟨4, utf8 (jsonText registerValue)⟩, ⟨3, ackText⟩, ⟨2, utf8 (jsonText receiptValue)⟩]

/-- They lead to an artifact that passed. -/
theorem exists_passed_artifact (e₁ e₂ e₃ : Bytes) : ∃ artifact : ValidationArtifact,
    Phase.after collectingHost totalHost collectorHost collectOptions
      (List.zipWith Message.received collectedMessages [e₁, e₂, e₃]) = .returned artifact ∧
      artifact.passed = true := by
  obtain ⟨hnonce, hepoch, hevents, hack, hregister, hreceipt⟩ := collected_texts
  have hparse₁ : collectorHost.parse (utf8 (jsonText registerValue)) = .ok registerValue := by
    simp only [collectorHost, if_neg hregister, if_neg hreceipt, if_true]
  have hparse₂ : collectorHost.parse ackText = .ok (.object [("epoch", .num (.ofInt 1))]) := by
    simp only [collectorHost, if_true]
  have hparse₃ : collectorHost.parse (utf8 (jsonText receiptValue)) = .ok receiptValue := by
    simp only [collectorHost, if_neg hack, if_true]
  obtain ⟨events, hinputs, hfits⟩ := ok_of_map_eq hevents
  obtain ⟨input, rfl⟩ : ∃ input, events = [input] := by
    rw [← List.length_eq_one_iff]
    simpa using congrArg List.length hfits
  have hinput : (collectorHost.stringify (.object [("input", input)])).length ≤
      MAX_FRAME_BYTES := by simpa using hfits
  obtain ⟨report, hreport, hpass⟩ := ok_of_map_eq verify_collected
  have henvelope : ∀ v, collectorHost.asEnvelope v = commitEnvelope receiptPair := by
    simp only [collectorHost, implies_true]
  exact passed_of_one_receipt (y := commitEnvelope receiptPair) (t := clock 1000) e₁ e₂ e₃
    ⟨rfl, rfl, rfl⟩ ⟨hparse₁, hparse₂, hparse₃⟩ hnonce hepoch hinput onRegister_collected hinputs
    rfl ⟨henvelope _, rfl⟩ hreport hpass

/-- Base64 digits are not long. -/
theorem length_toBase64_le (bytes : Bytes) :
    (utf8 (toBase64 bytes)).length ≤ 16 * (bytes.length + 2) := by
  have hdigits : (base64Digits bytes).length ≤ 4 * (bytes.length + 2) := by
    induction bytes using base64Digits.induct with
    | case1 => simp [base64Digits]
    | case2 a => simp [base64Digits]
    | case3 a b => simp [base64Digits]
    | case4 a b c rest ih =>
      simp only [base64Digits, List.length_cons]
      omega
  have hutf8 : ∀ cs : List Char, (cs.flatMap String.utf8EncodeChar).length ≤ 4 * cs.length := by
    intro cs
    induction cs with
    | nil => rfl
    | cons c cs ih =>
      rw [List.flatMap_cons, List.length_append, String.length_utf8EncodeChar, List.length_cons]
      have hsize := c.utf8Size_le_four
      omega
  rw [toBase64, utf8_ofList]
  have hsize := hutf8 (base64Digits bytes)
  omega

theorem length_registration (document : String) :
    (utf8 (jsonText (registration document))).length =
      (utf8 (jsonText (registration ""))).length + (utf8 document).length := by
  have hjoin : ∀ a b c : String, ",".intercalate [a, b, c] = a ++ "," ++ b ++ "," ++ c :=
    fun _ _ _ => rfl
  have hempty : (utf8 "").length = 0 := rfl
  simp only [registration, jsonText, jsonText.memberTexts, hjoin, utf8_append, List.length_append]
  omega

theorem collected_sendable : ∀ m ∈ collectedMessages, m.Sendable := by
  have hregister : (utf8 (jsonText registerValue)).length ≤ MAX_FRAME_BYTES := by
    have hregistration : (utf8 (jsonText (registration ""))).length ≤ 1000 := by decide +kernel
    have hdocument : collectedDocument.length ≤ 1000 := by decide +kernel
    have hbase64 := length_toBase64_le collectedDocument
    rw [registerValue, length_registration, MAX_FRAME_BYTES]
    omega
  have hreceipt : (utf8 (jsonText receiptValue)).length ≤ MAX_FRAME_BYTES := by decide +kernel
  rw [collectedMessages, List.forall_mem_cons, List.forall_mem_cons, List.forall_mem_singleton]
  exact ⟨⟨by decide, hregister⟩, ⟨by decide, by decide⟩, ⟨by decide, hreceipt⟩⟩

/-- A collector that received those frames returns an artifact that passed. -/
theorem exists_collection : ∃ (c : Collector) (artifact : ValidationArtifact),
    (collectFromEnclave collectingHost totalHost collectorHost collectOptions).Reachable c ∧
      c.phase = .returned artifact ∧ artifact.passed = true := by
  have hsendable := collected_sendable
  rw [collectedMessages, List.forall_mem_cons, List.forall_mem_cons,
    List.forall_mem_singleton] at hsendable
  obtain ⟨e₁, -, hread₁⟩ := encode_sendable hsendable.1
  obtain ⟨e₂, -, hread₂⟩ := encode_sendable hsendable.2.1
  obtain ⟨e₃, -, hread₃⟩ := encode_sendable hsendable.2.2
  have hpush := push_encodings (.cons hread₁ (.cons hread₂ (.cons hread₃ .nil)))
  obtain ⟨artifact, hafter, hpassed⟩ := exists_passed_artifact e₁ e₂ e₃
  have hstart : (Phase.hello.enter collectorHost).request collectorHost ≠ none := by
    rw [Phase.enter_eq rfl collected_texts.1]
    exact Option.some_ne_none _
  obtain ⟨c, hreachable, -, hphase⟩ := Collector.exists_collected (N := collectingHost)
    (H := totalHost) (o := collectOptions) hpush hstart
  exact ⟨c, artifact, hreachable, hphase.trans hafter, hpassed⟩

end CoolSdk.Reference

namespace CoolSdk.Nitro

open Reference

/-- A collector that received those frames returns no other artifact. -/
theorem artifact_of_bytes_collected :
    ∃ (c : Collector) (artifact : ValidationArtifact), c.phase = .returned artifact ∧
      artifact.passed = true ∧
      ∀ artifact' : ValidationArtifact, c.phase = .returned artifact' → artifact = artifact' := by
  obtain ⟨c, artifact, hreachable, hreturned, hpassed⟩ := exists_collection
  exact ⟨c, artifact, hreturned, hpassed, fun artifact' hreturned' =>
    artifact_of_bytes hreachable hreachable List.prefix_rfl hreturned hreturned'⟩

/-- That collector asked for an epoch and a receipt after the attestation. -/
theorem asks_only_attested_collected :
    ∃ c : Collector, (collectFromEnclave collectingHost totalHost collectorHost
      collectOptions).Reachable c ∧ ∀ m ∈ c.sent,
        m.1 = 1 ∨ c.Attested collectingHost totalHost collectorHost collectOptions := by
  obtain ⟨c, artifact, hreachable, -, -⟩ := exists_collection
  exact ⟨c, hreachable, asks_only_attested hreachable⟩

end CoolSdk.Nitro
