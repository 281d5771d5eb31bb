import CoolSdk.Core.SingleFlight
import CoolSdk.Core.Transition
import CoolSdk.Phala.RaTls
import CoolSdk.Phala.ReferencePlane
import CoolSdk.Phala.TamperEvidence

/-!
# The client

The client an application imports. Nothing is connected until the first call; then one evidence
plane is opened, whoever calls meanwhile waits for it, and all calls go to that plane. The client
asks for a verified root and has no way to be given a verifier, which settles what it can be
connected to.
-/

namespace CoolSdk

/-! ## Errors -/

/-- The errors that the client throws. -/
inductive CooLError
  | configuration (message action : String)
  | dstackUnavailable (message cause action : String)
  | attestationRequired (message action : String)
  | evidence (message action : String)
  | closed
  /-- What was thrown below the client. -/
  | thrown (message : String)
  deriving DecidableEq, Repr

/-! ## Options -/

inductive Provider
  | local_
  | dstack
  deriving DecidableEq, Repr

structure AttestationConfig where
  provider : Option Provider := none
  endpoint : Option String := none
  vendor : Option TeeVendor := none

structure SecurityConfig where
  requireAttestation : Bool := false
  expectedMeasurement : Option Measurement := none
  requireVendor : Option (List TeeVendor) := none

structure CooLOptions where
  applicationId : Option String := none
  attestation : AttestationConfig := {}
  security : SecurityConfig := {}
  dstackClient : Option DstackClient := none

/-- The provider, by the configuration or else by `COOL_DSTACK_ENDPOINT`. -/
def resolveProvider (config : AttestationConfig) (coolDstackEndpoint : Option String) : Provider :=
  match config.provider with
  | some provider => provider
  | none =>
    if (config.endpoint.getD "") ≠ "" then .dstack
    else if (coolDstackEndpoint.getD "") ≠ "" then .dstack
    else .local_

/-! ## The plane -/

/-- What the world answers while a plane is opened. -/
structure PlaneAnswers (T : Type) where
  /-- `COOL_DSTACK_ENDPOINT` at the time. -/
  coolDstackEndpoint : Option String
  /-- `new HttpDstackClient` for an endpoint and a vendor. -/
  httpClient : String → TeeVendor → Except String DstackClient
  /-- `new SimulatedDstackClient` for the application. -/
  simulatedClient : String → Except String DstackClient
  /-- `EvidencePlane.start` over a client and the expected measurement. -/
  start : DstackClient → Option Measurement → Except String EvidencePlane
  sink : List T → Except String Unit
  clock : String

/-- A connected `CoolTee`: its plane behind the attested channel. -/
structure AttestedTee (T : Type) where
  plane : EvidencePlane
  channel : AttestedChannel T

def AttestedTee.handshake {T : Type} (tee : AttestedTee T) : AttestationHandshake :=
  tee.channel.handshake

def AttestedTee.runtime {T : Type} (tee : AttestedTee T) : RuntimeStatus :=
  assessRuntime tee.plane.info (some tee.handshake)

/-- The keys that a verifier of the plane's records needs. -/
def AttestedTee.keyDirectory {T : Type} (tee : AttestedTee T) : List (String × DirectoryEntry) :=
  Entries.set [(tee.plane.keys.record.keyId, tee.plane.keys.record.directoryEntry)]
    tee.plane.keys.log.keyId tee.plane.keys.log.directoryEntry

section

variable {T : Type} (H : Host)

/-- Boot the plane over an agent, or over the simulator, then attest it; the channel is there
whatever the handshake says. -/
def AttestedTee.connect (answers : PlaneAnswers T) (dstack : Option DstackClient) (appName : String)
    (expectedMeasurement : Option Measurement) (policy : AttestationPolicy) :
    Except String (AttestedTee T) := do
  let client ← dstack.elim (answers.simulatedClient appName) .ok
  let plane ← answers.start client expectedMeasurement
  let channel ← AttestedChannel.connect H client plane.keys.record.directoryEntry policy
    answers.clock answers.sink
  .ok { plane, channel }

namespace CooLOptions

/-- What the client demands of the plane. -/
def policy (o : CooLOptions) : AttestationPolicy :=
  { allowSimulated := some !o.security.requireAttestation
    expectedMeasurement := o.security.expectedMeasurement
    requireVendor := o.security.requireVendor }

/-- The agent's client: the one injected, or one for the endpoint where there is an agent. -/
def dstack (o : CooLOptions) (provider : Provider) (answers : PlaneAnswers T) :
    Except CooLError (Option DstackClient) :=
  match o.dstackClient, provider with
  | some client, _ => .ok (some client)
  | none, .local_ => .ok none
  | none, .dstack =>
    let endpoint := (o.attestation.endpoint.or answers.coolDstackEndpoint).getD
      "/var/run/dstack.sock"
    match answers.httpClient endpoint (o.attestation.vendor.getD .intelTdx) with
    | .ok client => .ok (some client)
    | .error cause =>
      .error (.dstackUnavailable ("could not construct a dstack client for '" ++ endpoint ++ "'")
        cause ("check attestation.endpoint, or run with attestation.provider: 'local' for " ++
          "development"))

/-- Open the plane. A handshake that did not pass is thrown only where attestation is required. -/
def openPlane (o : CooLOptions) (provider : Provider) (answers : PlaneAnswers T) :
    Except CooLError (AttestedTee T) := do
  let client ← o.dstack provider answers
  match AttestedTee.connect H answers client (o.applicationId.getD "cool-app")
      o.security.expectedMeasurement o.policy with
  | .error cause =>
    if provider = .dstack then
      .error (.dstackUnavailable "CooL could not reach the dstack guest agent" cause
        ("run the application inside a dstack CVM with /var/run/dstack.sock mounted, start the " ++
          "dstack simulator, or use attestation.provider: 'local'"))
    else .error (.thrown cause)
  | .ok tee =>
    if o.security.requireAttestation ∧ tee.handshake.ok = false then
      .error (.attestationRequired
        ("security.requireAttestation is set and the attestation handshake did not pass: " ++
          "; ".intercalate tee.handshake.reasons)
        "deploy inside attested hardware, or remove security.requireAttestation")
    else .ok tee

end CooLOptions

/-! ## The client and its calls -/

/-- Where a call of `ready` or `record` is. -/
inductive ClientCall (T : Type)
  | awaiting (ticket : Ticket (AttestedTee T))
  | rejected (error : CooLError)
  /-- The call went on with its plane. -/
  | served (tee : AttestedTee T)

/-- A summary of the connected runtime. -/
structure Environment where
  provider : Provider
  mode : RuntimeMode
  vendor : TeeVendor
  appId : String
  instanceId : String
  measurement : Measurement
  /-- A verified hardware quote backs the plane. -/
  hardware : Bool
  runtime : RuntimeStatus

structure CooL (T : Type) where
  options : CooLOptions
  provider : Provider
  /-- `connecting` and `tee`. -/
  flight : SingleFlight CooLError (AttestedTee T) := {}
  closed : Bool := false
  calls : List (ClientCall T) := []
  /-- The planes whose `close` was called. -/
  drained : List (AttestedTee T) := []

inductive ClientEvent (T : Type)
  /-- A call of `record` on an input, or of `ready`. -/
  | call (input : Option JsValue)
  /-- The opening of a plane comes to an end. -/
  | opened (k : Nat) (answers : PlaneAnswers T)
  /-- The client takes note of that. -/
  | noted (k : Nat)
  /-- A call that waits goes on, once there is something to go on with. -/
  | resumed (i : Nat)
  | close

/-- An input that can be recorded at all. -/
def recordable (input : JsValue) : Bool :=
  input.truthy && match input.read "type" with
    | .ok (.str type) => decide (type ≠ "")
    | _ => false

namespace CooL

/-- The client as it is constructed. -/
def new (options : CooLOptions) (coolDstackEndpoint : Option String) : Except CooLError (CooL T) :=
  let provider := resolveProvider options.attestation coolDstackEndpoint
  if options.applicationId.getD "cool-app" = "" then
    .error (.configuration "applicationId must not be empty"
      "pass a non-empty applicationId, e.g. new CooL(\x7b applicationId: 'billing-api' \x7d)")
  else if options.attestation.provider = some .local_ ∧ options.security.requireAttestation then
    .error (.configuration
      ("security.requireAttestation is set but attestation.provider is 'local' (the " ++
        "simulator)")
      ("set attestation.provider to 'dstack', or drop security.requireAttestation for local " ++
        "development"))
  else .ok { options, provider }

/-- Connect: the plane that is there, the opening that runs, or a new one. -/
def connect (c : CooL T) : CooL T × ClientCall T :=
  if c.closed then (c, .rejected .closed)
  else ({ c with flight := c.flight.join.1 }, .awaiting c.flight.join.2)

/-- A call is made. -/
def call (c : CooL T) (input : Option JsValue) : CooL T :=
  if input.all recordable then { c.connect.1 with calls := c.calls ++ [c.connect.2] }
  else
    { c with calls := c.calls ++ [.rejected (.evidence "record() requires a non-empty `type`"
        "pass \x7b type: 'model.execution', metadata: \x7b ... \x7d \x7d")] }

/-- A call that waits goes on with what its ticket is worth. -/
def resume (c : CooL T) (i : Nat) : CooL T :=
  match c.calls[i]? with
  | some (.awaiting ticket) =>
    match c.flight.redeem ticket with
    | some (.ok tee) => { c with calls := c.calls.set i (.served tee) }
    | some (.error e) => { c with calls := c.calls.set i (.rejected e) }
    | none => c
  | _ => c

/-- The client after an event. -/
def next (c : CooL T) : ClientEvent T → CooL T
  | .call input => c.call input
  | .opened k answers =>
    { c with flight := c.flight.settle k (c.options.openPlane H c.provider answers) }
  | .noted k => { c with flight := c.flight.handle k }
  | .resumed i => c.resume i
  | .close => { c with closed := true, drained := c.drained ++ c.flight.value.toList }

/-- What is read of the connected plane. -/
def connected (c : CooL T) (what : String) : Except CooLError (AttestedTee T) :=
  match c.flight.value with
  | none =>
    .error (.configuration (what ++ " is not available until the plane is connected")
      "await cool.ready() or cool.record(...) first")
  | some tee => .ok tee

def attestation (c : CooL T) : Except CooLError AttestationHandshake :=
  (c.connected "attestation transcript").map AttestedTee.handshake

def keyDirectory (c : CooL T) : Except CooLError (List (String × DirectoryEntry)) :=
  (c.connected "keyDirectory").map AttestedTee.keyDirectory

def environment (c : CooL T) : Except CooLError Environment :=
  (c.connected "environment").map fun tee =>
    { provider := c.provider, mode := tee.plane.info.mode, vendor := tee.plane.info.vendor
      appId := tee.plane.info.appId, instanceId := tee.plane.info.instanceId
      measurement := tee.plane.info.measurement
      hardware := decide (tee.runtime.state = .real), runtime := tee.runtime }

/-- The client's verifier: its own policy stands over the caller's options. -/
def verify (A : Anchor.AnchorHost) (c : CooL T) (evidence : JsValue) (options : VerifyArgsV2) :
    Except String VerdictV2 :=
  verifyReceiptV2 H A evidence
    { options with
      requireHardware := c.options.security.requireAttestation || options.requireHardware
      expectedMeasurement :=
        options.expectedMeasurement.or c.options.security.expectedMeasurement }

/-- The runs of a client with the given options. -/
def runs (options : CooLOptions) : TransitionSystem (CooL T) (ClientEvent T) where
  init c := ∃ endpoint, new options endpoint = .ok c
  step c e c' := c' = c.next H e

end CooL

end

section

variable {T : Type} {H : Host} {options : CooLOptions} {c : CooL T}

/-! ## What a client can be connected to -/

/-- A plane that was opened has the handshake that the client asked for. -/
theorem CooLOptions.parts_of_openPlane {provider : Provider} {answers : PlaneAnswers T}
    {tee : AttestedTee T} (h : options.openPlane H provider answers = .ok tee) :
    ∃ client, attestEndpoint H client tee.plane.keys.record.directoryEntry options.policy
        answers.clock = .ok tee.handshake ∧
      (options.security.requireAttestation = true → tee.handshake.ok = true) := by
  obtain ⟨dstack, -, h⟩ := bind_eq_ok.mp h
  split at h
  · split_ifs at h
  · rename_i tee' hconnect
    split_ifs at h with hrefused
    cases h
    unfold AttestedTee.connect at hconnect
    obtain ⟨client, -, hconnect⟩ := bind_eq_ok.mp hconnect
    obtain ⟨plane, -, hconnect⟩ := bind_eq_ok.mp hconnect
    obtain ⟨channel, hchannel, hconnect⟩ := bind_eq_ok.mp hconnect
    cases hconnect
    obtain ⟨handshake, hattest, hchannel⟩ := bind_eq_ok.mp hchannel
    cases hchannel
    refine ⟨client, hattest, fun hrequire => ?_⟩
    by_contra hnot
    exact hrefused ⟨hrequire, by simpa using hnot⟩

/-- Where attestation is not required, a plane that connects is opened. -/
theorem CooLOptions.openPlane_eq {provider : Provider} {answers : PlaneAnswers T}
    {dstack : Option DstackClient} {tee : AttestedTee T}
    (hdstack : options.dstack provider answers = .ok dstack)
    (hconnect : AttestedTee.connect H answers dstack (options.applicationId.getD "cool-app")
      options.security.expectedMeasurement options.policy = .ok tee)
    (hrequire : options.security.requireAttestation = false) :
    options.openPlane H provider answers = .ok tee := by
  refine bind_eq_ok.mpr ⟨dstack, hdstack, ?_⟩
  rw [hconnect]
  dsimp only
  rw [if_neg (by simp [hrequire])]

/-- The quote of a plane is the simulator's, accepted under the simulator's own key. -/
structure AttestedTee.Simulated (H : Host) (tee : AttestedTee T) : Prop where
  root : tee.handshake.quote.root = "cool-sim-root"
  accepted : ∃ verification, (simulatorVerifier H tee.handshake.directory).verify
    tee.handshake.quote = .ok verification ∧ verification.ok = true

/-- Where the handshake of the client's own policy is ok, the quote is the simulator's, and
attestation was not required. -/
theorem simulated_of_ok {client : DstackClient} {tee : AttestedTee T} {key : DirectoryEntry}
    {clock : String}
    (h : attestEndpoint H client key options.policy clock = .ok tee.handshake)
    (hok : tee.handshake.ok = true) :
    tee.Simulated H ∧ options.security.requireAttestation = false := by
  have hadmitted := admitted_of_ok h hok
  obtain ⟨verifier, verification, haccepted⟩ | hunchecked := hadmitted.root
  swap
  · cases hunchecked
  have hchosen : (if tee.handshake.quote.root = "cool-sim-root" then
      some (simulatorVerifier H tee.handshake.directory) else none) = some verifier :=
    haccepted.chosen
  have hroot : tee.handshake.quote.root = "cool-sim-root" := by
    by_contra hroot
    rw [if_neg hroot] at hchosen
    cases hchosen
  refine ⟨⟨hroot, verification, ?_, haccepted.accepted⟩, ?_⟩
  · rw [if_pos hroot] at hchosen
    rw [Option.some.inj hchosen]
    exact haccepted.answered
  · have hallowed := hadmitted.simulator hroot
    by_contra hrequire
    rw [Bool.not_eq_false] at hrequire
    exact hallowed (by simp [CooLOptions.policy, hrequire])

/-! ## Runs -/

/-- What holds of a client in every run. -/
structure CooL.Sound (H : Host) (options : CooLOptions) (c : CooL T) : Prop where
  configured : c.options = options
  flight : c.flight.Sound
  opened : c.flight.Yields fun result =>
    ∃ answers, result = options.openPlane H c.provider answers
  awaiting : ∀ (i : Nat) (ticket : Ticket (AttestedTee T)),
    c.calls[i]? = some (.awaiting ticket) → c.flight.Holds ticket
  served : ∀ (i : Nat) (tee : AttestedTee T),
    c.calls[i]? = some (.served tee) → c.flight.value = some tee
  drained : ∀ tee ∈ c.drained, c.flight.value = some tee

namespace CooL

theorem Sound.value {tee : AttestedTee T} (h : c.Sound H options)
    (hvalue : c.flight.value = some tee) :
    ∃ answers, options.openPlane H c.provider answers = .ok tee := by
  obtain ⟨answers, hopened⟩ := h.opened.value h.flight hvalue
  exact ⟨answers, hopened.symm⟩

/-- A call keeps what holds. -/
theorem Sound.call (h : c.Sound H options) (input : Option JsValue) :
    (c.call input).Sound H options := by
  have hrejected : ∀ e, Sound H options { c with calls := c.calls ++ [.rejected e] } := by
    intro e
    refine ⟨h.configured, h.flight, h.opened, fun i t hi => ?_, fun i tee hi => ?_, h.drained⟩
    · rw [List.getElem?_append] at hi
      split_ifs at hi
      · exact h.awaiting i t hi
      · cases List.mem_singleton.mp (List.mem_of_getElem? hi)
    · rw [List.getElem?_append] at hi
      split_ifs at hi
      · exact h.served i tee hi
      · cases List.mem_singleton.mp (List.mem_of_getElem? hi)
  unfold CooL.call
  split_ifs
  swap
  · exact hrejected _
  unfold CooL.connect
  split_ifs
  · exact hrejected _
  obtain ⟨hsound, hholds⟩ := h.flight.join
  refine ⟨h.configured, hsound, h.opened.join, fun i t hi => ?_, fun i tee hi => ?_,
    fun tee ht => ?_⟩
  · rw [List.getElem?_append] at hi
    split_ifs at hi
    · exact (h.awaiting i t hi).join
    · cases List.mem_singleton.mp (List.mem_of_getElem? hi)
      exact hholds
  · rw [List.getElem?_append] at hi
    split_ifs at hi
    · have hvalue := h.served i tee hi
      change c.flight.join.1.value = _
      rw [SingleFlight.join_of_value hvalue]
      exact hvalue
    · cases List.mem_singleton.mp (List.mem_of_getElem? hi)
  · have hvalue := h.drained tee ht
    change c.flight.join.1.value = _
    rw [SingleFlight.join_of_value hvalue]
    exact hvalue

/-- A call that goes on goes on with the one plane. -/
theorem Sound.resume (h : c.Sound H options) (i : Nat) : (c.resume i).Sound H options := by
  unfold CooL.resume
  split
  swap
  · exact h
  rename_i ticket hi
  have hset : ∀ call : ClientCall T, (∀ t, call ≠ .awaiting t) →
      (∀ tee, call = .served tee → c.flight.value = some tee) →
      Sound H options { c with calls := c.calls.set i call } := by
    intro call hdone hvalue
    refine ⟨h.configured, h.flight, h.opened, fun j t hj => ?_, fun j tee hj => ?_, h.drained⟩
    · rw [List.getElem?_set] at hj
      split_ifs at hj
      · exact (hdone t (Option.some.inj hj)).elim
      · exact h.awaiting j t hj
    · rw [List.getElem?_set] at hj
      split_ifs at hj
      · exact hvalue tee (Option.some.inj hj)
      · exact h.served j tee hj
  split
  · rename_i tee hredeem
    refine hset _ (fun t ht => (by cases ht)) fun tee' htee => ?_
    cases htee
    exact h.flight.redeem_ok (h.awaiting i ticket hi) hredeem
  · exact hset _ (fun t ht => (by cases ht)) fun tee' htee => (by cases htee)
  · exact h

/-- Every event keeps what holds. -/
theorem Sound.next (h : c.Sound H options) (e : ClientEvent T) :
    (c.next H e).Sound H options := by
  cases e with
  | call input => exact h.call input
  | opened k answers =>
    refine ⟨h.configured, h.flight.settle k _, h.opened.settle k ⟨answers, by rw [h.configured]⟩,
      fun i t hi => (h.awaiting i t hi).settle k _, fun i tee hi => ?_, fun tee ht => ?_⟩
    · exact (c.flight.value_settle k _).trans (h.served i tee hi)
    · exact (c.flight.value_settle k _).trans (h.drained tee ht)
  | noted k =>
    exact ⟨h.configured, h.flight.handle k, h.opened.handle k,
      fun i t hi => SingleFlight.Holds.handle h.flight (h.awaiting i t hi) k,
      fun i tee hi => h.flight.value_handle (h.served i tee hi) k,
      fun tee ht => h.flight.value_handle (h.drained tee ht) k⟩
  | resumed i => exact h.resume i
  | close =>
    refine ⟨h.configured, h.flight, h.opened, h.awaiting, h.served, fun tee ht => ?_⟩
    rcases List.mem_append.mp ht with ht | ht
    · exact h.drained tee ht
    · exact Option.mem_toList.mp ht

theorem sound_new {endpoint : Option String} (h : CooL.new options endpoint = .ok c) :
    c.Sound H options := by
  unfold CooL.new at h
  dsimp only at h
  split_ifs at h
  cases h
  exact ⟨rfl, SingleFlight.sound_empty, SingleFlight.yields_empty, fun i t hi => (by simp at hi),
    fun i tee hi => (by simp at hi), fun tee ht => (by cases ht)⟩

theorem sound_of_reachable (h : (CooL.runs H options).Reachable c) : c.Sound H options := by
  apply h.invariant
  · rintro c ⟨endpoint, hc⟩
    exact sound_new hc
  · rintro c e c' hc rfl
    exact hc.next e

/-- A plane that is there stays. -/
theorem Sound.value_next (h : c.Sound H options) {tee : AttestedTee T}
    (hvalue : c.flight.value = some tee) (e : ClientEvent T) :
    (c.next H e).flight.value = some tee := by
  cases e with
  | call input =>
    change (c.call input).flight.value = _
    unfold CooL.call CooL.connect
    split_ifs
    · exact hvalue
    · change c.flight.join.1.value = _
      rw [SingleFlight.join_of_value hvalue]
      exact hvalue
    · exact hvalue
  | opened k answers => exact (c.flight.value_settle k _).trans hvalue
  | noted k => exact h.flight.value_handle hvalue k
  | resumed i =>
    change (c.resume i).flight.value = _
    unfold CooL.resume
    split
    · split <;> exact hvalue
    · exact hvalue
  | close => exact hvalue

theorem Sound.foldl (h : c.Sound H options) {tee : AttestedTee T}
    (hvalue : c.flight.value = some tee) (events : List (ClientEvent T)) :
    (events.foldl (CooL.next H) c).Sound H options ∧
      (events.foldl (CooL.next H) c).flight.value = some tee := by
  induction events generalizing c with
  | nil => exact ⟨h, hvalue⟩
  | cons e events ih => exact ih (h.next e) (h.value_next hvalue e)

/-- **One plane**: in every run at most one opening is under way or has succeeded; there is none
under way once a plane is there, that plane is there to stay, and every call that goes on, then or
later, goes on with it. -/
theorem calls_share_one_plane (h : (CooL.runs H options).Reachable c) :
    (∀ (j k : Nat) (a b : FlightAttempt CooLError (AttestedTee T)), c.flight.attempts[j]? = some a →
      ¬a.Failed → c.flight.attempts[k]? = some b → ¬b.Failed → j = k) ∧
    (∀ (i : Nat) (tee : AttestedTee T), c.calls[i]? = some (.served tee) →
      c.flight.value = some tee) ∧
    ∀ tee, c.flight.value = some tee →
      (∀ (k : Nat) (a : FlightAttempt CooLError (AttestedTee T)), c.flight.attempts[k]? = some a →
        a.Failed ∨ a = .handled (.ok tee)) ∧
      ∀ (events : List (ClientEvent T)) (i : Nat) (tee' : AttestedTee T),
        (events.foldl (CooL.next H) c).calls[i]? = some (.served tee') → tee' = tee := by
  have hsound := sound_of_reachable h
  refine ⟨fun j k a b hj ha hk hb => hsound.flight.eq_of_not_failed hj ha hk hb, hsound.served,
    fun tee hvalue => ⟨fun k a hk => ?_, fun events i tee' hi => ?_⟩⟩
  · by_cases ha : a.Failed
    · exact .inl ha
    · exact .inr (hsound.flight.value_of_current hvalue hk ha)
  · obtain ⟨hlater, hstays⟩ := hsound.foldl hvalue events
    have hserved := hlater.served i tee' hi
    rw [hstays] at hserved
    exact (Option.some.inj hserved).symm

/-- **No hardware stands behind a client**: it demands a verified root and configures no verifier.
In every run, whatever the agent answers, `environment` never calls the plane hardware; what the
plane's channel transmits it transmits on the simulator's quote; and a client that requires
attestation is never connected and serves no call. -/
theorem client_never_backed_by_hardware (h : (CooL.runs H options).Reachable c) :
    (∀ environment, c.environment = .ok environment → environment.hardware = false) ∧
      (∀ (i : Nat) (tee : AttestedTee T), c.calls[i]? = some (.served tee) →
        ∀ batches, ∀ batch ∈ tee.channel.transmitted batches, tee.Simulated H) ∧
      (options.security.requireAttestation = true →
        c.flight.value = none ∧
          ∀ (i : Nat) (tee : AttestedTee T), c.calls[i]? ≠ some (.served tee)) := by
  have hsound := sound_of_reachable h
  have hplane : ∀ tee, c.flight.value = some tee →
      (tee.handshake.ok = true → tee.Simulated H) ∧
        options.security.requireAttestation = false := by
    intro tee hvalue
    obtain ⟨answers, hopened⟩ := hsound.value hvalue
    obtain ⟨client, hattest, hrequired⟩ := CooLOptions.parts_of_openPlane hopened
    refine ⟨fun hok => (simulated_of_ok hattest hok).1, ?_⟩
    by_contra hrequire
    rw [Bool.not_eq_false] at hrequire
    exact absurd (simulated_of_ok hattest (hrequired hrequire)).2 (by simp [hrequire])
  refine ⟨fun environment henvironment => ?_, fun i tee hi batches batch hbatch => ?_,
    fun hrequire => ?_⟩
  · unfold CooL.environment CooL.connected at henvironment
    cases hvalue : c.flight.value with
    | none =>
      rw [hvalue] at henvironment
      cases henvironment
    | some tee =>
      rw [hvalue] at henvironment
      cases henvironment
      refine decide_eq_false fun hreal => ?_
      obtain ⟨-, -, handshake, hsome, hroot, hok, -⟩ := assessRuntime_real_iff.mp hreal
      cases hsome
      exact hroot ((hplane tee hvalue).1 hok).root
  · exact (hplane tee (hsound.served i tee hi)).1 (AttestedChannel.ok_of_transmitted hbatch)
  · have hnone : c.flight.value = none := by
      by_contra hsome
      obtain ⟨tee, hvalue⟩ := Option.ne_none_iff_exists'.mp hsome
      exact absurd (hplane tee hvalue).2 (by simp [hrequire])
    refine ⟨hnone, fun i tee hi => ?_⟩
    rw [hsound.served i tee hi] at hnone
    cases hnone

/-- What a closed client keeps: it has begun no opening and served no call that was made since. -/
structure ClosedSince (c c' : CooL T) : Prop where
  closed : c'.closed = true
  openings : c'.flight.attempts.length = c.flight.attempts.length
  rejected : ∀ (i : Nat) (call : ClientCall T), c.calls.length ≤ i →
    c'.calls[i]? = some call → ∃ e, call = .rejected e

/-- A call that is made of a closed client is rejected at once. -/
theorem call_of_closed (hclosed : c.closed = true) (input : Option JsValue) :
    ∃ e, c.call input = { c with calls := c.calls ++ [.rejected e] } := by
  unfold CooL.call CooL.connect
  split_ifs
  · exact ⟨_, rfl⟩
  · exact ⟨_, rfl⟩

theorem ClosedSince.next {c' : CooL T} (h : ClosedSince c c') (e : ClientEvent T) :
    ClosedSince c (c'.next H e) := by
  cases e with
  | call input =>
    obtain ⟨e, he⟩ := call_of_closed h.closed input
    change ClosedSince c (c'.call input)
    rw [he]
    refine ⟨h.closed, h.openings, fun i call hi hcall => ?_⟩
    rw [List.getElem?_append] at hcall
    split_ifs at hcall
    · exact h.rejected i call hi hcall
    · exact ⟨e, List.mem_singleton.mp (List.mem_of_getElem? hcall)⟩
  | opened k answers =>
    exact ⟨h.closed, (c'.flight.length_settle k _).trans h.openings, h.rejected⟩
  | noted k => exact ⟨h.closed, (c'.flight.length_handle k).trans h.openings, h.rejected⟩
  | resumed i =>
    change ClosedSince c (c'.resume i)
    unfold CooL.resume
    split
    swap
    · exact h
    rename_i ticket hticket
    have hset : ∀ call : ClientCall T, ClosedSince c { c' with calls := c'.calls.set i call } := by
      intro call
      refine ⟨h.closed, h.openings, fun j call' hj hcall => ?_⟩
      rw [List.getElem?_set] at hcall
      split_ifs at hcall with hsame
      · -- a call that waits was made before
        subst hsame
        obtain ⟨e, he⟩ := h.rejected i _ hj hticket
        cases he
      · exact h.rejected j call' hj hcall
    split
    · exact hset _
    · exact hset _
    · exact h
  | close => exact ⟨rfl, h.openings, h.rejected⟩

theorem ClosedSince.foldl {c' : CooL T} (h : ClosedSince c c') (events : List (ClientEvent T)) :
    ClosedSince c (events.foldl (CooL.next H) c') := by
  induction events generalizing c' with
  | nil => exact h
  | cons e events ih => exact ih (h.next e)

/-- A plane is drained by a call of `close` alone. -/
theorem drained_foldl {events : List (ClientEvent T)} (hopen : .close ∉ events) :
    (events.foldl (CooL.next H) c).drained = c.drained := by
  induction events generalizing c with
  | nil => rfl
  | cons e events ih =>
    rw [List.mem_cons, not_or] at hopen
    obtain ⟨he, hopen⟩ := hopen
    have hnext : (c.next H e).drained = c.drained := by
      cases e with
      | call input =>
        change (c.call input).drained = _
        unfold CooL.call CooL.connect
        split_ifs <;> rfl
      | opened k answers => rfl
      | noted k => rfl
      | resumed i =>
        change (c.resume i).drained = _
        unfold CooL.resume
        split
        · split <;> rfl
        · rfl
      | close => exact (he rfl).elim
    exact (ih hopen).trans hnext

/-- **Closed is final, but does not reach a plane that is still on its way**: whatever follows, a
closed client begins no opening and rejects every call; calls that waited may still be served, and
where no plane was there when it was closed, none is ever drained without another close. -/
theorem closed_client_takes_no_work (h : (CooL.runs H options).Reachable c)
    (hclosed : c.closed = true) (events : List (ClientEvent T)) :
    ClosedSince c (events.foldl (CooL.next H) c) ∧
      (c.flight.value = none → .close ∉ events →
        (events.foldl (CooL.next H) c).drained = []) := by
  constructor
  · have hstart : ClosedSince c c := by
      refine ⟨hclosed, rfl, fun i call hi hcall => ?_⟩
      rw [List.getElem?_eq_none hi] at hcall
      cases hcall
    exact hstart.foldl events
  · intro hnone hopen
    rw [drained_foldl hopen, List.eq_nil_iff_forall_not_mem]
    intro tee htee
    rw [(sound_of_reachable h).drained tee htee] at hnone
    cases hnone

/-- Where the attestation domain passes, the checker that was passed in accepted the quote under a
root that is not the simulator's. -/
theorem verified_of_attestation_pass {r : ReceiptFields} {args : VerifyArgsV2}
    (h : verifyAttestationDomain H r args = .ok .pass) :
    ∃ quote verifier, r.quote = some quote ∧ args.quoteVerifier = some verifier ∧
      (verifier quote.value).ok = true ∧ quote.root ≠ "cool-sim-root" ∧
      (verifier quote.value).root ≠ "cool-sim-root" := by
  unfold verifyAttestationDomain at h
  split at h
  · cases h
  · rename_i quote hquote
    obtain ⟨sound, -, h⟩ := bind_eq_ok.mp h
    split_ifs at h
    · cases h
    · obtain ⟨verification, hchain, h⟩ := bind_eq_ok.mp h
      have hstatus : attestationStatus quote verification = .pass := Except.ok.inj h
      unfold attestationStatus at hstatus
      split at hstatus
      · cases hstatus
      · rename_i verification
        split_ifs at hstatus with hbad hsimulated
        rw [not_or] at hsimulated
        unfold chainToRoot at hchain
        split at hchain
        · rename_i verifier hverifier
          cases hchain
          exact ⟨quote, verifier, hquote, hverifier, by simpa using hbad, hsimulated.1,
            hsimulated.2⟩
        · rw [if_neg hsimulated.1] at hchain
          cases hchain

/-- **The client's policy stands over the caller's options**: evidence that a client which requires
attestation calls ok carries a quote that a checker of the caller's own accepted under a vendor's
root, whatever the options say; and a pinned measurement binds it where the caller pins none. -/
theorem verify_under_policy {A : Anchor.AnchorHost} {evidence : JsValue} {args : VerifyArgsV2}
    {verdict : VerdictV2} (hrequire : c.options.security.requireAttestation = true)
    (h : c.verify H A evidence args = .ok verdict) (hok : verdict.ok = true) :
    ∃ r quote verifier, readReceipt evidence = .ok r ∧ r.quote = some quote ∧
      args.quoteVerifier = some verifier ∧ (verifier quote.value).ok = true ∧
      quote.root ≠ "cool-sim-root" ∧ (verifier quote.value).root ≠ "cool-sim-root" ∧
      ∀ pin, args.expectedMeasurement = none →
        c.options.security.expectedMeasurement = some pin → r.record.teeQuote ≠ none →
          quote.measurement = pin := by
  unfold CooL.verify verifyReceiptV2 at h
  split_ifs at h
  · cases h
    cases hok
  obtain ⟨r, hread, h⟩ := bind_eq_ok.mp h
  unfold verifyFields at h
  obtain ⟨binding, -, h⟩ := bind_eq_ok.mp h
  obtain ⟨signature, -, h⟩ := bind_eq_ok.mp h
  obtain ⟨inclusion, -, h⟩ := bind_eq_ok.mp h
  obtain ⟨witnesses, -, h⟩ := bind_eq_ok.mp h
  obtain ⟨attestation, hattestation, h⟩ := bind_eq_ok.mp h
  obtain ⟨enclave, henclave, h⟩ := bind_eq_ok.mp h
  cases h
  simp only [verdictOf, hrequire, Bool.true_or, Bool.not_true, Bool.false_or, Bool.and_eq_true,
    decide_eq_true_eq] at hok
  obtain ⟨⟨⟨⟨-, hnotfail⟩, -⟩, hpass⟩, -⟩ := hok
  subst hpass
  obtain ⟨quote, verifier, hquote, hverifier, haccepted, hroot, hvendor⟩ :=
    verified_of_attestation_pass hattestation
  refine ⟨r, quote, verifier, hread, hquote, hverifier, haccepted, hroot, hvendor,
    fun pin hunpinned hpin hbound => ?_⟩
  obtain ⟨teeQuote, hteeQuote⟩ := Option.ne_none_iff_exists'.mp hbound
  have hpinned : pinnedMeasurement r { args with
      requireHardware := c.options.security.requireAttestation || args.requireHardware
      expectedMeasurement :=
        args.expectedMeasurement.or c.options.security.expectedMeasurement } = some pin := by
    simp [pinnedMeasurement, hunpinned, hpin]
  unfold verifyEnclaveDomain at henclave
  rw [hquote, hteeQuote, hpinned] at henclave
  by_contra hdiffers
  have hmismatch : pin ≠ quote.measurement := Ne.symm hdiffers
  obtain ⟨digest, -, henclave⟩ := bind_eq_ok.mp henclave
  simp only [Option.any_some, ne_eq, hmismatch, not_false_eq_true, decide_true, if_true,
    ite_self] at henclave
  split_ifs at henclave
  · obtain ⟨expected, -, henclave⟩ := bind_eq_ok.mp henclave
    cases henclave
    exact hnotfail rfl
  · cases henclave
    exact hnotfail rfl
  · cases henclave
    exact hnotfail rfl

end CooL

end

/-! ## A client over the simulator -/

/-- The simulated agent's calls, with its quotes at one reading of its clock. -/
def SimulatedDstackClient.agent (H : Host) (K : KeyHost) (sim : SimulatedDstackClient)
    (quoteClock : String) : DstackClient where
  mode := .simulated
  info := .ok (sim.info K)
  getQuote := sim.getQuote H K quoteClock
  directory := .ok sim.directory

section

variable {H : Host} {K : KeyHost}

/-- The simulator's quote is accepted under its root key. -/
theorem simulatorVerifier_getQuote (hlaws : SigningLaws H K) {o : SimulatedDstackOptions}
    {sim : SimulatedDstackClient} (hnew : SimulatedDstackClient.new H K o = .ok sim)
    {quoteClock : String} {reportData : Multihash} {quote : QuoteEnvelope}
    (hquote : sim.getQuote H K quoteClock reportData = .ok quote) :
    ∃ verification, (simulatorVerifier H sim.directory).verify quote = .ok verification ∧
      verification.ok = true := by
  obtain ⟨rootKey, hroot, hnew⟩ := bind_eq_ok.mp hnew
  cases hnew
  obtain ⟨-, hgenerated⟩ := generated_of_generateKeypair hroot
  obtain ⟨signature, hsigned, hquote⟩ := bind_eq_ok.mp hquote
  cases hquote
  obtain ⟨message, hmessage, hsigned⟩ := bind_eq_ok.mp hsigned
  cases hsigned
  have hid : (H.hybridSign message rootKey).keyId = rootKey.keyId := by
    rw [hlaws.sign]
    rfl
  have hkey : carriedKey [(rootKey.keyId, rootKey.directoryEntry)]
      (H.hybridSign message rootKey).keyId = .entry rootKey.directoryEntry := by
    rw [hid]
    simp [carriedKey, Entries.get]
  have hverifies := hlaws.verifies hgenerated message
  simp only [simulatorVerifier, SimulatedDstackClient.directory, hkey]
  rw [hmessage, ok_bind]
  exact ⟨_, rfl, hverifies⟩

theorem measurement_wellFormed (hsha384 : ∀ data, (K.sha384 data).length = 48)
    (sim : SimulatedDstackClient) : ∀ r ∈ (sim.measurement K).named, isRegister r.2 = true := by
  intro r hr
  have hreg : ∀ tag parts, isRegister (SimulatedDstackClient.reg K tag parts) = true :=
    fun tag parts => isRegister_toHexField (hsha384 _)
  simp only [Measurement.named, List.mem_cons, List.not_mem_nil, or_false] at hr
  rcases hr with rfl | rfl | rfl | rfl | rfl <;> exact hreg _ _

/-- A policy that allows the simulator, and pins and restricts nothing, opens a channel to it. -/
theorem simulator_handshake_ok (hlaws : SigningLaws H K)
    (hsha : ∀ data, (H.sha256 data).length = 32) (hsha384 : ∀ data, (K.sha384 data).length = 48)
    {o : SimulatedDstackOptions} {sim : SimulatedDstackClient}
    (hnew : SimulatedDstackClient.new H K o = .ok sim) {quoteClock clock : String}
    {key : DirectoryEntry} {reportData : Multihash} {quote : QuoteEnvelope}
    (hreport : enclaveReportData H (.str key.mlDsaPub) (.str key.ed25519Pub) = .ok reportData)
    (hquote : sim.getQuote H K quoteClock reportData = .ok quote) :
    ∃ handshake, attestEndpoint H (sim.agent H K quoteClock) key
        { allowSimulated := some true } clock = .ok handshake ∧ handshake.ok = true := by
  obtain ⟨verification, hverify, haccepted⟩ := simulatorVerifier_getQuote hlaws hnew hquote
  have hshape : quote.root = "cool-sim-root" ∧ quote.raw = none ∧
      quote.body.measurement = sim.measurement K ∧ quote.body.reportData = reportData := by
    obtain ⟨signature, -, hbody⟩ := bind_eq_ok.mp hquote
    cases hbody
    exact ⟨rfl, rfl, rfl, rfl⟩
  obtain ⟨hroot, hraw, hmeasurement, hreportData⟩ := hshape
  have hstructured : quote.WellStructured := by
    refine ⟨?_, ?_, by simp [hroot, hraw]⟩
    · rw [hmeasurement]
      exact measurement_wellFormed hsha384 sim
    · rw [hreportData]
      obtain ⟨bytes, -, hreport⟩ := bind_eq_ok.mp hreport
      cases hreport
      exact isMultihash_toHex (hsha _)
  have hstep : ({ allowSimulated := some true } : AttestationPolicy).rootStep H quote
      sim.directory = .ok (⟨"root of trust", verification.ok, verification.detail⟩, false) := by
    have hverifier : ({ allowSimulated := some true } : AttestationPolicy).verifierOf H quote
        sim.directory = some (simulatorVerifier H sim.directory) := by
      rw [AttestationPolicy.verifierOf, if_pos hroot]
      rfl
    rw [AttestationPolicy.rootStep, if_neg (by simp), hverifier]
    dsimp only
    rw [hverify, ok_bind, hroot]
    simp
  have hall : (handshakeSteps (sim.agent H K quoteClock) { allowSimulated := some true }
      (sim.info K) reportData quote ⟨"root of trust", verification.ok, verification.detail⟩).all
        HandshakeStep.ok = true := by
    refine handshakeSteps_ok_iff.mpr ⟨?_, (structureProblem_eq_none_iff _).mpr hstructured,
      haccepted, ?_, rfl, hreportData⟩
    · intro step hstep
      cases hstep
    · intro step hstep
      cases hstep
  unfold attestEndpoint
  simp only [SimulatedDstackClient.agent, hreport, hquote, hstep, ok_bind]
  exact ⟨_, rfl, hall⟩

end

/-! ## Clients of the reference world -/

namespace Reference

/-- What the world answers a client that runs its own simulator. -/
def simulatorAnswers : PlaneAnswers String where
  coolDstackEndpoint := none
  httpClient endpoint _ := .error ("connect ENOENT " ++ endpoint)
  simulatedClient _ := .ok (client.agent wireHost keyHost "2026-01-01T00:00:00.000Z")
  start _ expectedMeasurement :=
    EvidencePlane.start wireHost keyHost client { expectedMeasurement } "2026-01-01T00:00:00.000Z"
  sink _ := .ok ()
  clock := "2026-01-01T00:00:01.000Z"

/-- A client with no options opens its plane over the simulator. -/
theorem exists_opened : ∃ tee, ({} : CooLOptions).openPlane wireHost .local_ simulatorAnswers =
    .ok tee ∧ tee.handshake.ok = true := by
  obtain ⟨plane, hplane⟩ := start_ok length_digest client {} "2026-01-01T00:00:00.000Z"
  obtain ⟨reportData, hreport⟩ : ∃ reportData, enclaveReportData wireHost
      (.str plane.keys.record.directoryEntry.mlDsaPub)
      (.str plane.keys.record.directoryEntry.ed25519Pub) = .ok reportData := ⟨_, rfl⟩
  obtain ⟨quote, hquote⟩ : ∃ quote, client.getQuote wireHost keyHost "2026-01-01T00:00:00.000Z"
      reportData = .ok quote := ⟨_, rfl⟩
  obtain ⟨handshake, hattest, hok⟩ := simulator_handshake_ok signingLaws length_digest
    length_sha384 plane_started.new hreport hquote
  have hconnect : AttestedTee.connect wireHost simulatorAnswers none "cool-app" none
      ({} : CooLOptions).policy =
        .ok { plane, channel := { handshake, sink := fun _ => .ok () } } :=
    bind_eq_ok.mpr ⟨_, rfl, bind_eq_ok.mpr ⟨plane, hplane, bind_eq_ok.mpr
      ⟨_, bind_eq_ok.mpr ⟨handshake, hattest, rfl⟩, rfl⟩⟩⟩
  exact ⟨_, CooLOptions.openPlane_eq rfl hconnect rfl, hok⟩

/-- A client whose first call was served by its plane. -/
def servedClient (tee : AttestedTee String) : CooL String :=
  { options := {}, provider := .local_
    flight := { value := some tee, current := some 0, attempts := [.handled (.ok tee)] }
    calls := [.served tee] }

theorem reachable_servedClient {tee : AttestedTee String}
    (htee : ({} : CooLOptions).openPlane wireHost .local_ simulatorAnswers = .ok tee) :
    (CooL.runs wireHost {}).Reachable (servedClient tee) := by
  have hopened : ({ options := {}, provider := .local_
                    flight := { current := some 0, attempts := [.pending] }
                    calls := [.awaiting (.attempt 0)] } : CooL String).next wireHost
      (.opened 0 simulatorAnswers) =
        { options := {}, provider := .local_
          flight := { current := some 0, attempts := [.settled (.ok tee)] }
          calls := [.awaiting (.attempt 0)] } := by
    rw [← htee]
    rfl
  have hstart : (CooL.runs wireHost {}).Reachable
      ({ options := {}, provider := .local_ } : CooL String) := .start ⟨none, rfl⟩
  have hasked := hstart.snoc (l := ClientEvent.call none) trivial rfl
  have hsettled := hasked.snoc trivial hopened.symm
  have hnoted := hsettled.snoc (l := ClientEvent.noted 0) trivial rfl
  exact hnoted.snoc (l := ClientEvent.resumed 0) trivial rfl

/-- A client that was closed while its first call waited for the plane. -/
def leavingClient : CooL String :=
  { options := {}, provider := .local_
    flight := { current := some 0, attempts := [.pending] }
    closed := true, calls := [.awaiting (.attempt 0)] }

theorem reachable_leavingClient : (CooL.runs wireHost {}).Reachable leavingClient := by
  have hstart : (CooL.runs wireHost {}).Reachable
      ({ options := {}, provider := .local_ } : CooL String) := .start ⟨none, rfl⟩
  have hasked := hstart.snoc (l := ClientEvent.call none) trivial rfl
  exact hasked.snoc (l := ClientEvent.close) trivial rfl

/-- A client that requires attestation, and a checker of vendors' quotes for its caller. -/
def requiringClient : CooL String :=
  { options := { security := { requireAttestation := true } }, provider := .dstack }

def vendorChecked : VerifyArgsV2 :=
  { quoteVerifier := some fun _ => { ok := true, root := "intel-dcap" } }

theorem vendorChecked_accepted :
    (requiringClient.verify quotingHost anchorHost issuedReceipt vendorChecked).map VerdictV2.ok =
      .ok true := by
  decide +kernel

end Reference

namespace CooL

open Reference

/-- A client whose first call was served goes on with that plane. -/
theorem calls_share_one_plane_served :
    ∃ tee, (servedClient tee).calls[0]? = some (.served tee) ∧
      ∀ (events : List (ClientEvent String)) (i : Nat) (tee' : AttestedTee String),
        (events.foldl (CooL.next wireHost) (servedClient tee)).calls[i]? = some (.served tee') →
          tee' = tee := by
  obtain ⟨tee, hopened, -⟩ := exists_opened
  obtain ⟨-, hserved, hplane⟩ := calls_share_one_plane (reachable_servedClient hopened)
  exact ⟨tee, rfl, (hplane tee (hserved 0 tee rfl)).2⟩

/-- It transmits over the simulator's quote, and its environment is no hardware. -/
theorem client_never_backed_by_hardware_served :
    ∃ tee : AttestedTee String, tee.channel.transmitted [["event-1"]] = [["event-1"]] ∧
      tee.Simulated wireHost ∧
      ∃ environment, (servedClient tee).environment = .ok environment ∧
        environment.hardware = false := by
  obtain ⟨tee, hopened, hok⟩ := exists_opened
  obtain ⟨hhardware, hsimulated, -⟩ :=
    client_never_backed_by_hardware (reachable_servedClient hopened)
  have hsent : tee.channel.transmitted [["event-1"]] = [["event-1"]] := by
    have hopen : tee.channel.handshake.ok = true := hok
    simp [AttestedChannel.transmitted, AttestedChannel.send, hopen]
  exact ⟨tee, hsent, hsimulated 0 tee rfl [["event-1"]] ["event-1"] (by rw [hsent]; simp), _, rfl,
    hhardware _ rfl⟩

/-- The plane of a client that was closed meanwhile serves the call that waited, and stays. -/
theorem closed_client_takes_no_work_leaving :
    ∃ tee : AttestedTee String, ∃ c : CooL String,
      c = [ClientEvent.opened 0 simulatorAnswers, .noted 0, .resumed 0].foldl
        (CooL.next wireHost) leavingClient ∧
      c.calls[0]? = some (.served tee) ∧ ClosedSince leavingClient c ∧ c.drained = [] := by
  obtain ⟨tee, hopened, -⟩ := exists_opened
  obtain ⟨hsince, hdrained⟩ := closed_client_takes_no_work reachable_leavingClient rfl
    [.opened 0 simulatorAnswers, .noted 0, .resumed 0]
  have hserved : ([ClientEvent.opened 0 simulatorAnswers, .noted 0, .resumed 0].foldl
      (CooL.next wireHost) leavingClient).calls[0]? = some (.served tee) := by
    have hnext : leavingClient.next wireHost (.opened 0 simulatorAnswers) =
        { leavingClient with
          flight := { current := some 0, attempts := [.settled (.ok tee)] } } := by
      rw [← hopened]
      rfl
    rw [List.foldl_cons, hnext]
    rfl
  exact ⟨tee, _, rfl, hserved, hsince, hdrained rfl (by simp)⟩

/-- Evidence with a vendor's quote, for a caller who passes a checker. -/
theorem verify_under_policy_vendor : ∃ r quote verifier,
    readReceipt issuedReceipt = .ok r ∧ r.quote = some quote ∧
      vendorChecked.quoteVerifier = some verifier ∧ (verifier quote.value).ok = true := by
  obtain ⟨verdict, hverify, hok⟩ := ok_of_map_eq vendorChecked_accepted
  obtain ⟨r, quote, verifier, hread, hquote, hverifier, haccepted, -⟩ :=
    verify_under_policy rfl hverify hok
  exact ⟨r, quote, verifier, hread, hquote, hverifier, haccepted⟩

end CooL

end CoolSdk
