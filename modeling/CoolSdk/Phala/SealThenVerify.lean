import CoolSdk.Phala.Genuine
import CoolSdk.Phala.ReferencePlane

/-!
# What is sealed verifies

The producer and the verifier are separate paths over one format. Every receipt a started plane
returns for well-formed events, in any run over its own log, verifies with default options.
-/

namespace CoolSdk

/-! ## Well-formed events -/

/-- The texts of an event that the receipt schema asks for, and digests it asks to be multihashes. -/
structure EvidenceEvent.WellFormed (e : EvidenceEvent) : Prop where
  type : e.type ≠ ""
  applicationId : e.applicationId ≠ ""
  executionId : e.executionId ≠ ""
  software : ∀ s, e.software = some s → s.Formed
  gpu : ∀ g, e.gpu = some g → g.Formed

structure ChangeEvent.WellFormed (e : ChangeEvent) : Prop where
  ref : e.ref ≠ ""
  environment : e.environment ≠ ""
  actorId : e.actor.id ≠ ""
  actorMethod : e.actor.method ≠ ""

def CaptureEvent.WellFormed : CaptureEvent → Prop
  | .evidence e => e.WellFormed
  | .change e => e.WellFormed

/-- Readings of the clock and draws of the generators of the form that the defaults give. -/
structure Draws.WellFormed (d : Draws) : Prop where
  issuedAt : d.issuedAt ≠ ""
  headClock : d.headClock ≠ ""
  seq : (d.seq.isInteger && !d.seq.lt (.ofInt 0)) = true
  salt : ∀ n, HEX_FIELD.test (d.salt n) = true
  recordId : ∀ id, d.recordId = .ok id → ULID.test id = true

/-- What the default generators draw: the count of earlier events, fresh salts, and an id of the
generator in use. -/
def defaultDraws (issuedAt headClock : String) (count : Nat) (salts : Nat → RandomBytes 16)
    (earlier : List (JsNumber × RandomBytes Ulid.RANDOM_CHARS)) (now : JsNumber)
    (fresh : RandomBytes Ulid.RANDOM_CHARS) : Draws where
  issuedAt := issuedAt
  seq := .ofInt count
  salt n := randomSalt (salts n)
  recordId := (Ulid.ulid now fresh (Ulid.run earlier)).1
  headClock := headClock

theorem defaultDraws_wellFormed {issuedAt headClock : String} (hissued : issuedAt ≠ "")
    (hhead : headClock ≠ "") (count : Nat) (salts : Nat → RandomBytes 16)
    (earlier : List (JsNumber × RandomBytes Ulid.RANDOM_CHARS)) (now : JsNumber)
    (fresh : RandomBytes Ulid.RANDOM_CHARS) :
    (defaultDraws issuedAt headClock count salts earlier now fresh).WellFormed where
  issuedAt := hissued
  headClock := hhead
  seq := by simp [defaultDraws, JsNumber.isInteger, JsNumber.ofInt, JsNumber.lt, JsNumber.position?]
  salt n := test_randomSalt (salts n)
  recordId := (Ulid.ulid_valid (Ulid.run_valid earlier) now fresh).2

/-! ## Cores of well-formed events -/

section

variable {H : Host} {K : KeyHost} (hsha : ∀ data, (H.sha256 data).length = 32)

include hsha

private theorem isMultihash_saltedCommit {salt : String} {data : Bytes} {mh : Multihash}
    (h : saltedCommit H salt data = .ok mh) : isMultihash mh = true := by
  obtain ⟨saltBytes, _, h⟩ := bind_eq_ok.mp h
  cases h
  exact isMultihash_toHex (hsha _)

private theorem commitPayload_formed {d : Draws} (hd : d.WellFormed) {drawn drawn' : Nat}
    {payload : Option Payload} {c : SaltedCommitment}
    (h : commitPayload H d.salt drawn payload = .ok (c, drawn')) : c.Formed := by
  cases payload with
  | none =>
    cases h
    rintro p ⟨⟩
  | some payload =>
    obtain ⟨hash, hhash, h⟩ := bind_eq_ok.mp h
    cases h
    rintro p ⟨⟩
    exact ⟨isMultihash_saltedCommit hsha hhash, hd.salt _⟩

private theorem evidenceCore_formed {plane : EvidencePlane} (hplane : plane.Booted H K)
    {e : EvidenceEvent} (he : e.WellFormed) {d : Draws} (hd : d.WellFormed) {core : TypedCore}
    (h : plane.evidenceCore H e d = .ok core) : core.Formed ∧ plane.Owns core := by
  simp only [EvidencePlane.evidenceCore, bind_eq_ok, Prod.exists] at h
  obtain ⟨input, drawn₁, hinput, output, drawn₂, houtput, state, drawn₃, hstate, metadata, _,
    metadataHash, hmetadata, recordId, hid, h⟩ := h
  have hruntime : core.runtime = { plane.runtime with gpu := e.gpu.or plane.runtime.gpu } := by
    rw [← Except.ok.inj h]
    cases e.gpu <;> rfl
  have hruntimeFormed : core.runtime.Formed := by
    rw [hruntime]
    refine ⟨hplane.runtimeFormed.measurement, hplane.runtimeFormed.teeQuote, fun g hg => ?_,
      hplane.runtimeFormed.hardware⟩
    cases hgpu : e.gpu with
    | none =>
      rw [hgpu] at hg
      exact hplane.runtimeFormed.gpu g hg
    | some g' =>
      rw [hgpu] at hg
      cases hg
      exact he.gpu g hgpu
  refine ⟨?_, _, hruntime⟩
  obtain rfl := Except.ok.inj h
  exact {
    recordId := hd.recordId _ hid
    issuedAt := hd.issuedAt
    seq := hd.seq
    subject := {
      type := he.type
      applicationId := he.applicationId
      executionId := he.executionId
      metadataHash := isMultihash_saltedCommit hsha hmetadata
      metadataSalt := hd.salt 0
      input := commitPayload_formed hsha hd hinput
      output := commitPayload_formed hsha hd houtput
      state := commitPayload_formed hsha hd hstate
      software := he.software }
    runtime := hruntimeFormed }

private theorem changeCore_formed {plane : EvidencePlane} (hplane : plane.Booted H K)
    {e : ChangeEvent} (he : e.WellFormed) {d : Draws} (hd : d.WellFormed) {core : TypedCore}
    (h : plane.changeCore H e d = .ok core) : core.Formed ∧ plane.Owns core := by
  simp only [EvidencePlane.changeCore, bind_eq_ok] at h
  obtain ⟨recordId, hid, before, hbefore, afterHash, hafter, approval, _, h⟩ := h
  obtain rfl := Except.ok.inj h
  refine ⟨?_, plane.runtime.gpu, rfl⟩
  have hbeforeFormed : SaltedCommitment.Formed before := by
    cases hb : e.before with
    | none =>
      rw [hb] at hbefore
      cases hbefore
      rintro p ⟨⟩
    | some text =>
      rw [hb] at hbefore
      obtain ⟨hash, hhash, hbefore⟩ := bind_eq_ok.mp hbefore
      cases hbefore
      rintro p ⟨⟩
      exact ⟨isMultihash_saltedCommit hsha hhash, hd.salt 0⟩
  exact {
    recordId := hd.recordId _ hid
    issuedAt := hd.issuedAt
    seq := hd.seq
    subject := {
      ref := he.ref
      environment := he.environment
      before := hbeforeFormed
      afterHash := isMultihash_saltedCommit hsha hafter
      afterSalt := hd.salt 1
      diffHash := isMultihash_toHex (hsha _)
      actorId := he.actorId
      actorMethod := he.actorMethod }
    runtime := hplane.runtimeFormed }

/-- The core of a well-formed event has the form the schema asks for. -/
theorem EvidencePlane.coreOf_formed {plane : EvidencePlane} (hplane : plane.Booted H K)
    {event : CaptureEvent} (hevent : event.WellFormed) {d : Draws} (hd : d.WellFormed)
    {core : TypedCore} (h : plane.coreOf H event d = .ok core) :
    core.Formed ∧ plane.Owns core := by
  cases event with
  | evidence e => exact evidenceCore_formed hsha hplane hevent hd h
  | change e => exact changeCore_formed hsha hplane hevent hd h

end

/-! ## Runs -/

/-- A call for a well-formed event, with well-formed draws. -/
def SealCall.WellFormed {ι : Type} (call : SealCall ι) : Prop :=
  call.event.WellFormed ∧ call.draws.WellFormed

/-- Whether a receipt verifies with default options, and as what. -/
def VerifiesGenuine (H : Host) (A : Anchor.AnchorHost) (receipt : JsValue) : Prop :=
  ∃ v, verifyReceiptV2 H A receipt {} = .ok v ∧ v.Genuine

section

variable {H : Host} {K : KeyHost} {σ ι : Type} {L : EvidenceLog σ ι}
  {leafHashes : σ → List Bytes}

/-- One call: a receipt it returns is genuine, and the log stays one its key signs. -/
theorem EvidencePlane.sealEvent_genuine (A : Anchor.AnchorHost) (hlaws : SigningLaws H K)
    (hsha : ∀ data, (H.sha256 data).length = 32) {plane : EvidencePlane}
    (hplane : plane.Booted H K) {Good : σ → Prop}
    (hL : L.Serves H leafHashes plane.keys.log Good) {call : SealCall ι} (hcall : call.WellFormed)
    {s : σ} (hs : Good s) :
    Good (plane.sealEvent H L call.event call.draws call.leafIo call.headIo s).2 ∧
      ∀ receipt, (plane.sealEvent H L call.event call.draws call.leafIo call.headIo s).1 =
        .ok receipt → VerifiesGenuine H A receipt := by
  unfold EvidencePlane.sealEvent
  split
  · exact ⟨hs, fun _ h => by cases h⟩
  · rename_i core hcore
    obtain ⟨hform, howns⟩ := EvidencePlane.coreOf_formed hsha hplane hcall.1 hcall.2 hcore
    refine ⟨EvidencePlane.seal_good hL _ _ _ _ _ hs, fun receipt h => ?_⟩
    obtain ⟨r, hr, rfl⟩ := ok_of_map_eq h
    have hsealed := EvidencePlane.seal_sealedBy hL hs (Prod.ext hr rfl)
    exact hplane.genuine A hlaws hsha hform howns hcall.2.headClock hsealed

/-- A run of calls: every receipt it returns is genuine. -/
theorem EvidencePlane.run_genuine (A : Anchor.AnchorHost) (hlaws : SigningLaws H K)
    (hsha : ∀ data, (H.sha256 data).length = 32) {plane : EvidencePlane}
    (hplane : plane.Booted H K) {Good : σ → Prop}
    (hL : L.Serves H leafHashes plane.keys.log Good) {calls : List (SealCall ι)}
    (hcalls : ∀ call ∈ calls, call.WellFormed) {s : σ} (hs : Good s) :
    ∀ receipt, .ok receipt ∈ (plane.run H L calls s).1 → VerifiesGenuine H A receipt := by
  induction calls generalizing s with
  | nil => exact fun _ h => by cases h
  | cons call calls ih =>
    rw [List.forall_mem_cons] at hcalls
    obtain ⟨hgood, hgenuine⟩ := plane.sealEvent_genuine A hlaws hsha hplane hL hcalls.1 hs
    intro receipt hmem
    rw [EvidencePlane.run] at hmem
    rcases List.mem_cons.mp hmem with hmem | hmem
    · exact hgenuine receipt hmem.symm
    · exact ih hcalls.2 hgood receipt hmem

/-- Every receipt that a started plane returns for well-formed events is genuine whenever it is
checked, over the log in memory it keeps by default and over a log file opened with its key. -/
theorem seal_then_verify (A : Anchor.AnchorHost) (hlaws : SigningLaws H K)
    (hsha : ∀ data, (H.sha256 data).length = 32)
    (hsha384 : ∀ data, (K.sha384 data).length = 48) {plane : EvidencePlane}
    {clientOptions : SimulatedDstackOptions} {client : SimulatedDstackClient}
    {options : EvidencePlaneOptions} {quoteClock : String}
    (hplane : StartedFrom H K plane clientOptions client options quoteClock) :
    (∀ calls : List (SealCall Unit), (∀ call ∈ calls, call.WellFormed) →
      ∀ receipt, .ok receipt ∈ (plane.run H MemoryLog.evidenceLog calls
        (MemoryLog.new H plane.logId plane.keys.log)).1 → VerifiesGenuine H A receipt) ∧
    (∀ (logId : String) (leafFile : Option Bytes) (log : FileLog), logId ≠ "" →
      FileLog.opened logId plane.keys.log leafFile = .ok log →
      ∀ calls : List (SealCall WriteOutcome), (∀ call ∈ calls, call.WellFormed) →
        ∀ receipt, .ok receipt ∈ (plane.run H (FileLog.evidenceLog H) calls log).1 →
          VerifiesGenuine H A receipt) := by
  have hbooted := hplane.booted hlaws hsha hsha384
  refine ⟨fun calls hcalls => ?_, fun logId leafFile log hlogId hopened calls hcalls => ?_⟩
  · exact plane.run_genuine A hlaws hsha hbooted (MemoryLog.serves hsha plane.keys.log) hcalls
      ⟨hbooted.logId, rfl⟩
  · obtain ⟨leafHashes, hreplay, hlog⟩ := bind_eq_ok.mp hopened
    cases hlog
    exact plane.run_genuine A hlaws hsha hbooted (FileLog.serves hsha plane.keys.log) hcalls
      ⟨⟨hlogId, rfl⟩, FileLog.length_of_replay hreplay⟩

end

namespace Reference

/-- The action and the draws of its sealing are well formed. -/
theorem agentCall_wellFormed : agentCall.WellFormed where
  left :=
    { type := by decide
      applicationId := by decide
      executionId := by decide
      software := by rintro _ ⟨⟩
      gpu := by rintro _ ⟨⟩ }
  right :=
    { issuedAt := by decide
      headClock := by decide
      seq := by decide
      salt := fun _ => by
        change HEX_FIELD.test "hex:00112233445566778899aabbccddeeff" = true
        decide
      recordId := by
        rintro _ ⟨⟩
        decide }

end Reference

section

open Reference

theorem seal_then_verify_agent :
    ∃ receipt, .ok receipt ∈ (plane.run wireHost MemoryLog.evidenceLog [agentCall]
        (MemoryLog.new wireHost plane.logId plane.keys.log)).1 ∧
      VerifiesGenuine wireHost anchorHost receipt := by
  obtain ⟨receipt, hreceipt⟩ := agentCall_ok
  have hcalls : ∀ call ∈ [agentCall], call.WellFormed := by
    rw [List.forall_mem_singleton]
    exact agentCall_wellFormed
  exact ⟨receipt, hreceipt, (seal_then_verify anchorHost signingLaws length_digest length_sha384
    plane_started).1 [agentCall] hcalls receipt hreceipt⟩

end

end CoolSdk
