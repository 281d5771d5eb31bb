import CoolSdk.Phala.Booted
import CoolSdk.Phala.NeverThrows
import CoolSdk.Phala.Transparency

/-!
# A plane on the reference host

Stand-ins for the signature schemes that sign and verify what they should, and a plane that was
started with them, for running the producer and the verifier against each other.
-/

namespace CoolSdk.Reference

/-! ## Signing -/

/-- Stand-ins for the schemes: a signature is the digest of a message under the public key. -/
def keyHost : KeyHost where
  sha384 data := Cbor.bigEndian 48 (data.foldl (fun acc b => 257 * acc + b.toNat + 1) data.length)
  mlDsaKeygen seed := (digest (80 :: seed), seed)
  mlDsaSign secret message := digest (digest (80 :: secret) ++ message)
  mlDsaVerify publicKey message signature := decide (signature = digest (publicKey ++ message))
  ed25519PublicKey secret := digest (69 :: secret)
  ed25519Sign message secret := digest (digest (69 :: secret) ++ message)
  ed25519Verify signature message publicKey := decide (signature = digest (publicKey ++ message))

/-- The reference host with an encoder that never refuses, signing with these schemes. -/
def wireHost : Host :=
  { totalHost with
    hybridSign := CoolSdk.hybridSign keyHost
    hybridVerify := CoolSdk.hybridVerify host keyHost }

theorem signingLaws : SigningLaws wireHost keyHost where
  sign _ _ := rfl
  verify _ _ _ := rfl
  atob := atob_toBase64
  mlDsa _ _ := by simp only [keyHost, decide_true]
  ed25519 _ _ := by simp only [keyHost, decide_true]

theorem length_sha384 (data : Bytes) : (keyHost.sha384 data).length = 48 :=
  Cbor.length_bigEndian 48 _

/-! ## A plane -/

/-- The value of a computation that succeeds. -/
def valueOf {α : Type} (x : Except String α) (h : x.isOk = true) : α :=
  match x, h with
  | .ok a, _ => a

theorem eq_ok_valueOf {α : Type} (x : Except String α) (h : x.isOk = true) :
    x = .ok (valueOf x h) := by
  cases x with
  | error e => cases h
  | ok a => rfl

theorem isOk_of_exists {α : Type} {x : Except String α} (h : ∃ a, x = .ok a) : x.isOk = true := by
  obtain ⟨a, rfl⟩ := h
  rfl

/-- The deployment of an agent. -/
def agent : SimulatedDstackOptions where
  appName := "refund-agent"
  imageDigest := "sha256:aa"

/-- The same host with another digest. -/
def hostWith (sha256 : Bytes → Bytes) : Host := { wireHost with sha256 }

section

variable {sha256 : Bytes → Bytes} (hsha : ∀ data, (sha256 data).length = 32)

theorem generateKeypair_ok (keyId : String) {seed : Bytes} (h : seed.length = 32) :
    ∃ key, generateKeypair (hostWith sha256) keyHost keyId seed = .ok key := by
  rw [generateKeypair, if_neg (not_not.mpr h)]
  exact ⟨_, rfl⟩

include hsha

theorem sealedKeypair_ok (client : SimulatedDstackClient) (path role : String) :
    ∃ key, sealedKeypair (hostWith sha256) keyHost client path role = .ok key := by
  have hlength : (client.deriveKey (hostWith sha256) keyHost path).length = 32 := hsha _
  unfold sealedKeypair
  dsimp only
  rw [if_neg (not_not.mpr hlength)]
  exact generateKeypair_ok _ hlength

theorem client_ok (options : SimulatedDstackOptions) :
    ∃ client, SimulatedDstackClient.new (hostWith sha256) keyHost options = .ok client := by
  obtain ⟨key, hkey⟩ := generateKeypair_ok SIM_ROOT_KEY_ID
    (hsha (utf8 ("cool/sim-attestation-root " ++ options.rootSeed.getD "cool")))
  exact ⟨_, bind_eq_ok.mpr ⟨key, hkey, rfl⟩⟩

theorem start_ok (client : SimulatedDstackClient) (options : EvidencePlaneOptions)
    (quoteClock : String) :
    ∃ plane, EvidencePlane.start (hostWith sha256) keyHost client options quoteClock =
      .ok plane := by
  obtain ⟨record, hrecord⟩ := sealedKeypair_ok hsha client "cool/evidence/record/v2" "enclave"
  obtain ⟨log, hlog⟩ := sealedKeypair_ok hsha client "cool/evidence/log/v2" "log"
  have hkeys : sealedKeyset (hostWith sha256) keyHost client =
      .ok { record := record, log := log } :=
    bind_eq_ok.mpr ⟨record, hrecord, bind_eq_ok.mpr ⟨log, hlog, rfl⟩⟩
  exact ⟨_, bind_eq_ok.mpr ⟨_, hkeys, rfl⟩⟩

end

def client : SimulatedDstackClient :=
  valueOf (SimulatedDstackClient.new wireHost keyHost agent)
    (isOk_of_exists (client_ok length_digest agent))

/-- A plane over the agent, expecting its own measurement. -/
def planeOptions : EvidencePlaneOptions where
  expectedMeasurement := some (client.measurement keyHost)

def plane : EvidencePlane :=
  valueOf (EvidencePlane.start wireHost keyHost client planeOptions "2026-01-01T00:00:00.000Z")
    (isOk_of_exists (start_ok length_digest client planeOptions "2026-01-01T00:00:00.000Z"))

theorem plane_started :
    StartedFrom wireHost keyHost plane agent client planeOptions "2026-01-01T00:00:00.000Z" where
  new := eq_ok_valueOf _ _
  start := eq_ok_valueOf _ _
  instanceId := by rintro _ ⟨⟩
  logId := by rintro _ ⟨⟩
  clock := by decide
  expected := by
    rintro m ⟨⟩
    rfl

/-! ## A receipt -/

section

variable {sha256 : Bytes → Bytes} (hsha : ∀ data, (sha256 data).length = 32)

include hsha

private theorem signRecord_ok (recordKey : KeyPair) (core : RecordCoreV2) :
    ∃ signed, signRecord (hostWith sha256) recordKey core = .ok signed := by
  have hdigest : ∀ data, multihashDigest (mhSha256 (hostWith sha256) data) =
      .ok ((hostWith sha256).sha256 data) := fun data => multihashDigest_toHex (hsha data)
  refine exists_bind ⟨_, rfl⟩ fun binding hbinding => ?_
  obtain rfl := Except.ok.inj hbinding
  refine exists_bind (exists_bind ⟨_, rfl⟩ fun _ _ => exists_bind ⟨_, hdigest _⟩
    fun _ _ => ⟨_, rfl⟩) fun message _ => ?_
  exact exists_bind ⟨_, hdigest _⟩ fun _ _ => ⟨_, rfl⟩

/-- Sealing into a new log succeeds. -/
theorem seal_ok (recordKey logKey : KeyPair) (logId : String) (core : RecordCoreV2)
    (clock : String) (leafIo headIo : Unit) :
    ∃ receipt log, EvidencePlane.seal (hostWith sha256) MemoryLog.evidenceLog recordKey core clock
      leafIo headIo (MemoryLog.new (hostWith sha256) logId logKey) = (.ok receipt, log) := by
  obtain ⟨⟨record, binding, leafData⟩, hsign⟩ := signRecord_ok hsha recordKey core
  have hlengths : ∀ a ∈ [leafHash (hostWith sha256) leafData], a.length = 32 := by
    rw [List.forall_mem_singleton]
    exact hsha _
  obtain ⟨root, hroot⟩ := exists_rootHashOf (H := hostWith sha256) hsha (by simp) hlengths
  obtain ⟨path, hpath, _⟩ := exists_auditPathOf (H := hostWith sha256) hsha (i := 0)
    (by simp) hlengths (by simp)
  have hhead : ∃ sth, signTreeHead (hostWith sha256) logId logKey 1
      [leafHash (hostWith sha256) leafData] clock = .ok sth :=
    exists_bind ⟨root, hroot⟩ fun _ _ => exists_bind ⟨_, rfl⟩ fun _ _ => ⟨_, rfl⟩
  obtain ⟨sth, hsth⟩ := hhead
  simp only [EvidencePlane.seal, hsign, MemoryLog.evidenceLog, MemoryLog.append, MemoryLog.new,
    MemoryLog.buildSTH, MemoryLog.inclusionAuditPath, Prod.map_apply, id_eq, List.nil_append,
    List.length_nil, List.length_singleton, hsth]
  exact ⟨_, _, by rw [hpath]⟩

/-- The plane seals an event whose core can be built. -/
theorem sealEvent_ok {plane : EvidencePlane} {event : CaptureEvent} {draws : Draws}
    (hcore : ∃ core, plane.coreOf (hostWith sha256) event draws = .ok core) :
    ∃ receipt log, plane.sealEvent (hostWith sha256) MemoryLog.evidenceLog event draws () ()
      (MemoryLog.new (hostWith sha256) plane.logId plane.keys.log) = (.ok receipt, log) := by
  obtain ⟨core, hcore⟩ := hcore
  obtain ⟨receipt, log, hseal⟩ := seal_ok hsha plane.keys.record plane.keys.log plane.logId
    core.members draws.headClock () ()
  refine ⟨plane.receipt receipt, log, ?_⟩
  rw [EvidencePlane.sealEvent, hcore]
  dsimp only
  rw [hseal]
  rfl

end

/-- An action of the agent. -/
def agentEvent : EvidenceEvent where
  type := "tool.call"
  applicationId := "refund-agent"
  executionId := "run-1"

def agentDraws : Draws where
  issuedAt := "2026-01-01T00:00:01.000Z"
  seq := .ofInt 0
  salt _ := "hex:00112233445566778899aabbccddeeff"
  recordId := .ok "01KDVCY2R00000000000000000"
  headClock := "2026-01-01T00:00:02.000Z"

def agentCall : SealCall Unit :=
  { event := .evidence agentEvent, draws := agentDraws, leafIo := (), headIo := () }

/-- The action has a core, under any digest. -/
theorem coreOf_agentCall (sha256 : Bytes → Bytes) (plane : EvidencePlane) :
    ∃ core, plane.coreOf (hostWith sha256) agentCall.event agentCall.draws = .ok core := by
  have hsalt : ∃ bytes, fromHexField (agentDraws.salt 0) = .ok bytes :=
    exists_of_isOk (by decide)
  obtain ⟨bytes, hbytes⟩ := hsalt
  refine exists_bind ⟨_, rfl⟩ fun _ _ => ?_
  refine exists_bind ⟨_, rfl⟩ fun _ _ => ?_
  refine exists_bind ⟨_, rfl⟩ fun _ _ => ?_
  refine exists_bind ⟨_, rfl⟩ fun _ _ => ?_
  refine exists_bind (exists_bind ⟨bytes, hbytes⟩ fun _ _ => ⟨_, rfl⟩) fun _ _ => ?_
  exact exists_bind ⟨_, rfl⟩ fun _ _ => ⟨_, rfl⟩

/-- The plane seals the action into a new log. -/
theorem agentCall_sealed : ∃ receipt log, plane.sealEvent wireHost MemoryLog.evidenceLog
    agentCall.event agentCall.draws agentCall.leafIo agentCall.headIo
    (MemoryLog.new wireHost plane.logId plane.keys.log) = (.ok receipt, log) :=
  sealEvent_ok length_digest (coreOf_agentCall digest plane)

theorem agentCall_ok : ∃ receipt, Except.ok receipt ∈
    (plane.run wireHost MemoryLog.evidenceLog [agentCall]
      (MemoryLog.new wireHost plane.logId plane.keys.log)).1 := by
  obtain ⟨receipt, log, hsealed⟩ := agentCall_sealed
  refine ⟨receipt, ?_⟩
  rw [EvidencePlane.run, hsealed]
  exact List.mem_cons_self

end CoolSdk.Reference
