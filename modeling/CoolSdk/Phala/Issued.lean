import CoolSdk.Phala.Evidence
import CoolSdk.Phala.WellFormed

/-!
# What the plane writes, the verifier reads

Each part of a receipt passes the structural check of it, and the verifier reads from it what was
written. One pair of lemmas a part.
-/

namespace CoolSdk

open JsValue (Members member)

/-! ## Leaves -/

namespace Checker

theorem str_of_ne {path s : String} (h : s ≠ "") : str path (.str s) none = [] := if_neg h

/-- A text that a pattern has is not empty, where the pattern does not have the empty text. -/
theorem str_of_test {path s : String} {p : Pattern} (hempty : p.test "" = false)
    (h : p.test s = true) : str path (.str s) (some p) = [] := by
  have hne : s ≠ "" := by
    rintro rfl
    rw [hempty] at h
    cases h
  simp only [str, if_neg hne, if_pos h]

theorem oneOf_of_mem {path s : String} {allowed : List String} (h : s ∈ allowed) :
    oneOf path (.str s) allowed = [] := by
  simp only [oneOf, List.contains_iff_mem.mpr h, if_true]

theorem int_of_le {path : String} {n min : Nat} (h : min ≤ n) :
    int path (.num (.ofInt n)) min = [] := by
  simp [int, JsNumber.isInteger, JsNumber.ofInt, JsNumber.lt, JsNumber.position?, h]

theorem multihash {path s : String} (h : isMultihash s = true) :
    str path (.str s) (some MULTIHASH) = [] := str_of_test (by decide) h

theorem hexField {path s : String} (h : HEX_FIELD.test s = true) :
    str path (.str s) (some HEX_FIELD) = [] := str_of_test (by decide) h

theorem base64Field {path s : String} (h : B64_FIELD.test s = true) :
    str path (.str s) (some B64_FIELD) = [] := str_of_test (by decide) h

/-- A member that may be null is checked where it is there. -/
theorem unlessNull_nullable {α : Type} {f : α → JsValue} {value : Option α}
    (check : JsValue → List String) (h : ∀ a, value = some a → check (f a) = []) :
    unlessNull (nullable f value) (check (nullable f value)) = [] := by
  cases value with
  | none => rfl
  | some a =>
    unfold unlessNull
    split
    · rfl
    · exact h a rfl

end Checker

open Checker

theorem read_object (ms : Members) (name : String) :
    (JsValue.object ms).read name = .ok (member ms name) := rfl

theorem text_str (s : String) : (JsValue.str s).text = .ok s := rfl

theorem natural_ofInt (n : Nat) : (JsValue.num (.ofInt n)).natural = .ok n := by
  simp [JsValue.natural, JsNumber.ofInt]

/-- A member that may be null is read where it is there. -/
theorem orNull_nullable {α : Type} {f : α → JsValue} {g : JsValue → Except String α}
    {value : Option α} (hnull : ∀ a, (f a).nullish = false)
    (h : ∀ a, g (f a) = .ok a) : JsValue.orNull g (nullable f value) = .ok value := by
  cases value with
  | none => rfl
  | some a =>
    rw [nullable, JsValue.orNull, hnull, h]
    rfl

/-! ## Signatures and measurements -/

/-- What the schema asks of a signature block. -/
structure SignatureBlock.Formed (s : SignatureBlock) : Prop where
  alg : s.alg = "ml-dsa-65+ed25519"
  keyId : s.keyId ≠ ""
  mlDsa : B64_FIELD.test s.mlDsa = true
  ed25519 : B64_FIELD.test s.ed25519 = true

theorem signature_toJs {path : String} {s : SignatureBlock} (h : s.Formed) :
    Checker.signature path (toJs s) = [] := by
  simp [Checker.signature, obj, toJs, member, Entries.get, exactly, JsValue.strictEquals, h.alg,
    str_of_ne h.keyId, base64Field h.mlDsa, base64Field h.ed25519]

theorem readSignature_toJs (s : SignatureBlock) : readSignature (toJs s) = .ok s := by
  simp [readSignature, toJs, JsValue.read, member, Entries.get, JsValue.text, bind, Except.bind,
    pure, Except.pure]

/-- Registers of a measurement as the structural check of a quote asks for them. -/
structure Measurement.Formed (m : Measurement) : Prop where
  mrtd : isRegister m.mrtd = true
  rtmr0 : isRegister m.rtmr0 = true
  rtmr1 : isRegister m.rtmr1 = true
  rtmr2 : isRegister m.rtmr2 = true
  rtmr3 : isRegister m.rtmr3 = true

/-- A register is a hex field. -/
theorem test_of_isRegister {value : String} (h : isRegister value = true) :
    HEX_FIELD.test value = true := by
  unfold isRegister at h
  cases hstrip : stripPrefix? "hex:" value with
  | none =>
    rw [hstrip] at h
    cases h
  | some hex =>
    simp only [hstrip, Option.any_some, Bool.and_eq_true, Bool.or_eq_true, decide_eq_true_eq] at h
    obtain ⟨hlength, hall⟩ := h
    have hne : hex.isEmpty = false := by
      cases hex with
      | nil => simp at hlength
      | cons c hex => rfl
    simp only [HEX_FIELD, hstrip, Option.any_some, hne, hall, Bool.not_false, Bool.and_self]

theorem measurement_toJs {path : String} {m : Measurement} (h : m.Formed) :
    Checker.measurement path (toJs m) = [] := by
  simp [Checker.measurement, obj, toJs, member, Entries.get,
    hexField (test_of_isRegister h.mrtd), hexField (test_of_isRegister h.rtmr0),
    hexField (test_of_isRegister h.rtmr1), hexField (test_of_isRegister h.rtmr2),
    hexField (test_of_isRegister h.rtmr3)]

theorem readMeasurement_toJs (m : Measurement) : readMeasurement (toJs m) = .ok m := by
  simp [readMeasurement, toJs, JsValue.read, member, Entries.get, JsValue.text, bind, Except.bind,
    pure, Except.pure]

/-! ## The runtime block -/

structure GpuAttestationRef.Formed (g : GpuAttestationRef) : Prop where
  gpuModel : g.gpuModel ≠ ""
  evidenceHash : isMultihash g.evidenceHash = true

theorem gpu_toJs {path : String} {g : GpuAttestationRef} (h : g.Formed) :
    Checker.gpu path (toJs g) = [] := by
  have hverdict : g.verdict.text ∈ ["verified", "unverified", "simulated"] := by
    cases g.verdict <;> decide
  simp [Checker.gpu, obj, toJs, member, Entries.get, exactly, JsValue.strictEquals,
    str_of_ne h.gpuModel, multihash h.evidenceHash, oneOf_of_mem hverdict]

structure RuntimeBlockV2.Formed (r : RuntimeBlockV2) : Prop where
  measurement : ∀ m, r.enclaveMeasurement = some m → m.Formed
  teeQuote : ∀ q, r.teeQuote = some q → isMultihash q = true
  gpu : ∀ g, r.gpu = some g → g.Formed
  /-- Hardware is not claimed without a quote. -/
  hardware : r.mode = .hardware → r.teeQuote ≠ none

theorem TeeVendor.text_mem (v : TeeVendor) : v.text ∈ TEE_VENDORS := by cases v <;> decide

theorem RuntimeMode.text_mem (m : RuntimeMode) : m.text ∈ MODES := by cases m <;> decide

theorem runtime_toJs {path : String} {r : RuntimeBlockV2} (h : r.Formed) :
    Checker.runtime path (toJs r) = [] := by
  have hmeasurement := unlessNull_nullable (f := toJs)
    (Checker.measurement (path ++ ".enclave_measurement"))
    fun m hm => measurement_toJs (h.measurement m hm)
  have hquote := unlessNull_nullable (f := JsValue.str)
    (fun v => str (path ++ ".tee_quote") v (some MULTIHASH))
    fun q hq => multihash (h.teeQuote q hq)
  have hgpu := unlessNull_nullable (f := toJs) (Checker.gpu (path ++ ".gpu"))
    fun g hg => gpu_toJs (h.gpu g hg)
  have hhardware : ((JsValue.str r.mode.text).strictEquals (.str "hardware") &&
      (nullable JsValue.str r.teeQuote).strictEquals .null) = false := by
    cases hmode : r.mode with
    | mock | simulated => rfl
    | hardware =>
      obtain ⟨q, hq⟩ := Option.ne_none_iff_exists'.mp (h.hardware hmode)
      rw [hq]
      rfl
  change Checker.runtime path (.object r.members) = []
  simp [Checker.runtime, obj, RuntimeBlockV2.members, member, Entries.get,
    oneOf_of_mem (TeeVendor.text_mem _), oneOf_of_mem (RuntimeMode.text_mem _), hmeasurement,
    hquote, hgpu, hhardware]

/-! ## Record cores -/

/-- A commitment is a multihash under a salt. -/
def SaltedCommitment.Formed (c : SaltedCommitment) : Prop :=
  ∀ p, c = some p → isMultihash p.1 = true ∧ HEX_FIELD.test p.2 = true

structure SoftwareIdentity.Formed (s : SoftwareIdentity) : Prop where
  name : s.name ≠ ""
  version : s.version ≠ ""
  digest : ∀ d, s.digest = some d → isMultihash d = true

theorem software_toJs {s : SoftwareIdentity} (h : s.Formed) : Checker.software (toJs s) = [] := by
  have hdigest := unlessNull_nullable (f := JsValue.str)
    (fun v => str "record.event.software.digest" v (some MULTIHASH))
    fun d hd => multihash (h.digest d hd)
  simp [Checker.software, obj, toJs, member, Entries.get, str_of_ne h.name, str_of_ne h.version,
    hdigest]

structure EvidenceSubject.Formed (e : EvidenceSubject) : Prop where
  type : e.type ≠ ""
  applicationId : e.applicationId ≠ ""
  executionId : e.executionId ≠ ""
  metadataHash : isMultihash e.metadataHash = true
  metadataSalt : HEX_FIELD.test e.metadataSalt = true
  input : SaltedCommitment.Formed e.input
  output : SaltedCommitment.Formed e.output
  state : SaltedCommitment.Formed e.state
  software : ∀ s, e.software = some s → s.Formed

/-- A commitment read from the members that were written of it. -/
private theorem commitment_of_members {com : Members} (field : String) {c : SaltedCommitment}
    (h : c.Formed) (hhash : member com field = nullable .str (c.map Prod.fst))
    (hsalt : member com (field ++ "_salt") = nullable .str (c.map Prod.snd)) :
    Checker.commitment com field = [] := by
  simp only [Checker.commitment, hhash, hsalt]
  cases c with
  | none => rfl
  | some p =>
    obtain ⟨hmultihash, hhex⟩ := h p rfl
    simp [nullable, JsValue.strictEquals, multihash hmultihash, hexField hhex]

private theorem commitments_toJs {input output state : SaltedCommitment} (hinput : input.Formed)
    (houtput : output.Formed) (hstate : state.Formed) :
    (["input", "output", "state"].flatMap (Checker.commitment (commitmentMembers "input" input ++
      commitmentMembers "output" output ++ commitmentMembers "state" state))) = [] := by
  rw [List.flatMap_eq_nil_iff]
  simp only [List.forall_mem_cons]
  refine ⟨commitment_of_members "input" hinput ?_ ?_,
    commitment_of_members "output" houtput ?_ ?_,
    commitment_of_members "state" hstate ?_ ?_, fun x hx => by cases hx⟩
  all_goals simp [commitmentMembers, member, Entries.get]

theorem event_toJs {e : EvidenceSubject} (h : e.Formed) : Checker.event (toJs e) = [] := by
  have hsoftware := unlessNull_nullable (f := toJs) Checker.software
    fun s hs => software_toJs (h.software s hs)
  have hcommitments := commitments_toJs h.input h.output h.state
  have hread : member e.members "type" = .str e.type ∧
      member e.members "application_id" = .str e.applicationId ∧
      member e.members "execution_id" = .str e.executionId ∧
      member e.members "metadata_hash" = .str e.metadataHash ∧
      member e.members "metadata_salt" = .str e.metadataSalt ∧
      member e.members "commitments" = .object (commitmentMembers "input" e.input ++
        commitmentMembers "output" e.output ++ commitmentMembers "state" e.state) ∧
      member e.members "software" = nullable toJs e.software := by
    simp [EvidenceSubject.members, member, Entries.get]
  obtain ⟨htype, happlication, hexecution, hhash, hsalt, hcom, hsw⟩ := hread
  change Checker.event (.object e.members) = []
  simp only [Checker.event, obj, htype, happlication, hexecution, hhash, hsalt, hcom, hsw,
    hcommitments, str_of_ne h.type, str_of_ne h.applicationId, str_of_ne h.executionId,
    multihash h.metadataHash, hexField h.metadataSalt, hsoftware, List.append_nil]

structure ChangeSubject.Formed (c : ChangeSubject) : Prop where
  ref : c.ref ≠ ""
  environment : c.environment ≠ ""
  before : SaltedCommitment.Formed c.before
  afterHash : isMultihash c.afterHash = true
  afterSalt : HEX_FIELD.test c.afterSalt = true
  diffHash : isMultihash c.diffHash = true
  actorId : c.actor.id ≠ ""
  actorMethod : c.actor.method ≠ ""

private theorem kind_mem (k : Governance.ChangeKind) : k.text ∈ CHANGE_KINDS := by
  cases k <;> decide

private theorem actor_toJs {a : Governance.ChangeActor} (hid : a.id ≠ "") (hmethod : a.method ≠ "") :
    (obj "record.change.actor" (toJs a) fun actor =>
      str "record.change.actor.id" (member actor "id") none ++
      str "record.change.actor.method" (member actor "method") none) = [] := by
  simp [obj, toJs, member, Entries.get, str_of_ne hid, str_of_ne hmethod]

theorem change_toJs {c : ChangeSubject} (h : c.Formed) : Checker.change (toJs c) = [] := by
  have hbefore : unlessNull (nullable JsValue.str (c.before.map Prod.fst))
      (str "record.change.before_hash" (nullable JsValue.str (c.before.map Prod.fst))
          (some MULTIHASH) ++
        str "record.change.before_salt" (nullable JsValue.str (c.before.map Prod.snd))
          (some HEX_FIELD)) = [] := by
    cases hb : c.before with
    | none => rfl
    | some p =>
      obtain ⟨hmultihash, hhex⟩ := h.before p hb
      simp [nullable, unlessNull, multihash hmultihash, hexField hhex]
  have hactor := actor_toJs h.actorId h.actorMethod
  change Checker.change (.object c.members) = []
  simp [Checker.change, obj, ChangeSubject.members, member, Entries.get] at hactor ⊢
  simp [oneOf_of_mem (kind_mem c.kind), str_of_ne h.ref, str_of_ne h.environment, hbefore,
    multihash h.afterHash, hexField h.afterSalt, multihash h.diffHash, hactor]

/-- What the schema asks of a core's subject. -/
def CoreSubject.Formed : CoreSubject → Prop
  | .evidence e => e.Formed
  | .change c => c.Formed

structure TypedCore.Formed (core : TypedCore) : Prop where
  recordId : ULID.test core.recordId = true
  issuedAt : core.time.issuedAt ≠ ""
  seq : (core.time.seq.isInteger && !core.time.seq.lt (.ofInt 0)) = true
  subject : core.subject.Formed
  runtime : core.runtime.Formed

/-- The members of a signed core. -/
def TypedCore.signed (core : TypedCore) (signature : SignatureBlock) : Members :=
  Entries.set core.members "signature" (toJs signature)

/-- What every core carries, whatever it is about. -/
private theorem member_signed (core : TypedCore) (signature : SignatureBlock) :
    member (core.signed signature) "record_id" = .str core.recordId ∧
      member (core.signed signature) "time" = toJs core.time ∧
      member (core.signed signature) "runtime" = toJs core.runtime ∧
      member (core.signed signature) "signature" = toJs signature := by
  unfold TypedCore.signed TypedCore.members
  cases core.subject <;> simp [Entries.set, member, Entries.get]

private theorem member_subject (core : TypedCore) (signature : SignatureBlock) :
    match core.subject with
    | .evidence e => member (core.signed signature) "schema" = .str "cool.evidence.v1" ∧
        member (core.signed signature) "event" = toJs e
    | .change c => member (core.signed signature) "schema" = .str "cool.change.v2" ∧
        member (core.signed signature) "change" = toJs c := by
  unfold TypedCore.signed TypedCore.members
  cases core.subject <;> simp [Entries.set, member, Entries.get]

private theorem time_toJs {t : RecordTime} (hissued : t.issuedAt ≠ "")
    (hseq : (t.seq.isInteger && !t.seq.lt (.ofInt 0)) = true) :
    (obj "record.time" (toJs t) fun time =>
      str "record.time.issued_at" (member time "issued_at") none ++
      int "record.time.seq" (member time "seq") 0) = [] := by
  have hint : int "record.time.seq" (.num t.seq) 0 = [] := if_pos hseq
  simp [obj, toJs, member, Entries.get, str_of_ne hissued, hint]

theorem record_toJs {core : TypedCore} {signature : SignatureBlock} (h : core.Formed)
    (hsignature : signature.Formed) : Checker.record (.object (core.signed signature)) = [] := by
  obtain ⟨hid, htime, hruntime, hsig⟩ := member_signed core signature
  have hsubject := member_subject core signature
  have hformed := h.subject
  have htimeOk := time_toJs h.issuedAt h.seq
  simp only [Checker.record, obj, hid, htime, hruntime, hsig] at htimeOk ⊢
  rw [str_of_test (p := ULID) (by decide) h.recordId, signature_toJs hsignature,
    runtime_toJs h.runtime, htimeOk]
  cases hs : core.subject with
  | evidence e =>
    rw [hs] at hsubject hformed
    rw [hsubject.1, hsubject.2, event_toJs hformed]
    rfl
  | change c =>
    rw [hs] at hsubject hformed
    rw [hsubject.1, hsubject.2, change_toJs hformed]
    rfl

/-- The human label of a core. -/
def TypedCore.label (core : TypedCore) : String :=
  match core.subject with
  | .evidence e => e.type ++ " (" ++ e.applicationId ++ ")"
  | .change c => c.kind.text ++ ": " ++ c.ref

/-- Whether a core is about a change. -/
def TypedCore.isChange (core : TypedCore) : Bool :=
  match core.subject with
  | .evidence _ => false
  | .change _ => true

private theorem erase_set {m : Members} {k : String} {v : JsValue} (h : k ∉ m.map Prod.fst) :
    Entries.erase (Entries.set m k v) k = m := by
  induction m with
  | nil => simp [Entries.set, Entries.erase]
  | cons e m ih =>
    obtain ⟨k', v'⟩ := e
    simp only [List.map_cons, List.mem_cons, not_or] at h
    have hne : k' ≠ k := fun he => h.1 he.symm
    simp only [Entries.set, if_neg hne, Entries.erase, ih h.2]

/-- Stripping the signature gives the core back. -/
theorem coreOfV2_signed (core : TypedCore) (signature : SignatureBlock) :
    coreOfV2 (core.signed signature) = core.members := by
  refine erase_set ?_
  unfold TypedCore.members
  cases core.subject <;> simp

private theorem readLabel_signed (core : TypedCore) (signature : SignatureBlock) :
    readLabel (.object (core.signed signature)) = .ok core.label := by
  have hsubject := member_subject core signature
  unfold TypedCore.label
  cases hs : core.subject with
  | evidence e =>
    rw [hs] at hsubject
    have hevent : (toJs e).read "type" = .ok (.str e.type) ∧
        (toJs e).read "application_id" = .ok (.str e.applicationId) := by
      simp [toJs, EvidenceSubject.members, JsValue.read, member, Entries.get]
    simp only [readLabel, read_object, ok_bind, hsubject.1, hsubject.2, hevent.1, hevent.2, text_str]
    rfl
  | change c =>
    rw [hs] at hsubject
    have hchange : (toJs c).read "kind" = .ok (.str c.kind.text) ∧
        (toJs c).read "ref" = .ok (.str c.ref) := by
      simp [toJs, ChangeSubject.members, JsValue.read, member, Entries.get]
    simp only [readLabel, read_object, ok_bind, hsubject.1, hsubject.2, hchange.1, hchange.2,
      text_str]
    rfl

/-- What the verifier reads of a signed core. -/
def TypedCore.fields (core : TypedCore) (signature : SignatureBlock) : RecordFields where
  core := core.members
  isChange := core.isChange
  label := core.label
  issuedAt := core.time.issuedAt
  recordId := core.recordId
  signature := signature
  teeVendor := core.runtime.teeVendor.text
  mode := core.runtime.mode.text
  enclaveMeasurement := core.runtime.enclaveMeasurement
  teeQuote := core.runtime.teeQuote

theorem readRecord_signed (core : TypedCore) (signature : SignatureBlock) :
    readRecord (.object (core.signed signature)) = .ok (core.fields signature) := by
  obtain ⟨hid, htime, hruntime, hsig⟩ := member_signed core signature
  have hissued : (toJs core.time).read "issued_at" = .ok (.str core.time.issuedAt) := by
    simp [toJs, JsValue.read, member, Entries.get]
  have hrt : (toJs core.runtime).read "tee_vendor" = .ok (.str core.runtime.teeVendor.text) ∧
      (toJs core.runtime).read "mode" = .ok (.str core.runtime.mode.text) ∧
      (toJs core.runtime).read "enclave_measurement" =
        .ok (nullable toJs core.runtime.enclaveMeasurement) ∧
      (toJs core.runtime).read "tee_quote" = .ok (nullable .str core.runtime.teeQuote) := by
    change (JsValue.object core.runtime.members).read _ = _ ∧
      (JsValue.object core.runtime.members).read _ = _ ∧
      (JsValue.object core.runtime.members).read _ = _ ∧
      (JsValue.object core.runtime.members).read _ = _
    simp [RuntimeBlockV2.members, read_object, member, Entries.get]
  have hchange : (member (core.signed signature) "schema").strictEquals (.str "cool.change.v2") =
      core.isChange := by
    have hsubject := member_subject core signature
    unfold TypedCore.isChange
    cases hs : core.subject with
    | evidence e =>
      rw [hs] at hsubject
      rw [hsubject.1]
      rfl
    | change c =>
      rw [hs] at hsubject
      rw [hsubject.1]
      rfl
  have hmembers : (JsValue.object (core.signed signature)).members =
      .ok (core.signed signature) := rfl
  simp only [readRecord, hmembers, read_object, ok_bind, readLabel_signed, hid, htime, hruntime,
    hsig, hissued, hrt.1, hrt.2.1, hrt.2.2.1, hrt.2.2.2, text_str, readSignature_toJs,
    orNull_nullable (f := toJs) (g := readMeasurement) (fun _ => rfl) readMeasurement_toJs,
    orNull_nullable (f := JsValue.str) (g := JsValue.text) (fun _ => rfl) text_str,
    coreOfV2_signed, hchange]
  rfl

/-! ## The log part -/

/-- What the schema asks of an inclusion proof. -/
structure Inclusion.Formed (i : Inclusion) : Prop where
  treeSize : 1 ≤ i.treeSize
  auditPath : ∀ h ∈ i.auditPath, isMultihash h = true

theorem inclusion_toJs {i : Inclusion} (h : i.Formed) : Checker.inclusion (toJs i) = [] := by
  have hpath : ((i.auditPath.map JsValue.str).zipIdx.flatMap fun h =>
      str ("inclusion.audit_path[" ++ toString h.2 ++ "]") h.1 (some MULTIHASH)) = [] := by
    rw [List.flatMap_eq_nil_iff]
    rintro ⟨v, n⟩ hv
    obtain ⟨hash, hmem, rfl⟩ := List.mem_map.mp (List.fst_mem_of_mem_zipIdx hv)
    exact multihash (h.auditPath hash hmem)
  change Checker.inclusion (.object i.members) = []
  simp [Checker.inclusion, obj, Inclusion.members, member, Entries.get, arr, int_of_le h.treeSize,
    int_of_le (Nat.zero_le i.leafIndex)] at hpath ⊢
  exact hpath

theorem readInclusion_toJs (i : Inclusion) : readInclusion (toJs i) = .ok i := by
  have hpath : (i.auditPath.map JsValue.str).mapM JsValue.text = .ok i.auditPath :=
    mapM_eq_ok (List.forall₂_map_left_iff.mpr (List.forall₂_same.mpr fun _ _ => rfl))
  have hmembers : member i.members "leaf_index" = .num (.ofInt i.leafIndex) ∧
      member i.members "tree_size" = .num (.ofInt i.treeSize) ∧
      member i.members "audit_path" = .array (i.auditPath.map .str) := by
    simp [Inclusion.members, member, Entries.get]
  change readInclusion (.object i.members) = .ok i
  simp only [readInclusion, read_object, hmembers.1, hmembers.2.1, hmembers.2.2, ok_bind,
    natural_ofInt, JsValue.items, hpath]
  rfl

structure STH.Formed (s : STH) : Prop where
  logId : s.logId ≠ ""
  treeSize : 1 ≤ s.treeSize
  rootHash : isMultihash s.rootHash = true
  timestamp : s.timestamp ≠ ""
  signature : s.signature.Formed

private theorem member_sth (s : STH) : member s.members "log_id" = .str s.logId ∧
    member s.members "tree_size" = .num (.ofInt s.treeSize) ∧
    member s.members "root_hash" = .str s.rootHash ∧
    member s.members "timestamp" = .str s.timestamp ∧
    member s.members "signature" = toJs s.signature ∧
    member s.members "witnesses" = .array (s.witnesses.map toJs) := by
  simp [STH.members, member, Entries.get]

theorem sth_toJs {s : STH} (h : s.Formed) : Checker.sth (toJs s) = [] := by
  obtain ⟨hlog, hsize, hroot, htime, hsig, hwitnesses⟩ := member_sth s
  change Checker.sth (.object s.members) = []
  simp only [Checker.sth, obj, arr, hlog, hsize, hroot, htime, hsig, hwitnesses,
    str_of_ne h.logId, int_of_le h.treeSize, multihash h.rootHash, str_of_ne h.timestamp,
    signature_toJs h.signature, List.append_nil]

theorem readHead_toJs (s : STH) : readHead (toJs s) =
    .ok { core := sthCore s, signature := s.signature, witnesses := s.witnesses.map toJs } := by
  obtain ⟨hlog, hsize, hroot, htime, hsig, hwitnesses⟩ := member_sth s
  change readHead (.object s.members) = _
  simp only [readHead, read_object, hlog, hsize, hroot, htime, hsig, hwitnesses, ok_bind,
    natural_ofInt, text_str, JsValue.items, readSignature_toJs]
  rfl

/-! ## The attestation -/

/-- What the schema asks of a quote. -/
structure QuoteEnvelope.Formed (q : QuoteEnvelope) : Prop where
  format : q.format ∈ ["dstack.tdx.v4", "dstack.sevsnp.v1", "nvidia.cc.v1", "cool.sim.v1"]
  root : q.root ∈ ["intel-dcap", "amd-kds", "nvidia-nras", "cool-sim-root", "none"]
  signature : ∀ s, q.signature = some s → s.Formed
  raw : ∀ r, q.raw = some r → B64_FIELD.test r = true
  measurement : q.body.measurement.Formed
  reportData : isMultihash q.body.reportData = true
  tcbStatus : q.body.tcbStatus ≠ ""
  appId : q.body.appId ≠ ""
  instanceId : q.body.instanceId ≠ ""
  issuedAt : q.body.issuedAt ≠ ""

/-- The object a quote's body is encoded from. -/
def QuoteBody.members (b : QuoteBody) : Members :=
  [("vendor", .str b.vendor.text), ("measurement", toJs b.measurement),
    ("report_data", .str b.reportData), ("tcb_status", .str b.tcbStatus),
    ("app_id", .str b.appId), ("instance_id", .str b.instanceId), ("issued_at", .str b.issuedAt)]

private theorem member_body (b : QuoteBody) : member b.members "vendor" = .str b.vendor.text ∧
    member b.members "measurement" = toJs b.measurement ∧
    member b.members "report_data" = .str b.reportData ∧
    member b.members "tcb_status" = .str b.tcbStatus ∧
    member b.members "app_id" = .str b.appId ∧
    member b.members "instance_id" = .str b.instanceId ∧
    member b.members "issued_at" = .str b.issuedAt := by
  simp [QuoteBody.members, member, Entries.get]

private theorem member_quote (q : QuoteEnvelope) : member q.members "format" = .str q.format ∧
    member q.members "root" = .str q.root ∧ member q.members "body" = toJs q.body ∧
    member q.members "signature" = nullable toJs q.signature ∧
    member q.members "raw" = nullable .str q.raw := by
  simp [QuoteEnvelope.members, member, Entries.get]

private theorem quoteBody_toJs {q : QuoteEnvelope} (h : q.Formed) :
    Checker.quoteBody (toJs q.body) = [] := by
  obtain ⟨hvendor, hmeasurement, hreport, htcb, happ, hinstance, hissued⟩ := member_body q.body
  change Checker.quoteBody (.object q.body.members) = []
  simp only [Checker.quoteBody, obj, hvendor, hmeasurement, hreport, htcb, happ, hinstance,
    hissued, oneOf_of_mem (TeeVendor.text_mem _), measurement_toJs h.measurement,
    multihash h.reportData, str_of_ne h.tcbStatus, str_of_ne h.appId, str_of_ne h.instanceId,
    str_of_ne h.issuedAt, List.append_nil]

theorem quote_toJs {q : QuoteEnvelope} (h : q.Formed) : Checker.quote (toJs q) = [] := by
  obtain ⟨hformat, hroot, hbody, hsig, hraw⟩ := member_quote q
  have hsignature := unlessNull_nullable (f := toJs)
    (Checker.signature "attestation.quote.signature")
    fun s hs => signature_toJs (h.signature s hs)
  have hrawOk := unlessNull_nullable (f := JsValue.str)
    (fun v => str "attestation.quote.raw" v (some B64_FIELD))
    fun r hr => base64Field (h.raw r hr)
  change Checker.quote (.object q.members) = []
  simp only [Checker.quote, obj, hformat, hroot, hbody, hsig, hraw, oneOf_of_mem h.format,
    oneOf_of_mem h.root, hsignature, hrawOk, quoteBody_toJs h, List.append_nil]

/-- The registers of a measurement in the order they are written. -/
def Measurement.registers (m : Measurement) : Members :=
  [("mrtd", .str m.mrtd), ("rtmr0", .str m.rtmr0), ("rtmr1", .str m.rtmr1),
    ("rtmr2", .str m.rtmr2), ("rtmr3", .str m.rtmr3)]

/-- What the verifier reads of a quote. -/
def QuoteEnvelope.fields (q : QuoteEnvelope) : QuoteFields where
  value := toJs q
  root := q.root
  body := toJs q.body
  registers := q.body.measurement.registers
  measurement := q.body.measurement
  reportData := q.body.reportData
  signature := q.signature
  raw := q.raw

theorem readQuote_toJs (q : QuoteEnvelope) : readQuote (toJs q) = .ok q.fields := by
  obtain ⟨_, hroot, hbody, hsig, hraw⟩ := member_quote q
  obtain ⟨_, hmeasurement, hreport, _⟩ := member_body q.body
  have hread : (toJs q.body).read "measurement" = .ok (toJs q.body.measurement) ∧
      (toJs q.body).read "report_data" = .ok (.str q.body.reportData) :=
    ⟨congrArg Except.ok hmeasurement, congrArg Except.ok hreport⟩
  have hregisters : (toJs q.body.measurement).members = .ok q.body.measurement.registers := rfl
  have hmeasure : readMeasurement (.object q.body.measurement.registers) =
      .ok q.body.measurement := readMeasurement_toJs q.body.measurement
  change readQuote (.object q.members) = _
  simp only [readQuote, read_object, hroot, hbody, hsig, hraw, ok_bind, text_str, hread.1,
    hread.2, hregisters, hmeasure,
    orNull_nullable (f := toJs) (g := readSignature) (fun _ => rfl) readSignature_toJs,
    orNull_nullable (f := JsValue.str) (g := JsValue.text) (fun _ => rfl) text_str]
  rfl

structure AttestationV2.Formed (a : AttestationV2) : Prop where
  note : a.note ≠ ""
  quote : ∀ q, a.quote = some q → q.Formed
  expectedMeasurement : ∀ m, a.expectedMeasurement = some m → m.Formed
  keyBinding : ∀ b, a.keyBinding = some b → isMultihash b = true

private theorem member_attestation (a : AttestationV2) :
    member a.members "mode" = .str a.mode.text ∧ member a.members "note" = .str a.note ∧
      member a.members "quote" = nullable toJs a.quote ∧
      member a.members "expected_measurement" = nullable toJs a.expectedMeasurement ∧
      member a.members "key_binding" = nullable .str a.keyBinding := by
  simp [AttestationV2.members, member, Entries.get]

theorem attestation_toJs {a : AttestationV2} (h : a.Formed) :
    Checker.attestation (toJs a) = [] := by
  obtain ⟨hmode, hnote, hquote, hexpected, hbinding⟩ := member_attestation a
  have hbindingOk := unlessNull_nullable (f := JsValue.str)
    (fun v => str "attestation.key_binding" v (some MULTIHASH))
    fun b hb => multihash (h.keyBinding b hb)
  have hexpectedOk := unlessNull_nullable (f := toJs)
    (Checker.measurement "attestation.expected_measurement")
    fun m hm => measurement_toJs (h.expectedMeasurement m hm)
  have hquoteOk := unlessNull_nullable (f := toJs) Checker.quote
    fun q hq => quote_toJs (h.quote q hq)
  change Checker.attestation (.object a.members) = []
  simp only [Checker.attestation, obj, hmode, hnote, hquote, hexpected, hbinding,
    oneOf_of_mem (RuntimeMode.text_mem _), str_of_ne h.note, hbindingOk, hexpectedOk, hquoteOk,
    List.append_nil]

/-! ## The key directory -/

/-- What the schema asks of a key directory. -/
def DirectoryFormed (directory : List (String × DirectoryEntry)) : Prop :=
  directory ≠ [] ∧ ∀ e ∈ directory, B64_FIELD.test e.2.mlDsaPub = true ∧
    B64_FIELD.test e.2.ed25519Pub = true

theorem keyDirectory_members {directory : List (String × DirectoryEntry)}
    (h : DirectoryFormed directory) :
    Checker.keyDirectory (.object (directoryMembers directory)) = [] := by
  obtain ⟨hne, hentries⟩ := h
  have hempty : (directoryMembers directory).isEmpty = false := by
    rw [directoryMembers, List.isEmpty_map]
    exact List.isEmpty_eq_false_iff.mpr hne
  simp only [Checker.keyDirectory, obj, hempty, Bool.false_eq_true, if_false, List.nil_append]
  rw [List.flatMap_eq_nil_iff]
  intro e he
  obtain ⟨d, hd, rfl⟩ := List.mem_map.mp he
  obtain ⟨hmlDsa, hed25519⟩ := hentries d hd
  simp [toJs, member, Entries.get, base64Field hmlDsa, base64Field hed25519]

theorem readEntry_toJs (e : DirectoryEntry) : readEntry (toJs e) = .ok e := by
  simp [readEntry, toJs, JsValue.read, member, Entries.get, JsValue.text, bind, Except.bind, pure,
    Except.pure]

theorem readDirectory_members (directory : List (String × DirectoryEntry)) :
    readDirectory (.object (directoryMembers directory)) = .ok directory := by
  have hmembers : (JsValue.object (directoryMembers directory)).members =
      .ok (directoryMembers directory) := rfl
  simp only [readDirectory, hmembers, ok_bind]
  refine mapM_eq_ok (List.forall₂_map_left_iff.mpr (List.forall₂_same.mpr fun e _ => ?_))
  simp only [readEntry_toJs, ok_bind]
  rfl

/-! ## The receipt -/

/-- What the verifier reads of an issued receipt. -/
def EvidencePlane.fields (plane : EvidencePlane) (core : TypedCore) (r : ReceiptV2) :
    ReceiptFields where
  record := core.fields r.record.signature
  bindingHash := r.bindingHash
  inclusion := some r.inclusion
  sth := some { core := sthCore r.sth, signature := r.sth.signature,
                witnesses := r.sth.witnesses.map toJs }
  expectedMeasurement := plane.attestation.expectedMeasurement
  quote := plane.attestation.quote.map QuoteEnvelope.fields
  anchor := none
  directory := plane.directory

private theorem member_receipt {ms : Members} {record binding inclusion sth attestation directory :
    JsValue} (h : ms = [("schema", .str "cool.receipt.v2"), ("record", record),
      ("binding_hash", binding), ("inclusion", inclusion), ("sth", sth),
      ("attestation", attestation), ("anchor", .null), ("key_directory", directory)]) :
    member ms "schema" = .str "cool.receipt.v2" ∧ member ms "record" = record ∧
      member ms "binding_hash" = binding ∧ member ms "inclusion" = inclusion ∧
      member ms "sth" = sth ∧ member ms "attestation" = attestation ∧
      member ms "anchor" = .null ∧ member ms "key_directory" = directory := by
  subst h
  simp [member, Entries.get]

section

variable {plane : EvidencePlane} {core : TypedCore} {r : ReceiptV2}

/-- An issued receipt has no structural errors. -/
theorem EvidencePlane.receipt_valid (hcore : r.record.core = core.members) (hform : core.Formed)
    (hsignature : r.record.signature.Formed) (hbinding : isMultihash r.bindingHash = true)
    (hinclusion : r.inclusion.Formed) (hsth : r.sth.Formed)
    (hattestation : plane.attestation.Formed) (hdirectory : DirectoryFormed plane.directory) :
    validateReceiptV2Shape (plane.receipt r) = [] := by
  unfold EvidencePlane.receipt
  rw [hcore]
  generalize hms : [("schema", JsValue.str "cool.receipt.v2"), _, _, _, _, _, _, _] = ms
  obtain ⟨hschema, hrecord, hhash, hinc, hhead, hatt, hanchor, hdir⟩ := member_receipt hms.symm
  have hboth : ((toJs r.inclusion).strictEquals .null != (toJs r.sth).strictEquals .null) =
      false := rfl
  have hpresent : ∀ check, unlessNull (toJs r.inclusion) check = check ∧
      unlessNull (toJs r.sth) check = check := fun _ => ⟨rfl, rfl⟩
  have hrecordOk : Checker.record (.object (Entries.set core.members "signature"
      (toJs r.record.signature))) = [] := record_toJs hform hsignature
  have hexact : exactly (.str "cool.receipt.v2") "cool.receipt.v2"
      "(root).schema: expected 'cool.receipt.v2'" = [] := rfl
  have hanchorOk : Checker.anchor .null = [] := rfl
  simp only [validateReceiptV2Shape, obj, hschema, hrecord, hhash, hinc, hhead, hatt, hanchor,
    hdir, hboth, hpresent, hrecordOk, hexact, hanchorOk, multihash hbinding,
    inclusion_toJs hinclusion, sth_toJs hsth, attestation_toJs hattestation,
    keyDirectory_members hdirectory, Bool.false_eq_true, if_false, List.append_nil]

/-- The verifier reads what was issued. -/
theorem EvidencePlane.readReceipt_receipt (hcore : r.record.core = core.members) :
    readReceipt (plane.receipt r) = .ok (plane.fields core r) := by
  unfold EvidencePlane.receipt
  rw [hcore]
  generalize hms : [("schema", JsValue.str "cool.receipt.v2"), _, _, _, _, _, _, _] = ms
  obtain ⟨_, hrecord, hhash, hinc, hhead, hatt, hanchor, hdir⟩ := member_receipt hms.symm
  obtain ⟨_, _, hquote, hexpected, _⟩ := member_attestation plane.attestation
  have hread : (toJs plane.attestation).read "quote" = .ok (nullable toJs plane.attestation.quote) ∧
      (toJs plane.attestation).read "expected_measurement" =
        .ok (nullable toJs plane.attestation.expectedMeasurement) :=
    ⟨congrArg Except.ok hquote, congrArg Except.ok hexpected⟩
  have hrecordRead : readRecord (.object (Entries.set core.members "signature"
      (toJs r.record.signature))) = .ok (core.fields r.record.signature) :=
    readRecord_signed core r.record.signature
  have hincRead : JsValue.orNull readInclusion (toJs r.inclusion) = .ok (some r.inclusion) :=
    congrArg (Except.map some) (readInclusion_toJs r.inclusion)
  have hheadRead : JsValue.orNull readHead (toJs r.sth) = .ok (some
      { core := sthCore r.sth, signature := r.sth.signature,
        witnesses := r.sth.witnesses.map toJs }) :=
    congrArg (Except.map some) (readHead_toJs r.sth)
  have hquoteRead : JsValue.orNull readQuote (nullable toJs plane.attestation.quote) =
      .ok (plane.attestation.quote.map QuoteEnvelope.fields) := by
    cases plane.attestation.quote with
    | none => rfl
    | some q => exact congrArg (Except.map some) (readQuote_toJs q)
  have hanchorRead : JsValue.orNull readAnchor .null = .ok none := rfl
  simp only [readReceipt, read_object, hrecord, hhash, hinc, hhead, hatt, hanchor, hdir, ok_bind,
    hread.1, hread.2, hrecordRead, text_str, hincRead, hheadRead, hquoteRead, hanchorRead,
    orNull_nullable (f := toJs) (g := readMeasurement) (fun _ => rfl) readMeasurement_toJs,
    readDirectory_members]
  rfl

end

end CoolSdk
