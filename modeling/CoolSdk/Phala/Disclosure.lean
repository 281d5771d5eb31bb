import CoolSdk.Phala.Issued
import CoolSdk.Phala.ReferencePlane
import Mathlib.Data.List.GetD

/-!
# Selective disclosure

One committed field of a receipt is opened by its text and its salt. A disclosure that is
confirmed is of the bytes that were committed, unless the digest collides. Whatever is listed can
be opened if those bytes spell a text; the encoded metadata of an event does not, although it is
always listed.
-/

namespace CoolSdk

open JsValue (member)

/-- Which committed field is being opened. -/
inductive DisclosableField
  | input
  | output
  | state
  | metadata
  | changeBefore
  | changeAfter
  deriving DecidableEq, Repr

def DisclosableField.text : DisclosableField → String
  | input => "input"
  | output => "output"
  | state => "state"
  | metadata => "metadata"
  | changeBefore => "change.before"
  | changeAfter => "change.after"

/-- A disclosure: the plaintext, its salt, and what it claims to open. -/
structure Disclosure where
  recordId : String
  bindingHash : Multihash
  field : DisclosableField
  value : String
  salt : String
  /-- The commitment as it appears in the receipt, copied for convenience. -/
  commitment : Multihash
  deriving DecidableEq, Repr

/-- The result of checking one. -/
structure DisclosureVerdict where
  ok : Bool
  field : DisclosableField
  detail : String
  deriving DecidableEq, Repr

/-- A commitment and its salt, where both members are there. -/
def committedMember (v : JsValue) (commitment salt : String) : Except String SaltedCommitment := do
  let hash ← v.read commitment >>= JsValue.orNull JsValue.text
  match nonEmpty hash with
  | none => return none
  | some hash =>
    let salt ← v.read salt >>= JsValue.orNull JsValue.text
    return (nonEmpty salt).map fun salt => (hash, salt)

/-- The commitment and the salt of a field, if the record has it. -/
def fieldOf (receipt : JsValue) (field : DisclosableField) : Except String SaltedCommitment := do
  let record ← receipt.read "record"
  let schema ← record.read "schema"
  if schema.strictEquals (.str "cool.evidence.v1") then
    let event ← record.read "event"
    let c ← event.read "commitments"
    match field with
    | .input | .output | .state => committedMember c field.text (field.text ++ "_salt")
    | .metadata =>
      let commitment ← event.read "metadata_hash" >>= JsValue.text
      let salt ← event.read "metadata_salt" >>= JsValue.text
      return some (commitment, salt)
    | .changeBefore | .changeAfter => return none
  else
    match field with
    | .changeAfter =>
      let change ← record.read "change"
      let commitment ← change.read "after_hash" >>= JsValue.text
      let salt ← change.read "after_salt" >>= JsValue.text
      return some (commitment, salt)
    | .changeBefore =>
      let change ← record.read "change"
      committedMember change "before_hash" "before_salt"
    | .input | .output | .state | .metadata => return none

/-- Which fields a receipt could open. -/
def disclosableFields (receipt : JsValue) : Except String (List DisclosableField) := do
  let record ← receipt.read "record"
  let schema ← record.read "schema"
  if schema.strictEquals (.str "cool.evidence.v1") then
    let event ← record.read "event"
    let c ← event.read "commitments"
    let input ← c.read "input"
    let output ← c.read "output"
    let state ← c.read "state"
    return [.metadata] ++ (if input.truthy then [.input] else []) ++
      (if output.truthy then [.output] else []) ++ if state.truthy then [.state] else []
  else
    let change ← record.read "change"
    let before ← change.read "before_hash"
    return if before.truthy then [.changeBefore, .changeAfter] else [.changeAfter]

section

variable (H : Host)

/-- Build a disclosure for one field. -/
def disclose (receipt : JsValue) (field : DisclosableField) (value : String) :
    Except String Disclosure := do
  match ← fieldOf receipt field with
  | none => .error ("this record has no '" ++ field.text ++ "' field to disclose")
  | some (commitment, salt) =>
    let recomputed ← saltedCommit H salt (utf8 value)
    if recomputed ≠ commitment then
      .error ("the value supplied does not match the sealed commitment for '" ++ field.text ++
        "' — either it is not the original text, or this is the wrong record")
    else
      let record ← receipt.read "record"
      let recordId ← record.read "record_id" >>= JsValue.text
      let bindingHash ← receipt.read "binding_hash" >>= JsValue.text
      return { recordId, bindingHash, field, value, salt, commitment }

/-- Check a disclosure against the receipt it claims to open. -/
def verifyDisclosure (receipt : JsValue) (disclosure : Disclosure) :
    Except String DisclosureVerdict := do
  let record ← receipt.read "record"
  let recordId ← record.read "record_id" >>= JsValue.text
  let bindingHash ← receipt.read "binding_hash" >>= JsValue.text
  let refused (detail : String) : Except String DisclosureVerdict :=
    .ok { ok := false, field := disclosure.field, detail }
  if disclosure.recordId ≠ recordId then
    refused ("disclosure is for record " ++ disclosure.recordId ++ ", not " ++ recordId)
  else if disclosure.bindingHash ≠ bindingHash then
    refused ("disclosure names a different binding hash — " ++
      "it belongs to another version of this record")
  else
    match ← fieldOf receipt disclosure.field with
    | none => refused ("record has no '" ++ disclosure.field.text ++ "'")
    | some (commitment, salt) =>
      if salt ≠ disclosure.salt then refused "salt does not match the receipt"
      else
        let recomputed ← saltedCommit H disclosure.salt (utf8 disclosure.value)
        if recomputed ≠ commitment then
          refused ("FAILED — mh(salt ‖ value) = " ++ recomputed ++ " ≠ " ++ commitment)
        else
          .ok { ok := true, field := disclosure.field,
                detail := "the disclosed text is exactly what was committed as " ++
                  disclosure.field.text }

/-- What an event commits to in a field. -/
def CaptureEvent.committed : CaptureEvent → DisclosableField → Option Bytes
  | .evidence event, .input => event.input.map Payload.data
  | .evidence event, .output => event.output.map Payload.data
  | .evidence event, .state => event.state.map Payload.data
  | .evidence event, .metadata =>
    (H.canonicalCbor (if event.metadata.nullish then .object [] else event.metadata)).toOption
  | .change event, .changeBefore => event.before.map utf8
  | .change event, .changeAfter => some (utf8 event.after)
  | _, _ => none

/-- Two different byte strings have one digest behind a salt. -/
def Collides (salt : String) (a b : Bytes) : Prop :=
  a ≠ b ∧ ∃ saltBytes, fromHexField salt = .ok saltBytes ∧
    H.sha256 (saltBytes ++ a) = H.sha256 (saltBytes ++ b)

/-- A text opens a field: `disclose` takes it, and `verifyDisclosure` confirms the result. -/
def Opens (receipt : JsValue) (field : DisclosableField) (value : String) : Prop :=
  ∃ d v, disclose H receipt field value = .ok d ∧ verifyDisclosure H receipt d = .ok v ∧
    v.ok = true

end

variable {H : Host}

/-! ## Commitments -/

/-- A commitment has a salt, and is a text that is not empty. -/
theorem ne_of_saltedCommit {salt : String} {data : Bytes} {hash : Multihash}
    (h : saltedCommit H salt data = .ok hash) : salt ≠ "" ∧ hash ≠ "" := by
  obtain ⟨saltBytes, hsalt, h⟩ := bind_eq_ok.mp h
  cases h
  constructor
  · rintro rfl
    cases hsalt
  · intro hempty
    have hlist := congrArg String.toList hempty
    rw [mhSha256, String.toList_append] at hlist
    exact absurd (List.append_eq_nil_iff.mp hlist).1 (by decide)

/-- Two byte strings with one commitment are equal, or collide. -/
theorem eq_or_collides {salt : String} {a b : Bytes} {hash : Multihash}
    (ha : saltedCommit H salt a = .ok hash) (hb : saltedCommit H salt b = .ok hash) :
    a = b ∨ Collides H salt a b := by
  obtain ⟨saltBytes, hsalt, ha⟩ := bind_eq_ok.mp ha
  obtain ⟨saltBytes', hsalt', hb⟩ := bind_eq_ok.mp hb
  cases hsalt.symm.trans hsalt'
  by_cases hab : a = b
  · exact .inl hab
  · exact .inr ⟨hab, saltBytes, hsalt,
      (mhSha256_eq_iff H _ _).mp (Except.ok.inj (ha.trans hb.symm))⟩

theorem Collides.saltedCommit_eq {salt : String} {a b : Bytes} (h : Collides H salt a b) :
    saltedCommit H salt a = saltedCommit H salt b := by
  obtain ⟨_, saltBytes, hsalt, hsame⟩ := h
  rw [saltedCommit, saltedCommit, hsalt]
  exact congrArg Except.ok ((mhSha256_eq_iff H _ _).mpr hsame)

/-! ## Any receipt -/

/-- A confirmed disclosure names the record and its version, and its text has the commitment of
the field under the field's salt. -/
theorem verifyDisclosure_ok {receipt : JsValue} {d : Disclosure} {v : DisclosureVerdict}
    (h : verifyDisclosure H receipt d = .ok v) (hok : v.ok = true) :
    (∃ record, receipt.read "record" = .ok record ∧
        record.read "record_id" >>= JsValue.text = .ok d.recordId) ∧
      receipt.read "binding_hash" >>= JsValue.text = .ok d.bindingHash ∧
      ∃ commitment, fieldOf receipt d.field = .ok (some (commitment, d.salt)) ∧
        saltedCommit H d.salt (utf8 d.value) = .ok commitment := by
  obtain ⟨record, hrecord, h⟩ := bind_eq_ok.mp h
  obtain ⟨recordId, hid, h⟩ := bind_eq_ok.mp h
  obtain ⟨bindingHash, hbinding, h⟩ := bind_eq_ok.mp h
  dsimp only at h
  split_ifs at h with hrecordId hhash
  · cases h
    cases hok
  · cases h
    cases hok
  · obtain ⟨found, hfound, h⟩ := bind_eq_ok.mp h
    rw [not_not] at hrecordId hhash
    refine ⟨⟨record, hrecord, hrecordId ▸ hid⟩, hhash ▸ hbinding, ?_⟩
    match found with
    | none =>
      cases h
      cases hok
    | some (commitment, salt) =>
      dsimp only at h
      split_ifs at h with hsalt
      · cases h
        cases hok
      · obtain ⟨recomputed, hrecomputed, h⟩ := bind_eq_ok.mp h
        split_ifs at h with hmatch
        · cases h
          cases hok
        · rw [not_not] at hsalt hmatch
          subst hsalt hmatch
          exact ⟨recomputed, hfound, hrecomputed⟩

/-- Where the identifiers of a receipt can be read, the texts that open a field are those with its
commitment. -/
theorem opens_iff {receipt record : JsValue} {recordId bindingHash : String}
    (hrecord : receipt.read "record" = .ok record)
    (hid : record.read "record_id" >>= JsValue.text = .ok recordId)
    (hbinding : receipt.read "binding_hash" >>= JsValue.text = .ok bindingHash)
    (field : DisclosableField) (value : String) :
    Opens H receipt field value ↔
      ∃ commitment salt, fieldOf receipt field = .ok (some (commitment, salt)) ∧
        saltedCommit H salt (utf8 value) = .ok commitment := by
  constructor
  · rintro ⟨d, v, hdisclose, hverify, hok⟩
    obtain ⟨found, hfound, h⟩ := bind_eq_ok.mp hdisclose
    match found with
    | none => cases h
    | some (commitment, salt) =>
      obtain ⟨recomputed, hrecomputed, h⟩ := bind_eq_ok.mp h
      split_ifs at h with hmatch
      rw [not_not] at hmatch
      exact ⟨commitment, salt, hfound, hmatch ▸ hrecomputed⟩
  · rintro ⟨commitment, salt, hfound, hcommit⟩
    refine ⟨{ recordId, bindingHash, field, value, salt, commitment },
      { ok := true, field
        detail := "the disclosed text is exactly what was committed as " ++ field.text }, ?_, ?_,
      rfl⟩
    · rw [disclose, hfound, ok_bind]
      dsimp only
      rw [hcommit, ok_bind, if_neg (not_not.mpr rfl), hrecord, ok_bind, hid, ok_bind, hbinding,
        ok_bind]
      rfl
    · rw [verifyDisclosure, hrecord, ok_bind, hid, ok_bind, hbinding, ok_bind]
      dsimp only
      rw [if_neg (not_not.mpr rfl), if_neg (not_not.mpr rfl), hfound, ok_bind]
      dsimp only
      rw [if_neg (not_not.mpr rfl), hcommit, ok_bind, if_neg (not_not.mpr rfl)]

/-! ## Sealed receipts -/

/-- What a core says of a field. -/
def TypedCore.commitment (core : TypedCore) : DisclosableField → SaltedCommitment
  | .input => match core.subject with | .evidence event => event.input | .change _ => none
  | .output => match core.subject with | .evidence event => event.output | .change _ => none
  | .state => match core.subject with | .evidence event => event.state | .change _ => none
  | .metadata =>
    match core.subject with
    | .evidence event => some (event.metadataHash, event.metadataSalt)
    | .change _ => none
  | .changeBefore => match core.subject with | .evidence _ => none | .change change => change.before
  | .changeAfter =>
    match core.subject with
    | .evidence _ => none
    | .change change => some (change.afterHash, change.afterSalt)

/-- What a core says of a field is a commitment to what its event has there, under a salt that was
drawn. -/
def TypedCore.CommitsTo (H : Host) (core : TypedCore) (event : CaptureEvent) (draws : Draws) :
    Prop :=
  ∀ field, match event.committed H field with
    | none => core.commitment field = none
    | some data => ∃ hash n, core.commitment field = some (hash, draws.salt n) ∧
        saltedCommit H (draws.salt n) data = .ok hash

private theorem commitPayload_ok {salt : Nat → String} {drawn drawn' : Nat}
    {payload : Option Payload} {c : SaltedCommitment}
    (h : commitPayload H salt drawn payload = .ok (c, drawn')) :
    match payload.map Payload.data with
    | none => c = none
    | some data => ∃ hash n, c = some (hash, salt n) ∧
        saltedCommit H (salt n) data = .ok hash := by
  cases payload with
  | none =>
    cases h
    rfl
  | some payload =>
    obtain ⟨hash, hhash, h⟩ := bind_eq_ok.mp h
    cases h
    exact ⟨hash, drawn, rfl, hhash⟩

/-- The core of an event commits to it. -/
theorem EvidencePlane.coreOf_commitsTo {plane : EvidencePlane} {event : CaptureEvent}
    {draws : Draws} {core : TypedCore} (h : plane.coreOf H event draws = .ok core) :
    core.CommitsTo H event draws := by
  cases event with
  | evidence event =>
    simp only [coreOf, evidenceCore, bind_eq_ok, Prod.exists] at h
    obtain ⟨input, _, hinput, output, _, houtput, state, _, hstate, metadata, hmetadata,
      metadataHash, hmetadataHash, recordId, _, h⟩ := h
    cases h
    intro field
    cases field with
    | input => exact commitPayload_ok hinput
    | output => exact commitPayload_ok houtput
    | state => exact commitPayload_ok hstate
    | metadata =>
      rw [CaptureEvent.committed, hmetadata]
      exact ⟨metadataHash, 0, rfl, hmetadataHash⟩
    | changeBefore => rfl
    | changeAfter => rfl
  | change event =>
    obtain ⟨recordId, _, h⟩ := bind_eq_ok.mp h
    obtain ⟨before, hbefore, h⟩ := bind_eq_ok.mp h
    obtain ⟨afterHash, hafter, h⟩ := bind_eq_ok.mp h
    obtain ⟨approval, _, h⟩ := bind_eq_ok.mp h
    cases h
    intro field
    cases field with
    | changeBefore =>
      cases hevent : event.before with
      | none =>
        rw [hevent] at hbefore
        cases hbefore
        rw [CaptureEvent.committed, hevent]
        rfl
      | some text =>
        rw [hevent] at hbefore
        obtain ⟨hash, hhash, hbefore⟩ := bind_eq_ok.mp hbefore
        cases hbefore
        rw [CaptureEvent.committed, hevent]
        exact ⟨hash, 0, rfl, hhash⟩
    | changeAfter => exact ⟨afterHash, 1, rfl, hafter⟩
    | _ => rfl

/-- A core has the id that was drawn for it. -/
theorem EvidencePlane.recordId_coreOf {plane : EvidencePlane} {event : CaptureEvent}
    {draws : Draws} {core : TypedCore} (h : plane.coreOf H event draws = .ok core) :
    draws.recordId = .ok core.recordId := by
  cases event with
  | evidence event =>
    simp only [coreOf, evidenceCore, bind_eq_ok, Prod.exists] at h
    obtain ⟨_, _, _, _, _, _, _, _, _, _, _, _, _, recordId, hid, h⟩ := h
    cases h
    exact hid
  | change event =>
    obtain ⟨recordId, hid, h⟩ := bind_eq_ok.mp h
    obtain ⟨_, _, h⟩ := bind_eq_ok.mp h
    obtain ⟨_, _, h⟩ := bind_eq_ok.mp h
    obtain ⟨_, _, h⟩ := bind_eq_ok.mp h
    cases h
    exact hid

/-- A sealed record has the core that was signed. -/
theorem EvidencePlane.seal_core {σ ι : Type} {L : EvidenceLog σ ι} {recordKey : KeyPair}
    {core : RecordCoreV2} {clock : String} {leafIo headIo : ι} {s s' : σ} {receipt : ReceiptV2}
    (h : EvidencePlane.seal H L recordKey core clock leafIo headIo s = (.ok receipt, s')) :
    receipt.record.core = core := by
  rw [EvidencePlane.seal] at h
  split at h
  · cases h
  · rename_i record binding leafData hsign
    obtain ⟨_, _, hsign⟩ := bind_eq_ok.mp hsign
    obtain ⟨_, _, hsign⟩ := bind_eq_ok.mp hsign
    obtain ⟨_, _, hsign⟩ := bind_eq_ok.mp hsign
    cases hsign
    split at h
    · cases h
    · split at h
      · cases h
      · split at h
        · cases h
        · cases h
          rfl

/-- The members of a commitment are read back. -/
private theorem committedMember_eq {ms : JsValue.Members} {c : SaltedCommitment}
    {commitment salt : String} (hhash : member ms commitment = nullable .str (c.map Prod.fst))
    (hsalt : member ms salt = nullable .str (c.map Prod.snd))
    (hne : ∀ p, c = some p → p.1 ≠ "" ∧ p.2 ≠ "") :
    committedMember (.object ms) commitment salt = .ok c := by
  rw [committedMember, read_object, read_object, ok_bind, ok_bind, hhash, hsalt,
    orNull_nullable (fun _ => rfl) text_str, orNull_nullable (fun _ => rfl) text_str, ok_bind]
  cases c with
  | none => rfl
  | some p =>
    obtain ⟨hash, salt⟩ := p
    obtain ⟨hhash, hsalt⟩ := hne _ rfl
    have hhash' : nonEmpty (some hash) = some hash := if_pos (decide_eq_true hhash)
    have hsalt' : nonEmpty (some salt) = some salt := if_pos (decide_eq_true hsalt)
    dsimp only [Option.map_some]
    rw [hhash']
    dsimp only
    rw [ok_bind, hsalt']
    rfl

section

variable {core : TypedCore} {event : CaptureEvent} {draws : Draws} {plane : EvidencePlane}
  {r : ReceiptV2}

theorem TypedCore.CommitsTo.ne (h : core.CommitsTo H event draws) (field : DisclosableField) :
    ∀ p, core.commitment field = some p → p.1 ≠ "" ∧ p.2 ≠ "" := by
  intro p hp
  have hfield := h field
  cases hdata : event.committed H field with
  | none =>
    rw [hdata] at hfield
    cases hfield.symm.trans hp
  | some data =>
    rw [hdata] at hfield
    obtain ⟨hash, n, hcommitment, hcommit⟩ := hfield
    cases hcommitment.symm.trans hp
    exact (ne_of_saltedCommit hcommit).symm

/-- The fields of a receipt are those of its core. -/
theorem fieldOf_receipt (plane : EvidencePlane) (hr : r.record.core = core.members)
    (h : core.CommitsTo H event draws)
    (field : DisclosableField) :
    fieldOf (plane.receipt r) field = .ok (core.commitment field) := by
  have hne := h.ne field
  obtain ⟨recordId, time, subject, runtime⟩ := core
  rw [EvidencePlane.receipt, hr]
  cases subject with
  | evidence e =>
    cases field with
    | metadata | changeBefore | changeAfter => rfl
    | input => exact committedMember_eq rfl rfl hne
    | output => exact committedMember_eq rfl rfl hne
    | state => exact committedMember_eq rfl rfl hne
  | change c =>
    cases field with
    | changeBefore => exact committedMember_eq rfl rfl hne
    | _ => rfl

private theorem truthy_nullable {c : SaltedCommitment}
    (hne : ∀ p, c = some p → p.1 ≠ "" ∧ p.2 ≠ "") :
    (nullable JsValue.str (c.map Prod.fst)).truthy = c.isSome := by
  cases c with
  | none => rfl
  | some p => exact decide_eq_true (hne p rfl).1

/-- The fields that are listed for a receipt are those its core commits to. -/
theorem mem_disclosableFields (plane : EvidencePlane) (hr : r.record.core = core.members)
    (h : core.CommitsTo H event draws) :
    ∃ fields, disclosableFields (plane.receipt r) = .ok fields ∧
      ∀ field, field ∈ fields ↔ (core.commitment field).isSome = true := by
  have hne := h.ne
  obtain ⟨recordId, time, subject, runtime⟩ := core
  rw [EvidencePlane.receipt, hr]
  cases subject with
  | evidence e =>
    have hinput := truthy_nullable (hne .input)
    have houtput := truthy_nullable (hne .output)
    have hstate := truthy_nullable (hne .state)
    refine ⟨_, rfl, fun field => ?_⟩
    change field ∈ [.metadata] ++ (if (nullable JsValue.str (e.input.map Prod.fst)).truthy
      then [.input] else []) ++ (if (nullable JsValue.str (e.output.map Prod.fst)).truthy
      then [.output] else []) ++ (if (nullable JsValue.str (e.state.map Prod.fst)).truthy
      then [.state] else []) ↔ _
    simp only [TypedCore.commitment] at hinput houtput hstate
    rw [hinput, houtput, hstate]
    generalize hi : e.input.isSome = input
    generalize ho : e.output.isSome = output
    generalize hs : e.state.isSome = state
    cases field <;> simp only [TypedCore.commitment, Option.isSome_none, Option.isSome_some, hi, ho,
      hs] <;> clear * - <;> revert input output state <;> decide
  | change c =>
    have hbefore := truthy_nullable (hne .changeBefore)
    refine ⟨_, rfl, fun field => ?_⟩
    change field ∈ (if (nullable JsValue.str (c.before.map Prod.fst)).truthy
      then [.changeBefore, .changeAfter] else [.changeAfter]) ↔ _
    simp only [TypedCore.commitment] at hbefore
    rw [hbefore]
    generalize hb : c.before.isSome = before
    cases field <;> simp only [TypedCore.commitment, Option.isSome_none, Option.isSome_some, hb] <;>
      clear * - <;> revert before <;> decide

end

/-- What the plane seals is the core of the event. -/
theorem EvidencePlane.sealEvent_ok {σ ι : Type} {L : EvidenceLog σ ι} {plane : EvidencePlane}
    {event : CaptureEvent} {draws : Draws} {leafIo headIo : ι} {s s' : σ} {receipt : JsValue}
    (h : plane.sealEvent H L event draws leafIo headIo s = (.ok receipt, s')) :
    ∃ (core : TypedCore) (r : ReceiptV2), receipt = plane.receipt r ∧
      r.record.core = core.members ∧ plane.coreOf H event draws = .ok core := by
  rw [sealEvent] at h
  cases hcore : plane.coreOf H event draws with
  | error e =>
    rw [hcore] at h
    cases h
  | ok core =>
    rw [hcore] at h
    dsimp only at h
    cases hseal : EvidencePlane.seal H L plane.keys.record core.members draws.headClock leafIo
        headIo s with
    | mk result s'' =>
      rw [hseal] at h
      obtain ⟨hresult, _⟩ := Prod.mk.inj h
      obtain ⟨r, hr, rfl⟩ := ok_of_map_eq hresult
      cases hr
      exact ⟨core, r, rfl, seal_core hseal, rfl⟩

section

variable {σ ι : Type} {L : EvidenceLog σ ι} {plane : EvidencePlane} {event : CaptureEvent}
  {draws : Draws} {leafIo headIo : ι} {s s' : σ} {receipt : JsValue}
  (h : plane.sealEvent H L event draws leafIo headIo s = (.ok receipt, s'))

include h

/-- The fields that are listed for a sealed receipt are those its event commits to. -/
theorem mem_disclosableFields_sealed :
    ∃ fields, disclosableFields receipt = .ok fields ∧
      ∀ field, field ∈ fields ↔ ∃ data, event.committed H field = some data := by
  obtain ⟨core, r, rfl, hr, hcore⟩ := EvidencePlane.sealEvent_ok h
  have hcommits := EvidencePlane.coreOf_commitsTo hcore
  obtain ⟨fields, hfields, hmem⟩ := mem_disclosableFields plane hr hcommits
  refine ⟨fields, hfields, fun field => ?_⟩
  have hcommitment := hcommits field
  rw [hmem]
  cases hdata : event.committed H field with
  | none =>
    rw [hdata] at hcommitment
    rw [hcommitment]
    refine iff_of_false Bool.false_ne_true ?_
    rintro ⟨data, h⟩
    cases h
  | some data =>
    rw [hdata] at hcommitment
    obtain ⟨hash, n, hcommitment, _⟩ := hcommitment
    rw [hcommitment]
    exact iff_of_true rfl ⟨data, rfl⟩

/-- A field of a sealed receipt holds the commitment to what its event has there, and the texts
with that commitment open it. -/
theorem fieldOf_sealed {field : DisclosableField} {data : Bytes}
    (hdata : event.committed H field = some data) :
    ∃ commitment n, fieldOf receipt field = .ok (some (commitment, draws.salt n)) ∧
      saltedCommit H (draws.salt n) data = .ok commitment ∧
      ∀ value, Opens H receipt field value ↔
        saltedCommit H (draws.salt n) (utf8 value) = .ok commitment := by
  obtain ⟨core, r, rfl, hr, hcore⟩ := EvidencePlane.sealEvent_ok h
  have hcommits := EvidencePlane.coreOf_commitsTo hcore
  have hfield := fieldOf_receipt plane hr hcommits field
  have hcommitment := hcommits field
  rw [hdata] at hcommitment
  obtain ⟨hash, n, hcommitment, hcommit⟩ := hcommitment
  rw [hcommitment] at hfield
  refine ⟨hash, n, hfield, hcommit, fun value => ?_⟩
  have hrecordId : ∃ recordId, ((JsValue.object (Entries.set r.record.core "signature"
      (toJs r.record.signature))).read "record_id" >>= JsValue.text) = .ok recordId := by
    rw [hr]
    obtain ⟨recordId, time, subject, runtime⟩ := core
    cases subject <;> exact ⟨recordId, rfl⟩
  obtain ⟨recordId, hrecordId⟩ := hrecordId
  have hbinding : (plane.receipt r).read "binding_hash" >>= JsValue.text = .ok r.bindingHash := rfl
  rw [opens_iff rfl hrecordId hbinding]
  constructor
  · rintro ⟨commitment, salt', hfield', hvalue⟩
    cases hfield.symm.trans hfield'
    exact hvalue
  · intro hvalue
    exact ⟨hash, draws.salt n, hfield, hvalue⟩

/-- A listed field of a sealed receipt can be opened exactly if the bytes that were committed in it
spell a text or collide with one; and what is confirmed, of any receipt, is what was committed. -/
theorem disclosure_iff :
    (∃ fields, disclosableFields receipt = .ok fields ∧ ∀ field,
      (field ∈ fields ↔ ∃ data, event.committed H field = some data) ∧
      ∀ data, event.committed H field = some data →
        ((∃ value, Opens H receipt field value) ↔
          (∃ text, utf8 text = data) ∨ ∃ commitment salt text,
            fieldOf receipt field = .ok (some (commitment, salt)) ∧
              Collides H salt (utf8 text) data) ∧
        ∀ d v, verifyDisclosure H receipt d = .ok v → v.ok = true → d.field = field →
          utf8 d.value = data ∨ Collides H d.salt (utf8 d.value) data) ∧
      ∀ receipt d v, verifyDisclosure H receipt d = .ok v → v.ok = true →
        ∃ commitment, fieldOf receipt d.field = .ok (some (commitment, d.salt)) ∧
          ∀ data, saltedCommit H d.salt data = .ok commitment →
            utf8 d.value = data ∨ Collides H d.salt (utf8 d.value) data := by
  refine ⟨?_, fun receipt d v hverify hok => ?_⟩
  · obtain ⟨fields, hfields, hmem⟩ := mem_disclosableFields_sealed h
    refine ⟨fields, hfields, fun field => ⟨hmem field, fun data hdata => ?_⟩⟩
    obtain ⟨hash, n, hfield, hcommit, hopens⟩ := fieldOf_sealed h hdata
    constructor
    · simp only [hopens]
      constructor
      · rintro ⟨value, hvalue⟩
        rcases eq_or_collides hvalue hcommit with htext | hcollides
        · exact .inl ⟨value, htext⟩
        · exact .inr ⟨hash, draws.salt n, value, hfield, hcollides⟩
      · rintro (⟨text, rfl⟩ | ⟨hash', salt', text, hfield', hcollides⟩)
        · exact ⟨text, hcommit⟩
        · cases hfield.symm.trans hfield'
          exact ⟨text, hcollides.saltedCommit_eq.trans hcommit⟩
    · rintro d v hverify hok rfl
      obtain ⟨_, _, commitment, hfield', hvalue⟩ := verifyDisclosure_ok hverify hok
      obtain ⟨rfl, hsalt⟩ := Prod.mk.inj
        (Option.some.inj (Except.ok.inj (hfield.symm.trans hfield')))
      rw [hsalt] at hcommit
      exact eq_or_collides hvalue hcommit
  · obtain ⟨_, _, commitment, hfield, hvalue⟩ := verifyDisclosure_ok hverify hok
    exact ⟨commitment, hfield, fun data hdata => eq_or_collides hvalue hdata⟩

end

/-! ## What spells a text -/

private theorem not_isUTF8FirstByte : ∀ n < 256, n / 32 = 5 →
    ¬(UInt8.ofNat n).IsUTF8FirstByte := by decide +kernel

/-- No text starts as the encoding of a map does. -/
theorem utf8_ne_map {c : UInt8} {rest : Bytes} (hc : c.toNat / 32 = 5) (text : String) :
    utf8 text ≠ c :: rest := by
  intro h
  have hsize : 0 < text.toByteArray.size := by
    have hlength := congrArg List.length h
    rw [utf8, Array.length_toList, List.length_cons] at hlength
    exact Nat.lt_of_lt_of_eq (Nat.succ_pos _) hlength.symm
  have hfirst := text.isValidUTF8.isUTF8FirstByte_getElem_zero hsize
  have hbyte : text.toByteArray[0] = c := by
    have hget : (utf8 text)[0]? = some c := by rw [h, List.getElem?_cons_zero]
    rw [utf8, Array.getElem?_toList, Array.getElem?_eq_getElem hsize] at hget
    exact Option.some.inj hget
  rw [hbyte, ← UInt8.ofNat_toNat (x := c)] at hfirst
  exact not_isUTF8FirstByte c.toNat c.toNat_lt hc hfirst

/-- Metadata that is an object, or missing, does not encode as a text. -/
theorem metadata_ne_utf8 (maps : MapLaws H.canonicalCbor) {event : EvidenceEvent}
    (hmetadata : event.metadata.nullish = true ∨ ∃ ms, event.metadata = .object ms) {data : Bytes}
    (h : (CaptureEvent.evidence event).committed H .metadata = some data) (text : String) :
    utf8 text ≠ data := by
  rw [CaptureEvent.committed] at h
  obtain ⟨ms, hms⟩ : ∃ ms, (if event.metadata.nullish then .object [] else event.metadata) =
      JsValue.object ms := by
    rcases hmetadata with hnull | ⟨ms, hms⟩
    · exact ⟨[], if_pos hnull⟩
    · rw [hms]
      exact ⟨ms, rfl⟩
  rw [hms] at h
  cases hencoded : H.canonicalCbor (.object ms) with
  | error e =>
    rw [hencoded] at h
    cases h
  | ok b =>
    rw [hencoded] at h
    cases h
    obtain ⟨c, rest, rfl, hc⟩ := maps.head ms _ hencoded
    exact utf8_ne_map hc text

namespace Reference

/-- The action with the words it was called with. -/
def spokenEvent : CaptureEvent := .evidence { agentEvent with input := some (.text "refund 50") }

/-- The words that were sealed can be disclosed. -/
theorem disclosure_iff_spoken :
    ∃ receipt log, plane.sealEvent wireHost MemoryLog.evidenceLog spokenEvent agentDraws () ()
        (MemoryLog.new wireHost plane.logId plane.keys.log) = (.ok receipt, log) ∧
      ∃ value, Opens wireHost receipt .input value := by
  have hsalt : ∃ bytes, fromHexField (agentDraws.salt 0) = .ok bytes :=
    exists_of_isOk (by decide)
  obtain ⟨bytes, hbytes⟩ := hsalt
  have hcore : ∃ core, plane.coreOf (hostWith digest) spokenEvent agentDraws = .ok core := by
    refine exists_bind (exists_bind (exists_bind ⟨bytes, hbytes⟩ fun _ _ => ⟨_, rfl⟩)
      fun _ _ => ⟨_, rfl⟩) fun _ _ => ?_
    refine exists_bind ⟨_, rfl⟩ fun _ _ => ?_
    refine exists_bind ⟨_, rfl⟩ fun _ _ => ?_
    refine exists_bind ⟨_, rfl⟩ fun _ _ => ?_
    refine exists_bind (exists_bind ⟨bytes, hbytes⟩ fun _ _ => ⟨_, rfl⟩) fun _ _ => ?_
    exact exists_bind ⟨_, rfl⟩ fun _ _ => ⟨_, rfl⟩
  obtain ⟨receipt, log, hsealed⟩ := sealEvent_ok length_digest hcore
  refine ⟨receipt, log, hsealed, ?_⟩
  obtain ⟨⟨_, _, hfields⟩, _⟩ := disclosure_iff (H := wireHost) hsealed
  exact (((hfields .input).2 _ rfl).1).mpr (.inl ⟨"refund 50", rfl⟩)

/-- A digest that keeps the first byte behind a salt of sixteen. -/
def leadDigest (data : Bytes) : Bytes := data.getD 16 0 :: (digest data).tail

theorem length_leadDigest (data : Bytes) : (leadDigest data).length = 32 := by
  rw [leadDigest, List.length_cons, List.length_tail, length_digest]

def leadClient : SimulatedDstackClient :=
  valueOf (SimulatedDstackClient.new (hostWith leadDigest) keyHost agent)
    (isOk_of_exists (client_ok length_leadDigest agent))

def leadPlane : EvidencePlane :=
  valueOf (EvidencePlane.start (hostWith leadDigest) keyHost leadClient {}
      "2026-01-01T00:00:00.000Z")
    (isOk_of_exists (start_ok length_leadDigest leadClient {} "2026-01-01T00:00:00.000Z"))

/-- The metadata of a sealed action is listed, and no text opens it. -/
theorem metadata_never_opens :
    ∃ receipt log fields, leadPlane.sealEvent (hostWith leadDigest) MemoryLog.evidenceLog
        agentCall.event agentCall.draws () ()
        (MemoryLog.new (hostWith leadDigest) leadPlane.logId leadPlane.keys.log) =
          (.ok receipt, log) ∧
      disclosableFields receipt = .ok fields ∧ .metadata ∈ fields ∧
      ∀ value, ¬Opens (hostWith leadDigest) receipt .metadata value := by
  obtain ⟨receipt, log, hsealed⟩ :=
    sealEvent_ok length_leadDigest (coreOf_agentCall leadDigest leadPlane)
  obtain ⟨fields, hfields, hmem⟩ := mem_disclosableFields_sealed hsealed
  have hdata : agentCall.event.committed (hostWith leadDigest) .metadata = some [0xa0] := rfl
  refine ⟨receipt, log, fields, hsealed, hfields, (hmem .metadata).mpr ⟨_, hdata⟩, fun value => ?_⟩
  obtain ⟨commitment, n, _, hcommit, hopens⟩ := fieldOf_sealed hsealed hdata
  rw [hopens]
  intro hvalue
  have hsalt : ∃ saltBytes, fromHexField (agentCall.draws.salt n) = .ok saltBytes ∧
      saltBytes.length = 16 := ⟨_, rfl, rfl⟩
  obtain ⟨saltBytes, hsalt, hlength⟩ := hsalt
  rcases eq_or_collides hvalue hcommit with hsame | ⟨_, saltBytes', hsalt', hdigest⟩
  · exact utf8_ne_map (by decide) value hsame
  · cases hsalt.symm.trans hsalt'
    have hlead := (List.cons.inj hdigest).1
    rw [List.getD_append_right _ _ _ _ hlength.le, List.getD_append_right _ _ _ _ hlength.le,
      hlength] at hlead
    cases hbytes : utf8 value with
    | nil =>
      rw [hbytes] at hlead
      exact absurd hlead (by decide)
    | cons c rest =>
      rw [hbytes] at hlead
      have hc : c = 0xa0 := hlead
      subst hc
      exact utf8_ne_map (by decide) value hbytes

end Reference

end CoolSdk
