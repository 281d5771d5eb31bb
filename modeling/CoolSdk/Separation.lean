import CoolSdk.Authz.Gateway
import CoolSdk.Core.Framing
import CoolSdk.Phala.Engine
import CoolSdk.Phala.Quote
import CoolSdk.Platform.Bundle
import CoolSdk.Runtime.ReferenceHost

/-!
# Separation of signed messages

One key type signs ten kinds of objects, laid out in four ways. The bytes a signature covers
tell the kind apart, and within a kind they tell the content apart unless the digest function
collides on what was hashed.
-/

namespace CoolSdk

/-- The kinds of objects that are signed. -/
inductive SignedKind
  | record
  | treeHead
  | quote
  | envelope
  | principal
  | principalEvent
  | delegation
  | decision
  | confirmation
  | manifest
  deriving DecidableEq, Repr

/-- An object to be signed, of its declared shape. The open parts of a record and of an
envelope's payload are plain data. -/
inductive SignedObject
  | record (core : RecordCoreV2) (plain : (JsValue.object core).plain = true)
  | treeHead (core : STHCore)
  | quote (body : QuoteBody)
  | envelope (core : EnvelopeCore) (plain : (JsValue.object core.payload).plain = true)
  | principal (body : PrincipalRecord)
  | principalEvent (body : PrincipalEvent)
  | delegation (body : Delegation)
  | decision (body : AuthorizationDecision)
  | confirmation (body : ExternalConfirmation)
  | manifest (entries : List BundleManifestEntry)

namespace SignedKind

/-- The context of an authorization object's kind. -/
def context : SignedKind → String
  | principal => "cool.principal.v1"
  | principalEvent => "cool.principal-event.v1"
  | delegation => "cool.delegation.v1"
  | decision => "cool.authz-decision.v1"
  | confirmation => "cool.external-confirmation.v1"
  | _ => ""

/-- The layout of a kind's signed bytes. -/
def frame : SignedKind → Frame UInt8
  | record => .suffixed
  | treeHead | quote => .bare
  | envelope => .labelled (utf8 "cool.envelope.sig.v1\x00")
  | manifest => .digest
  | kind => .labelled (utf8 (kind.context ++ ".sig\x00"))

/-- What is hashed before the encoding. -/
def domain : SignedKind → Bytes
  | record | treeHead | quote => []
  | envelope => utf8 "cool.envelope.v1\x00"
  | manifest => utf8 "cool.bundle.manifest.v1\x00"
  | kind => utf8 (kind.context ++ "\x00")

end SignedKind

namespace SignedObject

/-- The kind of an object. -/
def kind : SignedObject → SignedKind
  | record _ _ => .record
  | treeHead _ => .treeHead
  | quote _ => .quote
  | envelope _ _ => .envelope
  | principal _ => .principal
  | principalEvent _ => .principalEvent
  | delegation _ => .delegation
  | decision _ => .decision
  | confirmation _ => .confirmation
  | manifest _ => .manifest

/-- The signed content: the value that is encoded. -/
def content : SignedObject → JsValue
  | record core _ => .object core
  | treeHead core => toJs core
  | quote body => toJs body
  | envelope core _ => toJs core
  | principal body => (toJs body).clean
  | principalEvent body => (toJs body).clean
  | delegation body => (toJs body).clean
  | decision body => (toJs body).clean
  | confirmation body => (toJs body).clean
  | manifest entries => .array (entries.map toJs)

variable (H : Host)

/-- The message signed over an authorization object. -/
def objectMessage {α : Type} [ToJs α] (context : String) (body : α) : Except String Bytes := do
  let digest ← digestOf H context (toJs body)
  sigMessage context digest

/-- The bytes handed to the signature. -/
def signingBytes : SignedObject → Except String Bytes
  | record core _ => do
    let binding ← bindingHashV2 H core
    recordSigningMessageV2 H core binding
  | treeHead core => sthSigningMessage H core
  | quote body => quoteSigningMessage H body
  | envelope core _ => do
    let bytes ← canonicalize H core
    signatureMessage (commit H bytes)
  | principal body => objectMessage H "cool.principal.v1" body
  | principalEvent body => objectMessage H "cool.principal-event.v1" body
  | delegation body => objectMessage H "cool.delegation.v1" body
  | decision body => objectMessage H "cool.authz-decision.v1" body
  | confirmation body => objectMessage H "cool.external-confirmation.v1" body
  | manifest entries => do
    let digest ← manifestDigest H entries
    multihashDigest digest

/-- A message's parts: the encoding of the content, and the digest of what was hashed. -/
structure Parts (a : SignedObject) (m e d : Bytes) : Prop where
  encoded : H.canonicalCbor a.content = .ok e
  size : d.length = 32
  hashed : a.kind.frame ≠ .bare → H.sha256 (a.kind.domain ++ e) = d
  laid : a.kind.frame.layout e d = m

/-- Two objects whose hashed bytes differ have one digest. -/
def Collide (a b : SignedObject) : Prop :=
  ∃ e e', H.canonicalCbor a.content = .ok e ∧ H.canonicalCbor b.content = .ok e' ∧
    a.kind.domain ++ e ≠ b.kind.domain ++ e' ∧
      H.sha256 (a.kind.domain ++ e) = H.sha256 (b.kind.domain ++ e')

variable {H}

private theorem objectMessage_parts {α : Type} [ToJs α] {context : String} {body : α} {m : Bytes}
    (h : objectMessage H context body = .ok m) :
    ∃ e d, H.canonicalCbor (toJs body).clean = .ok e ∧ d.length = 32 ∧
      H.sha256 (utf8 (context ++ "\x00") ++ e) = d ∧ utf8 (context ++ ".sig\x00") ++ d = m := by
  unfold objectMessage at h
  obtain ⟨digest, hdigest, h⟩ := bind_eq_ok.mp h
  unfold digestOf at hdigest
  obtain ⟨e, he, hdigest⟩ := bind_eq_ok.mp hdigest
  cases hdigest
  unfold sigMessage at h
  obtain ⟨d, hd, h⟩ := bind_eq_ok.mp h
  cases h
  obtain ⟨hraw, hsize⟩ := digest_of_mhSha256 H hd
  exact ⟨e, d, he, hsize, hraw.symm, rfl⟩

private theorem bare_parts {a : SignedObject} {m : Bytes} (hframe : a.kind.frame = .bare)
    (h : H.canonicalCbor a.content = .ok m) : ∃ e d, a.Parts H m e d :=
  ⟨m, List.replicate 32 0, h, List.length_replicate, fun hne => absurd hframe hne, by
    rw [hframe, Frame.layout]⟩

/-- The bytes handed to the signature are laid out from the encoded content and a digest. -/
theorem parts_of_signingBytes {a : SignedObject} {m : Bytes} (h : a.signingBytes H = .ok m) :
    ∃ e d, a.Parts H m e d := by
  cases a with
  | record core plain =>
    obtain ⟨binding, hbinding, h⟩ := bind_eq_ok.mp h
    obtain ⟨e, he, hbinding⟩ := bind_eq_ok.mp hbinding
    cases hbinding
    obtain ⟨e', he', h⟩ := bind_eq_ok.mp h
    obtain ⟨d, hd, h⟩ := bind_eq_ok.mp h
    rw [he] at he'
    cases he'
    cases h
    obtain ⟨hraw, hsize⟩ := digest_of_mhSha256 H hd
    exact ⟨e, d, he, hsize, fun _ => hraw.symm, rfl⟩
  | treeHead core => exact bare_parts rfl h
  | quote body => exact bare_parts rfl h
  | envelope core plain =>
    obtain ⟨e, he, h⟩ := bind_eq_ok.mp h
    obtain ⟨d, hd, h⟩ := bind_eq_ok.mp h
    cases h
    obtain ⟨hraw, hsize⟩ := digest_of_mhSha256 H hd
    exact ⟨e, d, he, hsize, fun _ => hraw.symm, rfl⟩
  | principal body =>
    obtain ⟨e, d, he, hsize, hraw, hm⟩ := objectMessage_parts h
    exact ⟨e, d, he, hsize, fun _ => hraw, hm⟩
  | principalEvent body =>
    obtain ⟨e, d, he, hsize, hraw, hm⟩ := objectMessage_parts h
    exact ⟨e, d, he, hsize, fun _ => hraw, hm⟩
  | delegation body =>
    obtain ⟨e, d, he, hsize, hraw, hm⟩ := objectMessage_parts h
    exact ⟨e, d, he, hsize, fun _ => hraw, hm⟩
  | decision body =>
    obtain ⟨e, d, he, hsize, hraw, hm⟩ := objectMessage_parts h
    exact ⟨e, d, he, hsize, fun _ => hraw, hm⟩
  | confirmation body =>
    obtain ⟨e, d, he, hsize, hraw, hm⟩ := objectMessage_parts h
    exact ⟨e, d, he, hsize, fun _ => hraw, hm⟩
  | manifest entries =>
    obtain ⟨digest, hdigest, hd⟩ := bind_eq_ok.mp h
    obtain ⟨e, he, hdigest⟩ := bind_eq_ok.mp hdigest
    cases hdigest
    obtain ⟨hraw, hsize⟩ := digest_of_mhSha256 H hd
    exact ⟨e, m, he, hsize, fun _ => hraw.symm, rfl⟩

/-! ### The signers -/

/-- The plane signs a record's signing bytes. -/
theorem signed_of_signRecord {recordKey : KeyPair} {core : RecordCoreV2}
    {out : SignedRecordV2 × Multihash × Bytes} (plain : (JsValue.object core).plain = true)
    (h : signRecord H recordKey core = .ok out) :
    ∃ m, (record core plain).signingBytes H = .ok m ∧
      out.1.signature = H.hybridSign m recordKey := by
  obtain ⟨binding, hbinding, h⟩ := bind_eq_ok.mp h
  obtain ⟨m, hm, h⟩ := bind_eq_ok.mp h
  obtain ⟨leafData, _, h⟩ := bind_eq_ok.mp h
  cases h
  exact ⟨m, bind_eq_ok.mpr ⟨binding, hbinding, hm⟩, rfl⟩

/-- A log signs the signing bytes of its head. -/
theorem signed_of_signTreeHead {logId timestamp : String} {logKey : KeyPair} {treeSize : Nat}
    {leafHashes : List Bytes} {sth : STH}
    (h : signTreeHead H logId logKey treeSize leafHashes timestamp = .ok sth) :
    ∃ m, (treeHead (sthCore sth)).signingBytes H = .ok m ∧
      sth.signature = H.hybridSign m logKey := by
  obtain ⟨rootHash, _, h⟩ := bind_eq_ok.mp h
  obtain ⟨m, hm, h⟩ := bind_eq_ok.mp h
  cases h
  exact ⟨m, hm, rfl⟩

/-- The simulator signs the signing bytes of a quote. -/
theorem signed_of_signSimulatedQuote {body : QuoteBody} {rootKey : KeyPair}
    {block : SignatureBlock} (h : signSimulatedQuote H body rootKey = .ok block) :
    ∃ m, (quote body).signingBytes H = .ok m ∧ block = H.hybridSign m rootKey := by
  obtain ⟨m, hm, h⟩ := bind_eq_ok.mp h
  cases h
  exact ⟨m, hm, rfl⟩

/-- Every signer of an envelope is handed the signing bytes of the core. -/
theorem signed_of_signEnvelope {core : EnvelopeCore} {keys : List EnvelopeSigner}
    {attestation : Option Bytes} {env : SignedEnvelope}
    (plain : (JsValue.object core.payload).plain = true)
    (h : signEnvelope H core keys attestation = .ok env) :
    ∃ m, (envelope core plain).signingBytes H = .ok m ∧
      env.signatures = keys.map fun k => k.sign m := by
  unfold signEnvelope at h
  by_cases hkeys : keys = []
  · rw [if_pos hkeys] at h
    cases h
  rw [if_neg hkeys] at h
  by_cases hdoc : (attestation.any fun document => !decide (referenced H core document)) = true
  · rw [if_pos hdoc] at h
    cases h
  rw [if_neg hdoc] at h
  obtain ⟨bytes, hbytes, h⟩ := bind_eq_ok.mp h
  obtain ⟨m, hm, h⟩ := bind_eq_ok.mp h
  cases h
  exact ⟨m, bind_eq_ok.mpr ⟨bytes, hbytes, hm⟩, rfl⟩

/-- An authorization object is signed over its message. -/
theorem signed_of_signObject_message {α : Type} [ToJs α] {context : String} {body : α}
    {key : KeyPair} {s : Signed α} (h : signObject H context body key = .ok s) :
    ∃ m, objectMessage H context body = .ok m ∧ s.signature = H.hybridSign m key := by
  obtain ⟨_, hdigest, ⟨m, hm, hsignature⟩, _⟩ := signed_of_signObject H h
  exact ⟨m, bind_eq_ok.mpr ⟨s.digest, hdigest, hm⟩, hsignature⟩

/-- The exporter signs the signing bytes of the manifest's entries. -/
theorem signed_of_signManifest {envelopes : List SignedEnvelope}
    {decisions : List JsValue.Members} {attachments : List BundleAttachment}
    {bundle : BundleManifest} {exporter : KeyPair} {block : SignatureBlock}
    (hm : manifestOf H envelopes decisions attachments = .ok bundle)
    (h : signManifest H bundle exporter = .ok block) :
    ∃ m, (manifest bundle.entries).signingBytes H = .ok m ∧
      block = H.hybridSign m exporter := by
  obtain ⟨decided, _, hm⟩ := bind_eq_ok.mp hm
  obtain ⟨digest, hdigest, hm⟩ := bind_eq_ok.mp hm
  cases hm
  obtain ⟨m, hdigest', h⟩ := bind_eq_ok.mp h
  cases h
  exact ⟨m, bind_eq_ok.mpr ⟨digest, hdigest, hdigest'⟩, rfl⟩

/-! ### Plain content -/

private theorem plain_optional_str (o : Option String) : (optional .str o).plain = true := by
  cases o <;> rfl

private theorem plain_texts (l : List String) : JsValue.plainItems (l.map .str) = true :=
  JsValue.plainItems_map fun _ _ => rfl

private theorem plain_principal (body : PrincipalRecord) : (toJs body).plain = true := by
  simp [toJs, JsValue.plain, JsValue.plainMembers, plain_optional_str, JsValue.plainItems_map]

private theorem plain_principalEvent (body : PrincipalEvent) : (toJs body).plain = true := by
  cases hk : body.keyId <;> cases he : body.entry <;> cases hr : body.reason <;>
    simp [toJs, hk, he, hr, optional, JsValue.plain, JsValue.plainMembers]

private theorem plain_delegation (body : Delegation) : (toJs body).plain = true := by
  cases hm : body.scope.maxAmount <;> cases hp : body.parent <;>
    simp [toJs, hm, hp, optional, JsValue.plain, JsValue.plainMembers, plain_texts]

private theorem plain_decision (body : AuthorizationDecision) : (toJs body).plain = true := by
  simp [toJs, JsValue.plain, JsValue.plainMembers, plain_texts]

private theorem plain_confirmation (body : ExternalConfirmation) : (toJs body).plain = true := by
  simp [toJs, JsValue.plain, JsValue.plainMembers, plain_optional_str]

private theorem plain_manifest (entries : List BundleManifestEntry) :
    (JsValue.array (entries.map toJs)).plain = true :=
  JsValue.plainItems_map fun e _ => by simp [toJs, JsValue.plain, JsValue.plainMembers]

private theorem plain_source (source : EventSource) : (toJs source).plain = true := by
  cases hi : source.instance_ <;> cases he : source.eventId <;>
    simp [toJs, hi, he, member?, JsValue.plain, JsValue.plainMembers]

private theorem plain_actor (actor : Actor) : (toJs actor).plain = true := by
  cases hi : actor.issuer <;> simp [toJs, hi, member?, JsValue.plain, JsValue.plainMembers]

private theorem plain_resource (resource : EventResource) : (toJs resource).plain = true := by
  simp [toJs, JsValue.plain, JsValue.plainMembers]

private theorem plain_provenance (p : Provenance) : (toJs p).plain = true := by
  simp [toJs, JsValue.plain, JsValue.plainMembers, plain_texts]

private theorem plain_relations (l : List Relation) : JsValue.plainItems (l.map toJs) = true :=
  JsValue.plainItems_map fun e _ => by simp [toJs, JsValue.plain, JsValue.plainMembers]

private theorem plain_policy (p : PolicyCitation) : (toJs p).plain = true := by
  simp [toJs, JsValue.plain, JsValue.plainMembers]

private theorem plain_sequence (s : Sequence) : (toJs s).plain = true := by
  simp [toJs, JsValue.plain, JsValue.plainMembers]

private theorem plain_core {core : EnvelopeCore}
    (h : (JsValue.object core.payload).plain = true) : (toJs core).plain = true := by
  unfold toJs instToJsEnvelopeCore
  simp only [JsValue.plain, Bool.and_eq_true, decide_eq_true_eq] at h
  cases hp : core.policy <;> cases hs : core.sequence <;> cases ha : core.attestationRef <;>
    simp [hp, hs, ha, h, member?, JsValue.plain, JsValue.plainMembers, plain_source, plain_actor,
      plain_resource, plain_provenance, plain_relations, plain_policy, plain_sequence]

/-- Everything that is signed is plain data. -/
theorem plain_content (a : SignedObject) : a.content.plain = true := by
  cases a with
  | record core plain => exact plain
  | treeHead core => simp [content, toJs, JsValue.plain, JsValue.plainMembers]
  | quote body => simp [content, toJs, JsValue.plain, JsValue.plainMembers]
  | envelope core plain => exact plain_core plain
  | principal body => exact JsValue.plain_clean (plain_principal body)
  | principalEvent body => exact JsValue.plain_clean (plain_principalEvent body)
  | delegation body => exact JsValue.plain_clean (plain_delegation body)
  | decision body => exact JsValue.plain_clean (plain_decision body)
  | confirmation body => exact JsValue.plain_clean (plain_confirmation body)
  | manifest entries => exact plain_manifest entries

end SignedObject

/-! ### Telling kinds apart -/

/-- The first byte of an encoded map. -/
def mapHead (c : UInt8) : Prop := c.toNat / 32 = 5

instance (c : UInt8) : Decidable (mapHead c) := inferInstanceAs (Decidable (c.toNat / 32 = 5))

private theorem startsWith_of_head {l : Bytes} (h : l.head? = some 99) :
    Frame.StartsWith (fun c => ¬mapHead c) l := by
  obtain ⟨rest, hrest⟩ := List.head?_eq_some_iff.mp h
  exact ⟨99, rest, hrest, by decide⟩

/-- No label starts like an encoded map. -/
theorem SignedKind.startsWith_label {k : SignedKind} {label : Bytes}
    (h : k.frame = .labelled label) : Frame.StartsWith (fun c => ¬mapHead c) label := by
  cases k <;> cases h <;> exact startsWith_of_head (by decide)

/-- Apart from the two bare kinds, the layout is the kind's own. -/
theorem SignedKind.eq_of_frame_eq {k k' : SignedKind} (h : k.frame = k'.frame)
    (hbare : k.frame ≠ .bare) : k = k' := by
  cases k <;> cases k' <;> first
    | rfl
    | exact absurd rfl hbare
    | simp [SignedKind.frame, SignedKind.context, utf8_injective.eq_iff] at h

namespace SignedObject

variable {H : Host} {a b : SignedObject} {m e d : Bytes}

/-- A shown encoding starts like a map, a label does not, and a bare encoding lists keys that
are longer than a digest. -/
theorem Parts.fits (maps : MapLaws H.canonicalCbor) (h : a.Parts H m e d) :
    a.kind.frame.Fits mapHead 32 e := by
  cases a with
  | record core plain => exact maps.head core e h.encoded
  | treeHead core =>
    refine ⟨maps.head _ e h.encoded, ?_⟩
    have hkeys := maps.keys _ e h.encoded
    have hsum : ((utf8 "log_id").length + ((utf8 "tree_size").length +
        ((utf8 "root_hash").length + ((utf8 "timestamp").length + 0)))) = 33 := by decide
    simp only [List.map_cons, List.map_nil, List.sum_cons, List.sum_nil, hsum] at hkeys
    omega
  | quote body =>
    refine ⟨maps.head _ e h.encoded, ?_⟩
    have hkeys := maps.keys _ e h.encoded
    have hsum : ((utf8 "vendor").length + ((utf8 "measurement").length +
        ((utf8 "report_data").length + ((utf8 "tcb_status").length + ((utf8 "app_id").length +
          ((utf8 "instance_id").length + ((utf8 "issued_at").length + 0))))))) = 64 := by decide
    simp only [List.map_cons, List.map_nil, List.sum_cons, List.sum_nil, hsum] at hkeys
    omega
  | manifest entries => trivial
  | envelope core plain => exact SignedKind.startsWith_label (k := .envelope) rfl
  | principal body => exact SignedKind.startsWith_label (k := .principal) rfl
  | principalEvent body => exact SignedKind.startsWith_label (k := .principalEvent) rfl
  | delegation body => exact SignedKind.startsWith_label (k := .delegation) rfl
  | decision body => exact SignedKind.startsWith_label (k := .decision) rfl
  | confirmation body => exact SignedKind.startsWith_label (k := .confirmation) rfl

private theorem treeHead_ne_quote (core : STHCore) (body : QuoteBody) :
    (toJs core).sortKeys ≠ (toJs body).sortKeys := by
  intro h
  have hvendor := (JsValue.mem_keys_of_sortKeys_eq h "vendor").mpr (by simp)
  simp at hvendor

private theorem kind_eq_of_bare (hframe : a.kind.frame = b.kind.frame)
    (hbare : a.kind.frame = .bare) (h : a.content.sortKeys = b.content.sortKeys) :
    a.kind = b.kind := by
  cases a with
  | treeHead core =>
    cases b with
    | treeHead core' => rfl
    | quote body' => exact absurd h (treeHead_ne_quote core body')
    | _ => cases hframe
  | quote body =>
    cases b with
    | treeHead core' => exact absurd h.symm (treeHead_ne_quote core' body)
    | quote body' => rfl
    | _ => cases hframe
  | _ => cases hbare

/-- The bytes handed to the signature tell the kinds apart; within a kind they determine the
content up to the order of members, unless the digest of what was hashed collides. -/
theorem separation (laws : CanonicalLaws H.canonicalCbor) (maps : MapLaws H.canonicalCbor)
    (ha : a.signingBytes H = .ok m) (hb : b.signingBytes H = .ok m) :
    a.kind = b.kind ∧ (a.content.sortKeys = b.content.sortKeys ∨ Collide H a b) := by
  obtain ⟨e, d, hpa⟩ := parts_of_signingBytes ha
  obtain ⟨e', d', hpb⟩ := parts_of_signingBytes hb
  have hsort : e = e' → a.content.sortKeys = b.content.sortKeys := fun he =>
    laws.injective _ _ e a.plain_content b.plain_content hpa.encoded (he ▸ hpb.encoded)
  obtain ⟨hframe, hagrees⟩ := Frame.eq_of_layout_eq (by decide) hpa.size hpb.size
    (hpa.fits maps) (hpb.fits maps)
    (laws.prefixFree _ _ e e' a.plain_content b.plain_content hpa.encoded hpb.encoded)
    (laws.prefixFree _ _ e' e b.plain_content a.plain_content hpb.encoded hpa.encoded)
    (hpa.laid.trans hpb.laid.symm)
  by_cases hbare : a.kind.frame = .bare
  · rw [hbare] at hagrees
    have hcontent := hsort hagrees
    exact ⟨kind_eq_of_bare hframe hbare hcontent, Or.inl hcontent⟩
  · have hkind := SignedKind.eq_of_frame_eq hframe hbare
    have hd : d = d' := by
      cases hf : a.kind.frame with
      | bare => exact absurd hf hbare
      | suffixed =>
        rw [hf] at hagrees
        exact hagrees.2
      | labelled label =>
        rw [hf] at hagrees
        exact hagrees
      | digest =>
        rw [hf] at hagrees
        exact hagrees
    have hhash : H.sha256 (a.kind.domain ++ e) = H.sha256 (b.kind.domain ++ e') :=
      (hpa.hashed hbare).trans (hd.trans (hpb.hashed (hframe ▸ hbare)).symm)
    refine ⟨hkind, ?_⟩
    by_cases he : e = e'
    · exact Or.inl (hsort he)
    · refine Or.inr ⟨e, e', hpa.encoded, hpb.encoded, ?_, hhash⟩
      rw [hkind]
      exact fun h => he (List.append_cancel_left h)

/-- A record core of two members. -/
def twoMembers (first second : String × JsValue)
    (plain : (JsValue.object [first, second]).plain = true) : SignedObject :=
  record [first, second] plain

open Reference in
/-- Two listings of one record core are signed over the same bytes and have one content. -/
theorem separation_reordered :
    let listed := twoMembers ("schema", .str "cool.evidence.v1") ("record_id", .str "01") rfl
    let swapped := twoMembers ("record_id", .str "01") ("schema", .str "cool.evidence.v1") rfl
    listed.kind = swapped.kind ∧
      (listed.content.sortKeys = swapped.content.sortKeys ∨ Collide host listed swapped) := by
  intro listed swapped
  have hrun : (listed.signingBytes host).isOk = true := by decide +kernel
  have hsame : swapped.signingBytes host = listed.signingBytes host := by decide +kernel
  obtain ⟨m, hm⟩ := exists_of_isOk hrun
  exact separation canonicalLaws mapLaws hm (hsame.trans hm)

end SignedObject

end CoolSdk
