import CoolSdk.Phala.WellFormed
import CoolSdk.Runtime.ReferenceHost

/-!
# Where the receipt verifier throws

On values parsed from JSON the verifier throws in two places: at a listed co-signature that is
null or whose id cannot be coerced to a key, and at a register that cannot be coerced to a text.
The structural check leaves both open.
-/

namespace CoolSdk

open JsValue (Members member)

/-! ## What the structural check leaves open -/

/-- The value at the end of a path of members, `undefined` where the path breaks off. -/
def JsValue.dig (v : JsValue) (path : List String) : JsValue :=
  path.foldl (fun v name => (v.read name).toOption.getD .undefined) v

/-- The co-signatures a receipt lists. -/
def listedWitnesses (receipt : JsValue) : List JsValue :=
  (receipt.dig ["sth", "witnesses"]).items.toOption.getD []

/-- Every register of the quoted measurement, in order. -/
def quotedRegisters (receipt : JsValue) : Members :=
  (receipt.dig ["attestation", "quote", "body", "measurement"]).members.toOption.getD []

/-- Whether a listed co-signature can be looked at. -/
def JsValue.readableWitness : JsValue → Bool
  | .null => false
  | .object ms => !(member ms "external").truthy || (member ms "id").printable
  | _ => true

section

variable (H : Host)

/-- Whether a register's text is well formed. -/
def JsValue.isRegisterText (v : JsValue) : Bool :=
  match v.toText H with
  | .ok text => isRegister text
  | .error _ => false

/-- Whether the first malformed register, if there is one, can be printed. -/
def registersReadable (registers : Members) : Bool :=
  (registers.find? fun e => !e.2.isRegisterText H).all fun e => e.2.printable

end

/-! ## What is read, against the receipt -/

private theorem dig_cons {v w : JsValue} {name : String} (h : v.read name = .ok w)
    (path : List String) : v.dig (name :: path) = w.dig path := by
  rw [JsValue.dig, List.foldl_cons, h]
  rfl

private theorem dig_null (name : String) (path : List String) :
    (JsValue.null.dig (name :: path)) = JsValue.undefined.dig path := rfl

private theorem dig_undefined (path : List String) : JsValue.undefined.dig path = .undefined := by
  induction path with
  | nil => rfl
  | cons name path ih => exact ih

/-- Nothing is found below a value that is null or missing. -/
private theorem dig_nullish {v : JsValue} (h : v.nullish = true) (name : String)
    (path : List String) : v.dig (name :: path) = .undefined := by
  cases v with
  | undefined => exact dig_undefined _
  | null => rw [dig_null, dig_undefined]
  | _ => cases h

private theorem members_eq {v : JsValue} {ms : Members} (h : v.members = .ok ms) :
    v = .object ms := by
  cases v <;> first | (cases h; rfl) | cases h

/-- What was read of a receipt are parts of it. -/
structure ReceiptFields.ReadFrom (r : ReceiptFields) (receipt : JsValue) : Prop where
  core : ∃ ms, receipt.read "record" = .ok (.object ms) ∧ r.record.core = coreOfV2 ms
  bindingHash : receipt.read "binding_hash" = .ok (.str r.bindingHash)
  witnesses : (r.sth.elim [] HeadFields.witnesses) = listedWitnesses receipt
  registers : (r.quote.elim [] QuoteFields.registers) = quotedRegisters receipt
  quote : ∀ q, r.quote = some q → ∃ attestation, receipt.read "attestation" = .ok attestation ∧
    attestation.read "quote" = .ok q.value ∧ q.value.read "body" = .ok q.body

private theorem text_eq {v : JsValue} {s : String} (h : v.text = .ok s) : v = .str s := by
  cases v <;> first | (cases h; rfl) | cases h

private theorem readHead_witnesses {v : JsValue} {s : HeadFields} (h : readHead v = .ok s) :
    s.witnesses = (v.dig ["witnesses"]).items.toOption.getD [] := by
  simp only [readHead, bind_eq_ok] at h
  obtain ⟨_, _, _, _, _, _, _, _, _, _, ws, ⟨w, hw, hitems⟩, h⟩ := h
  cases h
  rw [dig_cons hw, show w.dig [] = w from rfl, hitems]
  rfl

private theorem readQuote_parts {v : JsValue} {q : QuoteFields} (h : readQuote v = .ok q) :
    q.value = v ∧ v.read "body" = .ok q.body ∧
      q.registers = (v.dig ["body", "measurement"]).members.toOption.getD [] := by
  simp only [readQuote, bind_eq_ok] at h
  obtain ⟨_, _, body, hbody, registers, ⟨m, hm, hregisters⟩, _, _, _, _, _, _, _, _, h⟩ := h
  cases h
  refine ⟨rfl, hbody, ?_⟩
  rw [dig_cons hbody, dig_cons hm, show m.dig [] = m from rfl, hregisters]
  rfl

theorem readReceipt_readFrom {receipt : JsValue} {r : ReceiptFields}
    (h : readReceipt receipt = .ok r) : r.ReadFrom receipt := by
  simp only [readReceipt, bind_eq_ok] at h
  obtain ⟨record, ⟨recordValue, hrecordValue, hrecord⟩, binding, ⟨bindingValue, hbindingValue,
    hbinding⟩, _, _, head, ⟨headValue, hheadValue, hhead⟩, attestation, hattestation, _, _, quote,
    ⟨quoteValue, hquoteValue, hquote⟩, _, _, _, _, h⟩ := h
  cases h
  refine ⟨?_, ?_, ?_, ?_, ?_⟩
  · simp only [readRecord, bind_eq_ok] at hrecord
    obtain ⟨ms, hms, _, _, _, _, _, _, _, _, _, _, _, _, _, _, _, _, _, _, _, _, _, _, hr⟩ :=
      hrecord
    cases hr
    exact ⟨ms, by rw [hrecordValue, members_eq hms], rfl⟩
  · rw [hbindingValue, text_eq hbinding]
  · rw [listedWitnesses, dig_cons hheadValue]
    rcases orNull_cases hhead with ⟨hnullish, rfl⟩ | ⟨s, hs, rfl⟩
    · rw [dig_nullish hnullish]
      rfl
    · exact readHead_witnesses hs
  · rw [quotedRegisters, dig_cons hattestation, dig_cons hquoteValue]
    rcases orNull_cases hquote with ⟨hnullish, rfl⟩ | ⟨q, hq, rfl⟩
    · rw [dig_nullish hnullish]
      rfl
    · exact (readQuote_parts hq).2.2
  · intro q hq
    rcases orNull_cases hquote with ⟨_, rfl⟩ | ⟨q', hq', rfl⟩
    · cases hq
    · cases hq
      obtain ⟨hvalue, hbody, _⟩ := readQuote_parts hq'
      exact ⟨attestation, hattestation, by rw [hvalue, hquoteValue], by rw [hvalue, hbody]⟩

/-- What is read of a value that JSON spells is spelled too, or missing. -/
private theorem json_read {v w : JsValue} {name : String} (hv : v.json = true)
    (h : v.read name = .ok w) : w.json = true ∨ w = .undefined := by
  cases v with
  | object ms =>
    cases h
    exact JsValue.json_member hv name
  | null | undefined => cases h
  | custom _ | foreign _ | bytes _ => cases hv
  | bool _ | num _ | str _ | array _ =>
    cases h
    exact .inr rfl

theorem json_dig {v : JsValue} (hv : v.json = true ∨ v = .undefined)
    (path : List String) : (v.dig path).json = true ∨ v.dig path = .undefined := by
  induction path generalizing v with
  | nil => exact hv
  | cons name path ih =>
    rw [JsValue.dig, List.foldl_cons]
    refine ih ?_
    rcases hv with hv | rfl
    · cases hread : v.read name with
      | error e => exact .inr rfl
      | ok w => exact json_read hv hread
    · exact .inr rfl

private theorem json_listedWitnesses {receipt : JsValue} (h : receipt.json = true) :
    ∀ w ∈ listedWitnesses receipt, w.json = true := by
  rw [listedWitnesses]
  rcases json_dig (.inl h) ["sth", "witnesses"] with hjson | hundefined
  · cases hv : receipt.dig ["sth", "witnesses"] with
    | array xs =>
      rw [hv] at hjson
      exact (JsValue.jsonItems_iff xs).mp hjson
    | _ => exact fun w hw => absurd hw List.not_mem_nil
  · rw [hundefined]
    exact fun w hw => absurd hw List.not_mem_nil

private theorem json_quotedRegisters {receipt : JsValue} (h : receipt.json = true) :
    ∀ e ∈ quotedRegisters receipt, e.2.json = true := by
  rw [quotedRegisters]
  rcases json_dig (.inl h) ["attestation", "quote", "body", "measurement"] with hjson | hundefined
  · cases hv : receipt.dig ["attestation", "quote", "body", "measurement"] with
    | object ms =>
      rw [hv, JsValue.json, Bool.and_eq_true] at hjson
      exact (JsValue.jsonMembers_iff ms).mp hjson.2
    | _ => exact fun w hw => absurd hw List.not_mem_nil
  · rw [hundefined]
    exact fun w hw => absurd hw List.not_mem_nil

/-- Taking the signature off a plain object leaves a plain one. -/
theorem plain_coreOfV2 {ms : Members} (h : (JsValue.object ms).plain = true) :
    (JsValue.object (coreOfV2 ms)).plain = true := by
  rw [JsValue.plain_object_iff] at h ⊢
  refine ⟨Entries.nodup_erase h.1 _, fun e he => h.2 e ?_⟩
  exact (Entries.erase_sublist ms _).subset he

/-- The hashed core of a plain receipt is plain. -/
theorem ReceiptFields.ReadFrom.plain_core {r : ReceiptFields} {receipt : JsValue}
    (h : r.ReadFrom receipt) (hplain : receipt.plain = true) :
    (JsValue.object r.record.core).plain = true := by
  obtain ⟨ms, hread, hcore⟩ := h.core
  rw [hcore]
  exact plain_coreOfV2 (JsValue.plain_read hplain hread)

/-- A quote in a plain receipt and its body are plain. -/
theorem ReceiptFields.ReadFrom.plain_quote {r : ReceiptFields} {receipt : JsValue}
    (h : r.ReadFrom receipt) (hplain : receipt.plain = true) {q : QuoteFields}
    (hq : r.quote = some q) : q.value.plain = true ∧ q.body.plain = true := by
  obtain ⟨attestation, hattestation, hquote, hbody⟩ := h.quote q hq
  have hvalue := JsValue.plain_read (JsValue.plain_read hplain hattestation) hquote
  exact ⟨hvalue, JsValue.plain_read hvalue hbody⟩

/-- A well-formed receipt's binding hash is a multihash. -/
theorem ReceiptFields.ReadFrom.isMultihash {r : ReceiptFields} {receipt : JsValue}
    (h : r.ReadFrom receipt) (hshape : validateReceiptV2Shape receipt = []) :
    isMultihash r.bindingHash = true := by
  obtain ⟨ms, rfl, hms⟩ := Checker.of_obj hshape
  simp only [List.append_eq_nil_iff] at hms
  obtain ⟨⟨⟨⟨⟨⟨⟨_, hbinding⟩, _⟩, _⟩, _⟩, _⟩, _⟩, _⟩ := hms
  obtain ⟨s, hs, _, htest⟩ := Checker.of_str hbinding
  have hread := h.bindingHash
  rw [show (JsValue.object ms).read "binding_hash" = .ok (member ms "binding_hash") from rfl,
    hs] at hread
  cases hread
  exact htest _ rfl

/-! ## The two places -/

section

variable {H : Host} {A : Anchor.AnchorHost}

/-- Reading the registers throws exactly where the first malformed one cannot be printed. -/
private theorem registersOk_iff {registers : Members} (hjson : ∀ e ∈ registers, e.2.json = true) :
    (∃ b, registersOk H registers = .ok b) ↔ registersReadable H registers = true := by
  induction registers with
  | nil => exact ⟨fun _ => rfl, fun _ => ⟨true, rfl⟩⟩
  | cons e registers ih =>
    obtain ⟨name, v⟩ := e
    rw [List.forall_mem_cons] at hjson
    have hprint := JsValue.toText_isOk H hjson.1
    rw [registersOk, registersReadable, List.find?_cons]
    cases htext : v.toText H with
    | error e =>
      have hfirst : v.isRegisterText H = false := by rw [JsValue.isRegisterText, htext]
      rw [htext] at hprint
      simp only [hfirst, Bool.not_false, Option.all_some, ← hprint]
      constructor
      · rintro ⟨b, hb⟩
        cases hb
      · intro h
        cases h
    | ok text =>
      rw [htext] at hprint
      have hregister : v.isRegisterText H = isRegister text := by rw [JsValue.isRegisterText, htext]
      rw [ok_bind]
      by_cases hgood : isRegister text = true
      · rw [if_pos hgood, hregister, hgood]
        exact ih hjson.2
      · rw [if_neg hgood, hregister, Bool.eq_false_of_not_eq_true hgood]
        simp only [Bool.not_false, Option.all_some, ← hprint]
        exact ⟨fun _ => rfl, fun _ => ⟨false, rfl⟩⟩

/-- Looking at a co-signature throws exactly where it cannot be read. -/
private theorem witnessCounts_iff {message : Bytes} {directory : List (String × DirectoryEntry)}
    {w : JsValue} (hjson : w.json = true) :
    (∃ b, witnessCounts H message directory w = .ok b) ↔ w.readableWitness = true := by
  have hcounts : (∃ b, witnessCounts H message directory w = .ok b) ↔
      ∃ x, externalWitness H directory w = .ok x := by
    rw [witnessCounts]
    cases externalWitness H directory w with
    | error e => exact ⟨fun ⟨_, h⟩ => (by cases h), fun ⟨_, h⟩ => (by cases h)⟩
    | ok x => exact ⟨fun _ => ⟨x, rfl⟩, fun _ => ⟨_, rfl⟩⟩
  rw [hcounts]
  cases w with
  | undefined | custom _ | foreign _ | bytes _ => cases hjson
  | null => exact ⟨fun ⟨_, h⟩ => (by cases h), fun h => (by cases h)⟩
  | bool _ | num _ | str _ | array _ => exact ⟨fun _ => rfl, fun _ => ⟨none, rfl⟩⟩
  | object ms =>
    have hid : ((member ms "id").toText H).isOk = (member ms "id").printable := by
      rcases JsValue.json_member hjson "id" with hid | hid
      · exact JsValue.toText_isOk H hid
      · rw [hid]
        rfl
    have hread : externalWitness H directory (.object ms) =
        if !(member ms "external").truthy then .ok none
        else do
          let keyId ← (member ms "id").toText H
          let signature ← witnessSignature keyId (.object ms)
          return some (keyId, carriedKey directory keyId, signature) := rfl
    rw [hread, JsValue.readableWitness]
    by_cases hexternal : (member ms "external").truthy = true
    · rw [hexternal, if_neg (by simp), ← hid]
      cases htext : (member ms "id").toText H with
      | error e => exact ⟨fun ⟨_, h⟩ => (by cases h), fun h => (by cases h)⟩
      | ok keyId => exact ⟨fun _ => rfl, fun _ => ⟨_, rfl⟩⟩
    · rw [Bool.eq_false_of_not_eq_true hexternal]
      exact ⟨fun _ => rfl, fun _ => ⟨none, rfl⟩⟩

-- what the verifier relies on of the encoder: it encodes plain data
variable (hcbor : ∀ v, v.plain = true → ∃ b, H.canonicalCbor v = .ok b)

include hcbor

private theorem sthSigningMessage_ok (core : STHCore) : ∃ m, sthSigningMessage H core = .ok m :=
  hcbor _ rfl

theorem exists_recordSigningMessage {r : ReceiptFields}
    (hcore : (JsValue.object r.record.core).plain = true)
    (hbinding : ∃ d, multihashDigest r.bindingHash = .ok d) :
    ∃ m, recordSigningMessageV2 H r.record.core r.bindingHash = .ok m :=
  exists_bind (hcbor _ hcore) fun _ _ => exists_bind hbinding fun _ _ => ⟨_, rfl⟩

private theorem verifySignature_ok {r : ReceiptFields}
    (hcore : (JsValue.object r.record.core).plain = true)
    (hbinding : ∃ d, multihashDigest r.bindingHash = .ok d) :
    ∃ s, verifySignatureDomain H r = .ok s := by
  rw [verifySignatureDomain]
  split
  · exact ⟨_, rfl⟩
  · exact exists_bind (exists_recordSigningMessage hcbor hcore hbinding) fun _ _ => ⟨_, rfl⟩

private theorem verifyInclusion_ok (r : ReceiptFields) : ∃ s, verifyInclusionDomain H r = .ok s := by
  rw [verifyInclusionDomain]
  split
  · split
    · exact ⟨_, rfl⟩
    · split
      · exact ⟨_, rfl⟩
      · split
        · exact ⟨_, rfl⟩
        · exact ⟨_, rfl⟩
        · split
          · exact ⟨_, rfl⟩
          · exact exists_bind (sthSigningMessage_ok hcbor _) fun _ _ => ⟨_, rfl⟩
  · exact ⟨_, rfl⟩

private theorem verifyWitnesses_iff {r : ReceiptFields} {threshold : JsNumber}
    (hjson : ∀ w ∈ r.sth.elim [] HeadFields.witnesses, w.json = true) :
    (∃ s, verifyWitnessesDomain H r threshold = .ok s) ↔
      ∀ w ∈ r.sth.elim [] HeadFields.witnesses, w.readableWitness = true := by
  rw [verifyWitnessesDomain]
  cases hsth : r.sth with
  | none => exact ⟨fun _ w hw => absurd hw List.not_mem_nil, fun _ => ⟨_, rfl⟩⟩
  | some sth =>
    rw [hsth, Option.elim_some] at hjson
    rw [Option.elim_some]
    obtain ⟨message, hmessage⟩ := sthSigningMessage_ok hcbor sth.core
    have hcount : countExternal H sth r.directory =
        (sth.witnesses.mapM (witnessCounts H message r.directory)).map (List.count true) := by
      rw [countExternal, hmessage, ok_bind]
      cases sth.witnesses.mapM (witnessCounts H message r.directory) <;> rfl
    constructor
    · rintro ⟨s, hs⟩ w hw
      obtain ⟨n, hn, _⟩ := bind_eq_ok.mp hs
      rw [hcount] at hn
      obtain ⟨votes, hvotes, _⟩ := ok_of_map_eq hn
      obtain ⟨b, _, hb⟩ := exists_mem_of_mapM hvotes hw
      exact (witnessCounts_iff (hjson w hw)).mp ⟨b, hb⟩
    · intro hreadable
      obtain ⟨votes, hvotes⟩ := exists_mapM (f := witnessCounts H message r.directory)
        fun w hw => (witnessCounts_iff (hjson w hw)).mpr (hreadable w hw)
      refine exists_bind ⟨votes.count true, ?_⟩ fun _ _ => ⟨_, rfl⟩
      rw [hcount, hvotes]
      rfl

private theorem chainToRoot_ok {r : ReceiptFields} {options : VerifyArgsV2} {quote : QuoteFields}
    (hbody : quote.body.plain = true) : ∃ v, chainToRoot H r options quote = .ok v := by
  rw [chainToRoot]
  split
  · exact ⟨_, rfl⟩
  · split
    · have hsimulated : ∃ v, simulatedQuoteVerifier H r.directory quote = .ok v := by
        rw [simulatedQuoteVerifier]
        split
        · exact ⟨_, rfl⟩
        · split
          · exact ⟨_, rfl⟩
          · exact exists_bind (hcbor _ hbody) fun _ _ => ⟨_, rfl⟩
      obtain ⟨v, hv⟩ := hsimulated
      rw [hv]
      exact ⟨some v, rfl⟩
    · exact ⟨_, rfl⟩

private theorem verifyAttestation_iff {r : ReceiptFields} {options : VerifyArgsV2}
    (hjson : ∀ e ∈ r.quote.elim [] QuoteFields.registers, e.2.json = true)
    (hbody : ∀ q, r.quote = some q → q.body.plain = true) :
    (∃ s, verifyAttestationDomain H r options = .ok s) ↔
      registersReadable H (r.quote.elim [] QuoteFields.registers) = true := by
  rw [verifyAttestationDomain]
  cases hquote : r.quote with
  | none => exact ⟨fun _ => rfl, fun _ => ⟨_, rfl⟩⟩
  | some quote =>
    rw [hquote, Option.elim_some] at hjson
    rw [Option.elim_some]
    constructor
    · rintro ⟨s, hs⟩
      obtain ⟨sound, hsound, _⟩ := bind_eq_ok.mp hs
      obtain ⟨b, hb, _⟩ := bind_eq_ok.mp hsound
      exact (registersOk_iff hjson).mp ⟨b, hb⟩
    · intro hreadable
      have hregisters := (registersOk_iff hjson).mpr hreadable
      refine exists_bind (exists_bind hregisters fun _ _ => ⟨_, rfl⟩) fun sound _ => ?_
      split
      · exact ⟨_, rfl⟩
      · exact exists_bind (chainToRoot_ok hcbor (hbody quote hquote)) fun _ _ => ⟨_, rfl⟩

/-- The commitment to what a directory reads is computed. -/
theorem CarriedKey.exists_reportData (key : CarriedKey) : ∃ d, key.reportData H = .ok d := by
  cases key with
  | absent => exact ⟨_, rfl⟩
  | inherited =>
    obtain ⟨b, hb⟩ := hcbor (.object [("ed25519_pub", .undefined), ("ml_dsa_pub", .undefined)])
      (by decide)
    exact ⟨some (mhSha256 H (utf8 "cool/report-data/v2" ++ b)), by
      rw [CarriedKey.reportData, enclaveReportData, hb]; rfl⟩
  | entry e =>
    obtain ⟨b, hb⟩ := hcbor
      (.object [("ed25519_pub", .str e.ed25519Pub), ("ml_dsa_pub", .str e.mlDsaPub)]) (by rfl)
    exact ⟨some (mhSha256 H (utf8 "cool/report-data/v2" ++ b)), by
      rw [CarriedKey.reportData, enclaveReportData, hb]; rfl⟩

private theorem verifyEnclave_ok {r : ReceiptFields} {options : VerifyArgsV2}
    {attestation : DomainStatusV2} (hvalue : ∀ q, r.quote = some q → q.value.plain = true) :
    ∃ s, verifyEnclaveDomain H r options attestation = .ok s := by
  rw [verifyEnclaveDomain]
  split
  · rename_i quote teeQuote hquote _
    refine exists_bind (exists_bind (hcbor _ (hvalue quote hquote)) fun _ _ => ⟨_, rfl⟩) ?_
    intro digest _
    split
    · exact ⟨_, rfl⟩
    · split
      · exact ⟨_, rfl⟩
      · refine exists_bind (CarriedKey.exists_reportData hcbor _) fun expected _ => ?_
        split
        · exact ⟨_, rfl⟩
        · split
          · exact ⟨_, rfl⟩
          · split
            · exact ⟨_, rfl⟩
            · exact ⟨_, rfl⟩
  · exact ⟨_, rfl⟩

/-- On a well-formed receipt the verifier resolves exactly if what the structural check leaves open
can be read. -/
theorem verifier_resolves_of_valid {receipt : JsValue} (hjson : receipt.json = true)
    (hshape : validateReceiptV2Shape receipt = []) (options : VerifyArgsV2) :
    (∃ verdict, verifyReceiptV2 H A receipt options = .ok verdict) ↔
      (∀ w ∈ listedWitnesses receipt, w.readableWitness = true) ∧
        registersReadable H (quotedRegisters receipt) = true := by
  rw [verifyReceiptV2, if_neg (not_not_intro hshape)]
  obtain ⟨r, hr⟩ := readReceipt_of_valid hshape
  have hread := readReceipt_readFrom hr
  have hplain := JsValue.plain_of_json hjson
  have hwitnesses : ∀ w ∈ r.sth.elim [] HeadFields.witnesses, w.json = true := by
    rw [hread.witnesses]
    exact json_listedWitnesses hjson
  have hregisters : ∀ e ∈ r.quote.elim [] QuoteFields.registers, e.2.json = true := by
    rw [hread.registers]
    exact json_quotedRegisters hjson
  have hbody : ∀ q, r.quote = some q → q.body.plain = true :=
    fun q hq => (hread.plain_quote hplain hq).2
  rw [hr, ok_bind, verifyFields, ← hread.witnesses, ← hread.registers]
  constructor
  · rintro ⟨verdict, hverdict⟩
    simp only [bind_eq_ok] at hverdict
    obtain ⟨_, _, _, _, _, _, witnesses, hw, attestation, ha, _⟩ := hverdict
    exact ⟨(verifyWitnesses_iff hcbor hwitnesses).mp ⟨witnesses, hw⟩,
      (verifyAttestation_iff hcbor hregisters hbody).mp ⟨attestation, ha⟩⟩
  · rintro ⟨hw, ha⟩
    have hcore := hread.plain_core hplain
    refine exists_bind (exists_bind (hcbor _ hcore) fun _ _ => ⟨_, rfl⟩) fun _ _ => ?_
    refine exists_bind (verifySignature_ok hcbor hcore ?_) fun _ _ => ?_
    · exact multihashDigest_of_isMultihash (hread.isMultihash hshape)
    refine exists_bind (verifyInclusion_ok hcbor r) fun _ _ => ?_
    refine exists_bind ((verifyWitnesses_iff hcbor hwitnesses).mpr hw) fun _ _ => ?_
    refine exists_bind ((verifyAttestation_iff hcbor hregisters hbody).mpr ha) fun _ _ => ?_
    refine exists_bind (verifyEnclave_ok hcbor ?_) fun _ _ => ⟨_, rfl⟩
    exact fun q hq => (hread.plain_quote hplain hq).1

omit hcbor in
/-- On anything else it resolves. -/
theorem verifier_resolves_of_malformed {receipt : JsValue}
    (hshape : validateReceiptV2Shape receipt ≠ []) (options : VerifyArgsV2) :
    verifyReceiptV2 H A receipt options = .ok malformedVerdict := if_pos hshape

/-- The verifier resolves to a verdict on a value parsed from JSON, except where a well-formed
receipt lists a co-signature that cannot be read or quotes a first malformed register that cannot
be printed. -/
theorem verifier_resolves_iff {receipt : JsValue} (hjson : receipt.json = true)
    (options : VerifyArgsV2) :
    (∃ verdict, verifyReceiptV2 H A receipt options = .ok verdict) ↔
      (validateReceiptV2Shape receipt = [] →
        (∀ w ∈ listedWitnesses receipt, w.readableWitness = true) ∧
          registersReadable H (quotedRegisters receipt) = true) := by
  by_cases hshape : validateReceiptV2Shape receipt = []
  · rw [verifier_resolves_of_valid hcbor hjson hshape, forall_prop_of_true hshape]
  · rw [verifier_resolves_of_malformed hshape]
    exact ⟨fun _ h => absurd h hshape, fun _ => ⟨_, rfl⟩⟩

end

/-! ## Receipts -/

namespace Reference

/-- The reference host with an encoder that takes fractions and infinities too. -/
def totalHost : Host :=
  { host with canonicalCbor := fun v => .ok ((canonicalCbor v).toOption.getD []) }

theorem totalHost_encodes (v : JsValue) (_ : v.plain = true) :
    ∃ b, totalHost.canonicalCbor v = .ok b := ⟨_, rfl⟩

/-- Stand-ins for the hash functions an anchor's operations may name. -/
def anchorHost : Anchor.AnchorHost where
  sha1 data := Cbor.bigEndian 20 (data.foldl (fun acc b => 257 * acc + b.toNat + 1) data.length)
  ripemd160 data :=
    Cbor.bigEndian 20 (data.foldl (fun acc b => 263 * acc + b.toNat + 1) data.length)
  keccak256 := digest
  textDecode b := (readText b).getD ""

end Reference

/-- A well-formed multihash of one repeated digit. -/
def multihashOf (digit : Char) : String :=
  multihashPrefix ++ String.ofList (List.replicate 64 digit)

/-- A well-formed signature block that signs nothing. -/
def emptySignature (keyId : String) : JsValue :=
  .object [("alg", .str "ml-dsa-65+ed25519"), ("key_id", .str keyId), ("ml_dsa", .str "base64:"),
    ("ed25519", .str "base64:")]

/-- A measurement with some members beside its registers. -/
def measuredWith (more : Members) : JsValue :=
  .object ((["mrtd", "rtmr0", "rtmr1", "rtmr2", "rtmr3"].map fun name =>
    (name, .str ("hex:" ++ String.ofList (List.replicate 96 'a')))) ++ more)

/-- A quote of such a measurement. -/
def quotedWith (more : Members) : JsValue :=
  .object [("format", .str "cool.sim.v1"), ("root", .str "cool-sim-root"),
    ("body", .object [("vendor", .str "intel-tdx"), ("measurement", measuredWith more),
      ("report_data", .str (multihashOf 'b')), ("tcb_status", .str "UpToDate"),
      ("app_id", .str "app"), ("instance_id", .str "instance"), ("issued_at", .str "now")]),
    ("signature", .null), ("raw", .null)]

/-- A well-formed receipt that lists some co-signatures and quotes some registers. -/
def openReceipt (witnesses : List JsValue) (registers : Members) : JsValue :=
  .object [("schema", .str "cool.receipt.v2"),
    ("record", .object [("schema", .str "cool.change.v2"),
      ("record_id", .str "01ARZ3NDEKTSV4RRFFQ69G5FAV"),
      ("time", .object [("issued_at", .str "now"), ("seq", .num (.ofInt 0))]),
      ("change", .object [("kind", .str "prompt"), ("ref", .str "billing#system"),
        ("environment", .str "prod"), ("before_hash", .null),
        ("after_hash", .str (multihashOf 'c')), ("after_salt", .str "hex:00"),
        ("diff_hash", .str (multihashOf 'd')),
        ("actor", .object [("id", .str "ci"), ("method", .str "oidc")])]),
      ("runtime", .object [("tee_vendor", .str "none"), ("mode", .str "mock"),
        ("enclave_measurement", .null), ("tee_quote", .null), ("gpu", .null)]),
      ("signature", emptySignature "record")]),
    ("binding_hash", .str (multihashOf 'e')),
    ("inclusion", .object [("leaf_index", .num (.ofInt 0)), ("tree_size", .num (.ofInt 1)),
      ("audit_path", .array [])]),
    ("sth", .object [("log_id", .str "log"), ("tree_size", .num (.ofInt 1)),
      ("root_hash", .str (multihashOf 'f')), ("timestamp", .str "now"),
      ("signature", emptySignature "log"), ("witnesses", .array witnesses)]),
    ("attestation", .object [("mode", .str "mock"), ("note", .str "none"), ("key_binding", .null),
      ("expected_measurement", .null), ("quote", quotedWith registers)]),
    ("anchor", .null),
    ("key_directory", .object [("record", .object [("ml_dsa_pub", .str "base64:"),
      ("ed25519_pub", .str "base64:")])])]

/-- An external co-signature under an id. -/
def cosignedBy (id : JsValue) : JsValue :=
  .object [("id", id), ("external", .bool true)]

theorem verifier_resolves_openReceipt :
    ∃ verdict, verifyReceiptV2 Reference.totalHost Reference.anchorHost
      (openReceipt [cosignedBy (.str "witness"), .num (.ofInt 7)] [("rtmr4", .null)]) {} =
        .ok verdict := by
  refine (verifier_resolves_iff Reference.totalHost_encodes (by decide) {}).mpr fun _ => ?_
  exact ⟨by decide, by decide⟩

/-- The verifier throws at a listed null, at an id that cannot be coerced to a key, and at a
register that cannot be coerced to a text. -/
theorem verifier_throws :
    (validateReceiptV2Shape (openReceipt [.null] []) = [] ∧
      verifyReceiptV2 Reference.totalHost Reference.anchorHost (openReceipt [.null] []) {} =
        .error "Cannot read properties of null (reading 'external')") ∧
    (validateReceiptV2Shape (openReceipt [cosignedBy (.object [("toString", .null)])] []) = [] ∧
      verifyReceiptV2 Reference.totalHost Reference.anchorHost
          (openReceipt [cosignedBy (.object [("toString", .null)])] []) {} =
        .error "Cannot convert object to primitive value") ∧
    validateReceiptV2Shape (openReceipt [] [("rtmr4", .object [("toString", .null)])]) = [] ∧
      verifyReceiptV2 Reference.totalHost Reference.anchorHost
          (openReceipt [] [("rtmr4", .object [("toString", .null)])]) {} =
        .error "Cannot convert object to primitive value" := by
  decide +kernel

end CoolSdk
