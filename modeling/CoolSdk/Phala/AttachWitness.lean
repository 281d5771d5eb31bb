import CoolSdk.Phala.Issued
import CoolSdk.Phala.NeverThrows
import CoolSdk.Phala.Witness
import CoolSdk.Platform.Signing

/-!
# Attaching a witness

Attaching a witness statement appends its co-signature and writes the witness's keys into the key
directory of the receipt. The directory also serves the record, the tree head, the quote and the
co-signatures listed before, and the statement chooses the id that it writes under.
-/

namespace CoolSdk

open JsValue (Members member)

/-- A receipt, with the two members that attaching a witness rewrites apart from the others. -/
structure WitnessableReceipt where
  others : Members
  sth : Option STH
  keyDirectory : KeyDirectory
  apart : ∀ name ∈ others.map Prod.fst, name ≠ "sth" ∧ name ≠ "key_directory"
  json : (JsValue.object others).json = true
  /-- The registers of a quoted measurement are texts. -/
  registers : ∀ e ∈ quotedRegisters (.object others), e.2.printable = true

namespace WitnessableReceipt

def members (r : WitnessableReceipt) : Members :=
  r.others ++ [("sth", nullable toJs r.sth),
    ("key_directory", .object (directoryMembers r.keyDirectory.entries))]

end WitnessableReceipt

instance : ToJs WitnessableReceipt where
  toJs r := .object r.members

/-- Attach a witness statement to a receipt. -/
def attachWitness (receipt : WitnessableReceipt) (statement : WitnessStatement) :
    Except String WitnessableReceipt :=
  match receipt.sth with
  | none => .error "this receipt carries no tree head to witness"
  | some sth =>
    if statement.logId ≠ sth.logId ∨ statement.treeSize ≠ sth.treeSize ∨
        statement.rootHash ≠ sth.rootHash ∨ statement.observedAt ≠ sth.timestamp then
      .error ("witness statement is for " ++ statement.logId ++ "@" ++
        toString statement.treeSize ++ ", this receipt carries " ++ sth.logId ++ "@" ++
        toString sth.treeSize)
    else
      let already := sth.witnesses.any fun w => w.id = statement.witnessId
      let witnesses := if already then sth.witnesses else sth.witnesses ++ [statement.witness]
      let directory := receipt.keyDirectory.set statement.witnessId statement.directoryEntry
      .ok { receipt with sth := some { sth with witnesses }, keyDirectory := directory }

/-- What the verifier reads of a tree head. -/
def STH.fields (s : STH) : HeadFields where
  core := sthCore s
  signature := s.signature
  witnesses := s.witnesses.map toJs

/-! ## What attaching may change -/

section

variable (H : Host) (A : Anchor.AnchorHost)

/-- Attaching a statement only adds to a receipt: the verifier keeps the status of every domain
unless it now finds witnesses, no fewer of them count, and a fresh cosigner is one more. -/
structure OnlyAdds (r : WitnessableReceipt) (s : WitnessStatement) (r' : WitnessableReceipt) :
    Prop where
  checks : ∀ options verdict, verifyReceiptV2 H A (toJs r) options = .ok verdict →
    ∃ verdict', verifyReceiptV2 H A (toJs r') options = .ok verdict' ∧
      (verdict'.checks = verdict.checks ∨
        verdict'.checks = { verdict.checks with witnesses := .pass })
  count : ∀ counts, countWitnesses H (toJs r) = .ok counts →
    ∃ counts', countWitnesses H (toJs r') = .ok counts' ∧ counts.external ≤ counts'.external
  fresh : ∀ sth key, r.sth = some sth → cosign H sth key = .ok s → (localSigner H key).Signs H →
    ¬Cosigned H sth.fields r.keyDirectory.entries (key.keyId, key.directoryEntry) →
    ∀ counts counts', countWitnesses H (toJs r) = .ok counts →
      countWitnesses H (toJs r') = .ok counts' → counts'.external = counts.external + 1

/-- What the verifier checks under the key directory besides the co-signatures: a message and
the signature it must have. -/
inductive ReceiptFields.Checks (f : ReceiptFields) : Bytes → SignatureBlock → Prop
  | record {message}
      (hmessage : recordSigningMessageV2 H f.record.core f.bindingHash = .ok message) :
    f.Checks message f.record.signature
  | head {inclusion head message} (hinclusion : f.inclusion = some inclusion)
      (hhead : f.sth = some head) (hsize : inclusion.treeSize = head.core.treeSize)
      (hindex : inclusion.leafIndex < head.core.treeSize)
      (hroot : reconstructsRoot H f.bindingHash inclusion head.core = .ok true)
      (hmessage : sthSigningMessage H head.core = .ok message) :
    f.Checks message head.signature
  | quote {quote signature message} (hquote : f.quote = some quote)
      (hroot : quote.root = "cool-sim-root") (hsound : checkQuoteStructure H quote = .ok true)
      (hsignature : quote.signature = some signature)
      (hmessage : H.canonicalCbor quote.body = .ok message) :
    f.Checks message signature

/-- The quote a receipt carries is the one its record is about. -/
structure ReceiptFields.Binds (f : ReceiptFields) (quote : QuoteFields) : Prop where
  carried : f.quote = some quote
  digest : ∃ digest, quoteDigest H quote.value = .ok digest ∧ f.record.teeQuote = some digest
  measurement : f.record.enclaveMeasurement = some quote.measurement

/-- The signature of a co-signature, as the verifier reads it. -/
def Witness.block (w : Witness) : SignatureBlock where
  alg := "ml-dsa-65+ed25519"
  keyId := w.id
  mlDsa := w.mlDsa
  ed25519 := w.ed25519

/-- How many of the co-signatures listed under an id claim to be external and verify under what
the directory reads there. -/
def countUnder (message : Bytes) (witnesses : List Witness) (id : String) (key : CarriedKey) :
    Nat :=
  witnesses.countP fun w => decide (w.id = id) && (w.external && key.verifies H message w.block)

/-- A receipt whose shape lacks no more than a key directory. -/
def WitnessableReceipt.FormedApart (r : WitnessableReceipt) : Prop :=
  ∃ directory, validateReceiptV2Shape (toJs { r with keyDirectory := directory }) = []

/-- Whatever the receipt keeps under the witness's id comes out the same under the witness's keys
as under what its directory reads there. -/
structure Harmless (r : WitnessableReceipt) (s : WitnessStatement) : Prop where
  formed : r.FormedApart → (DirectoryFormed r.keyDirectory.entries ↔
    DirectoryFormed (r.keyDirectory.set s.witnessId s.directoryEntry).entries)
  signatures : ∀ f, validateReceiptV2Shape (toJs r) = [] → readReceipt (toJs r) = .ok f →
    ∀ message signature, f.Checks H message signature → signature.keyId = s.witnessId →
      (carriedKey r.keyDirectory.entries s.witnessId).verifies H message signature =
        CarriedKey.verifies H message signature (.entry s.directoryEntry)
  commitment : ∀ f, validateReceiptV2Shape (toJs r) = [] → readReceipt (toJs r) = .ok f →
    ∀ quote, f.Binds H quote → f.record.signature.keyId = s.witnessId →
      ((carriedKey r.keyDirectory.entries s.witnessId).reportData H =
          .ok (some quote.reportData) ↔
        CarriedKey.reportData H (.entry s.directoryEntry) = .ok (some quote.reportData))
  /-- No fewer of the co-signatures listed under the id verify. -/
  listed : ∀ sth message, r.sth = some sth → sthSigningMessage H (sthCore sth) = .ok message →
    countUnder H message sth.witnesses s.witnessId
        (carriedKey r.keyDirectory.entries s.witnessId) ≤
      countUnder H message sth.witnesses s.witnessId (.entry s.directoryEntry)
  /-- Where the id is listed already, a fresh cosigner makes one more of them verify. -/
  fresh : ∀ sth message key, r.sth = some sth →
    sthSigningMessage H (sthCore sth) = .ok message → cosign H sth key = .ok s →
    (localSigner H key).Signs H →
    ¬Cosigned H sth.fields r.keyDirectory.entries (key.keyId, key.directoryEntry) →
    s.witnessId ∈ sth.witnesses.map Witness.id →
    countUnder H message sth.witnesses s.witnessId (.entry s.directoryEntry) =
      countUnder H message sth.witnesses s.witnessId
        (carriedKey r.keyDirectory.entries s.witnessId) + 1

end

variable {H : Host} {A : Anchor.AnchorHost} {r r' : WitnessableReceipt} {s : WitnessStatement}

/-! ## The members of a receipt -/

namespace WitnessableReceipt

theorem member_others (r : WitnessableReceipt) {name : String} (hsth : name ≠ "sth")
    (hdirectory : name ≠ "key_directory") : member r.members name = member r.others name := by
  have hrest : Entries.get [("sth", nullable toJs r.sth),
      ("key_directory", .object (directoryMembers r.keyDirectory.entries))] name = none := by
    simp only [Entries.get, hsth.symm, hdirectory.symm, if_false]
  rw [member, members, Entries.get_append, hrest, Option.or_none]
  rfl

private theorem get_others {name : String} (r : WitnessableReceipt)
    (h : name = "sth" ∨ name = "key_directory") : Entries.get r.others name = none := by
  rw [← Option.not_isSome_iff_eq_none, Entries.get_isSome_iff]
  intro hmem
  obtain ⟨hsth, hdirectory⟩ := r.apart name hmem
  rcases h with h | h
  · exact hsth h
  · exact hdirectory h

theorem member_sth (r : WitnessableReceipt) : member r.members "sth" = nullable toJs r.sth := by
  rw [member, members, Entries.get_append, r.get_others (.inl rfl)]
  rfl

theorem member_keyDirectory (r : WitnessableReceipt) :
    member r.members "key_directory" = .object (directoryMembers r.keyDirectory.entries) := by
  rw [member, members, Entries.get_append, r.get_others (.inr rfl)]
  rfl

/-- The members that attaching leaves alone are read as they were. -/
private theorem read_others {r r₂ : WitnessableReceipt} (h : r₂.others = r.others) {name : String}
    (hsth : name ≠ "sth") (hdirectory : name ≠ "key_directory") :
    (toJs r₂).read name = (toJs r).read name := by
  change Except.ok (member r₂.members name) = Except.ok (member r.members name)
  rw [r₂.member_others hsth hdirectory, r.member_others hsth hdirectory, h]

private theorem read_sth (r : WitnessableReceipt) :
    (toJs r).read "sth" = .ok (nullable toJs r.sth) := congrArg Except.ok r.member_sth

private theorem read_keyDirectory (r : WitnessableReceipt) : (toJs r).read "key_directory" =
    .ok (.object (directoryMembers r.keyDirectory.entries)) :=
  congrArg Except.ok r.member_keyDirectory

private theorem orNull_readHead (sth : Option STH) :
    JsValue.orNull readHead (nullable toJs sth) = .ok (sth.map STH.fields) := by
  cases sth with
  | none => rfl
  | some sth => exact congrArg (Except.map some) (readHead_toJs sth)

/-- Another tree head and another directory are read beside what was read before. -/
theorem readReceipt_toJs {r r₂ : WitnessableReceipt} (hothers : r₂.others = r.others)
    {f : ReceiptFields} (h : readReceipt (toJs r) = .ok f) :
    readReceipt (toJs r₂) = .ok
      { f with sth := r₂.sth.map STH.fields, directory := r₂.keyDirectory.entries } := by
  simp only [readReceipt, read_sth, read_keyDirectory, bind_eq_ok] at h
  obtain ⟨record, ⟨v, hv, hrecord⟩, binding, ⟨b, hb, hbinding⟩, inclusion, ⟨i, hi, hinclusion⟩,
    _, _, attestation, hattestation, expected, ⟨e, he, hexpected⟩, quote, ⟨q, hq, hquote⟩,
    anchor, ⟨a, ha, hanchor⟩, _, _, h⟩ := h
  cases h
  rw [readReceipt, read_others hothers (by decide) (by decide), hv, ok_bind, hrecord, ok_bind,
    read_others hothers (by decide) (by decide), hb, ok_bind, hbinding, ok_bind,
    read_others hothers (by decide) (by decide), hi, ok_bind, hinclusion, ok_bind,
    read_sth, ok_bind, orNull_readHead, ok_bind,
    read_others hothers (by decide) (by decide), hattestation, ok_bind, he, ok_bind, hexpected,
    ok_bind, hq, ok_bind, hquote, ok_bind,
    read_others hothers (by decide) (by decide), ha, ok_bind, hanchor, ok_bind,
    read_keyDirectory, ok_bind, readDirectory_members, ok_bind]
  rfl

theorem fields_of_read {r : WitnessableReceipt} {f : ReceiptFields}
    (h : readReceipt (toJs r) = .ok f) :
    f.sth = r.sth.map STH.fields ∧ f.directory = r.keyDirectory.entries := by
  have hsame := Except.ok.inj (h.symm.trans (readReceipt_toJs rfl h))
  exact ⟨congrArg ReceiptFields.sth hsame, congrArg ReceiptFields.directory hsame⟩

/-! ## The verifier resolves -/

private theorem json_sth (sth : STH) : (toJs sth).json = true := by
  have hwitnesses : JsValue.jsonItems (sth.witnesses.map toJs) = true := by
    rw [JsValue.jsonItems_iff]
    intro v hv
    obtain ⟨w, _, rfl⟩ := List.mem_map.mp hv
    rfl
  change (JsValue.object sth.members).json = true
  rw [JsValue.json, Bool.and_eq_true, decide_eq_true_eq, JsValue.jsonMembers_iff]
  constructor
  · simp [STH.members]
  · simp only [STH.members, List.forall_mem_cons]
    exact ⟨rfl, rfl, rfl, rfl, rfl, hwitnesses, fun e he => absurd he List.not_mem_nil⟩

private theorem json_directory (directory : KeyDirectory) :
    (JsValue.object (directoryMembers directory.entries)).json = true := by
  rw [JsValue.json, Bool.and_eq_true, decide_eq_true_eq, JsValue.jsonMembers_iff]
  constructor
  · rw [directoryMembers, List.map_map]
    exact directory.nodup
  · intro e he
    obtain ⟨d, _, rfl⟩ := List.mem_map.mp he
    rfl

theorem json_toJs (r : WitnessableReceipt) : (toJs r).json = true := by
  have hothers := r.json
  rw [JsValue.json, Bool.and_eq_true, decide_eq_true_eq, JsValue.jsonMembers_iff] at hothers
  change (JsValue.object r.members).json = true
  rw [JsValue.json, Bool.and_eq_true, decide_eq_true_eq, JsValue.jsonMembers_iff]
  constructor
  · rw [members, List.map_append, List.nodup_append]
    refine ⟨hothers.1, by simp, ?_⟩
    rintro name hname name' hname' rfl
    obtain ⟨hsth, hdirectory⟩ := r.apart name hname
    simp [hsth, hdirectory] at hname'
  · intro e he
    rcases List.mem_append.mp he with he | he
    · exact hothers.2 e he
    · rw [List.mem_cons, List.mem_singleton] at he
      rcases he with rfl | rfl
      · cases r.sth with
        | none => rfl
        | some sth => exact json_sth sth
      · exact json_directory r.keyDirectory

private theorem readable_witnesses (r : WitnessableReceipt) :
    ∀ w ∈ listedWitnesses (toJs r), w.readableWitness = true := by
  rw [listedWitnesses, JsValue.dig, List.foldl_cons, r.read_sth]
  cases r.sth with
  | none =>
    intro w hw
    cases hw
  | some sth =>
    have hwitnesses : (toJs sth).read "witnesses" = .ok (.array (sth.witnesses.map toJs)) := by
      simp [toJs, STH.members, JsValue.read, member, Entries.get]
    change ∀ w ∈ (((toJs sth).read "witnesses").toOption.getD .undefined).items.toOption.getD [], _
    rw [hwitnesses]
    intro v hv
    obtain ⟨w, _, rfl⟩ := List.mem_map.mp hv
    have hid : (member [("id", JsValue.str w.id), ("external", .bool w.external),
        ("alg", .str w.alg), ("ml_dsa", .str w.mlDsa), ("ed25519", .str w.ed25519)]
        "id").printable = true := rfl
    change (_ || _) = true
    rw [hid, Bool.or_true]

private theorem quotedRegisters_toJs (r : WitnessableReceipt) :
    quotedRegisters (toJs r) = quotedRegisters (.object r.others) := by
  have hread : (toJs r).read "attestation" = (JsValue.object r.others).read "attestation" :=
    congrArg Except.ok (r.member_others (by decide) (by decide))
  rw [quotedRegisters, quotedRegisters, JsValue.dig, JsValue.dig, List.foldl_cons, hread]
  rfl

/-- The verifier resolves on every receipt of the type. -/
theorem exists_verdict (hcbor : ∀ v, v.plain = true → ∃ b, H.canonicalCbor v = .ok b)
    (A : Anchor.AnchorHost) (r : WitnessableReceipt) (options : VerifyArgsV2) :
    ∃ verdict, verifyReceiptV2 H A (toJs r) options = .ok verdict := by
  by_cases hshape : validateReceiptV2Shape (toJs r) = []
  swap
  · exact ⟨_, verifier_resolves_of_malformed hshape options⟩
  refine (verifier_resolves_of_valid hcbor r.json_toJs hshape options).mpr ?_
  refine ⟨r.readable_witnesses, ?_⟩
  rw [registersReadable, quotedRegisters_toJs, Option.all_eq_true]
  intro e he
  exact r.registers e (List.mem_of_find?_eq_some he)

/-! ## The shape of a receipt -/

theorem keyDirectory_iff {directory : List (String × DirectoryEntry)} :
    Checker.keyDirectory (.object (directoryMembers directory)) = [] ↔
      DirectoryFormed directory := by
  refine ⟨fun h => ?_, keyDirectory_members⟩
  rw [Checker.keyDirectory, Checker.obj, List.append_eq_nil_iff, List.flatMap_eq_nil_iff] at h
  obtain ⟨hempty, hentries⟩ := h
  constructor
  · rintro rfl
    cases hempty
  · intro e he
    have hentry := hentries (e.1, toJs e.2) (List.mem_map_of_mem he)
    change _ ++ _ = [] at hentry
    rw [List.append_eq_nil_iff] at hentry
    obtain ⟨m, hm, _, hmlDsa⟩ := Checker.of_str hentry.1
    obtain ⟨d, hd, _, hed25519⟩ := Checker.of_str hentry.2
    cases hm
    cases hd
    exact ⟨hmlDsa _ rfl, hed25519 _ rfl⟩

/-- The shape of a tree head does not reach its co-signatures. -/
private theorem sth_witnesses (sth : STH) (witnesses : List Witness) :
    Checker.sth (toJs { sth with witnesses }) = Checker.sth (toJs sth) := by
  simp [toJs, STH.members, Checker.sth, Checker.obj, Checker.arr, member, Entries.get]

/-- Other co-signatures and another well-formed directory leave a receipt well formed. -/
private theorem shape_congr {r r₂ : WitnessableReceipt} (hothers : r₂.others = r.others)
    {sth : STH} {witnesses : List Witness} (hsth : r.sth = some sth)
    (hsth₂ : r₂.sth = some { sth with witnesses }) (h : validateReceiptV2Shape (toJs r) = [])
    (hdirectory : DirectoryFormed r₂.keyDirectory.entries) :
    validateReceiptV2Shape (toJs r₂) = [] := by
  have hmember : ∀ name, name ≠ "sth" → name ≠ "key_directory" →
      member r₂.members name = member r.members name := by
    intro name hname hname'
    rw [r₂.member_others hname hname', r.member_others hname hname', hothers]
  have hnull : ∀ s : STH, (toJs s).strictEquals .null = false := fun _ => rfl
  change Checker.obj "(root)" (.object r.members) _ = [] at h
  change Checker.obj "(root)" (.object r₂.members) _ = []
  simp only [Checker.obj, List.append_eq_nil_iff, member_sth, member_keyDirectory, hsth, hsth₂,
    nullable, hnull, sth_witnesses, keyDirectory_iff, Checker.unlessNull,
    hmember "schema" (by decide) (by decide),
    hmember "anchor" (by decide) (by decide),
    hmember "binding_hash" (by decide) (by decide),
    hmember "record" (by decide) (by decide),
    hmember "inclusion" (by decide) (by decide),
    hmember "attestation" (by decide) (by decide)] at h ⊢
  exact ⟨h.1, hdirectory⟩

private theorem directoryFormed_of_shape {r : WitnessableReceipt}
    (h : validateReceiptV2Shape (toJs r) = []) : DirectoryFormed r.keyDirectory.entries := by
  change Checker.obj "(root)" (.object r.members) _ = [] at h
  simp only [Checker.obj, List.append_eq_nil_iff, member_keyDirectory, keyDirectory_iff] at h
  exact h.2

/-- A receipt that carries a tree head is well formed where it is apart from its directory, and
the directory is. -/
theorem shape_iff {r : WitnessableReceipt} (hsth : r.sth ≠ none) :
    validateReceiptV2Shape (toJs r) = [] ↔
      r.FormedApart ∧ DirectoryFormed r.keyDirectory.entries := by
  obtain ⟨sth, hsth⟩ := Option.ne_none_iff_exists'.mp hsth
  constructor
  · intro h
    exact ⟨⟨r.keyDirectory, h⟩, directoryFormed_of_shape h⟩
  · rintro ⟨⟨directory, h⟩, hdirectory⟩
    exact shape_congr (r := { r with keyDirectory := directory }) rfl hsth hsth h hdirectory

end WitnessableReceipt

/-! ## The co-signatures that count -/

section

variable {message : Bytes} {directory : List (String × DirectoryEntry)}

/-- Whether a co-signature claims to be external and verifies under what the directory reads. -/
def Witness.counts (H : Host) (message : Bytes) (directory : List (String × DirectoryEntry))
    (w : Witness) : Bool :=
  w.external && (carriedKey directory w.id).verifies H message w.block

theorem externalWitness_toJs (w : Witness) : externalWitness H directory (toJs w) =
    .ok (if w.external then some (w.id, carriedKey directory w.id, some w.block) else none) := by
  have hexternal : (toJs w).read "external" = .ok (.bool w.external) := by
    simp [toJs, JsValue.read, member, Entries.get]
  have hid : (toJs w).read "id" = .ok (.str w.id) := by
    simp [toJs, JsValue.read, member, Entries.get]
  have hsignature : witnessSignature w.id (toJs w) = .ok (some w.block) := by
    simp only [witnessSignature, toJs, JsValue.read, member, Entries.get, Witness.block]
    rfl
  rw [externalWitness, hexternal, ok_bind]
  cases h : w.external with
  | false => rfl
  | true =>
    rw [hid]
    simp only [JsValue.truthy, Bool.not_true, Bool.false_eq_true, if_false, ok_bind,
      JsValue.toText, hsignature, if_true]
    rfl

private theorem witnessCounts_toJs (w : Witness) :
    witnessCounts H message directory (toJs w) = .ok (w.counts H message directory) := by
  rw [witnessCounts, externalWitness_toJs, ok_bind, Witness.counts]
  cases w.external <;> rfl

/-- The verifier counts these co-signatures. -/
theorem countExternal_fields {sth : STH}
    (hmessage : sthSigningMessage H (sthCore sth) = .ok message) :
    countExternal H sth.fields directory =
      .ok (sth.witnesses.countP (Witness.counts H message directory)) := by
  have hvotes : (sth.witnesses.map toJs).mapM (witnessCounts H message directory) =
      .ok (sth.witnesses.map (Witness.counts H message directory)) :=
    mapM_eq_ok (List.forall₂_map_left_iff.mpr (List.forall₂_map_right_iff.mpr
      (List.forall₂_same.mpr fun w _ => witnessCounts_toJs w)))
  change (sthSigningMessage H (sthCore sth) >>= fun message =>
    (sth.witnesses.map toJs).mapM (witnessCounts H message directory) >>= _) = _
  rw [hmessage, ok_bind, hvotes, ok_bind]
  refine congrArg Except.ok ?_
  rw [List.count, List.countP_map]
  refine List.countP_congr fun w _ => ?_
  simp

/-- The counter counts them too. -/
theorem countWitnesses_toJs {sth : STH} (hsth : r.sth = some sth)
    (hmessage : sthSigningMessage H (sthCore sth) = .ok message) :
    ∃ counts, countWitnesses H (toJs r) = .ok counts ∧ counts.external =
      sth.witnesses.countP (Witness.counts H message r.keyDirectory.entries) := by
  have hhead : (toJs r).read "sth" = .ok (toJs sth) := by
    rw [r.read_sth, hsth]
    rfl
  have hkeys : (toJs r).read "key_directory" >>= readDirectory = .ok r.keyDirectory.entries := by
    rw [r.read_keyDirectory, ok_bind, readDirectory_members]
  have hcarries : CarriesHead (toJs r) sth.fields r.keyDirectory.entries :=
    ⟨by rw [hhead, ok_bind]; exact readHead_toJs sth, hkeys⟩
  have hvote : ∀ v ∈ sth.witnesses.map toJs,
      ∃ vote, witnessVote H message r.keyDirectory.entries v = .ok vote := by
    intro v hv
    obtain ⟨w, _, rfl⟩ := List.mem_map.mp hv
    rw [witnessVote, externalWitness_toJs]
    exact ⟨_, rfl⟩
  obtain ⟨votes, hvotes⟩ := exists_mapM hvote
  have hcounts : ∃ counts, countWitnesses H (toJs r) = .ok counts := by
    rw [countWitnesses, hhead, ok_bind, if_neg (by exact Bool.false_ne_true), readHead_toJs,
      ok_bind, hkeys, ok_bind, hmessage, ok_bind, hvotes]
    exact ⟨_, rfl⟩
  obtain ⟨counts, hcounts⟩ := hcounts
  obtain ⟨cs, hcs, hexternal⟩ := countWitnesses_external hcounts hcarries
  have hlength : countExternal H sth.fields r.keyDirectory.entries = _ :=
    countExternal_fields hmessage
  rw [countExternal_eq, hcs] at hlength
  exact ⟨counts, hcounts, hexternal.trans (Except.ok.inj hlength)⟩

/-- Only what the directory reads under the id that is written changes. -/
theorem carriedKey_set (directory : KeyDirectory) (id : String) (entry : DirectoryEntry)
    (keyId : String) : carriedKey (directory.set id entry).entries keyId =
      if keyId = id then .entry entry else carriedKey directory.entries keyId := by
  have hget : Entries.get (directory.set id entry).entries keyId =
      if id = keyId then some entry else Entries.get directory.entries keyId :=
    directory.get_set id keyId entry
  rw [carriedKey, carriedKey, hget]
  by_cases h : id = keyId
  · rw [if_pos h, if_pos h.symm]
  · rw [if_neg h, if_neg (Ne.symm h)]

/-- Writing an entry makes the difference of what verifies under its id. -/
theorem countP_set (H : Host) (message : Bytes) (directory : KeyDirectory) (id : String)
    (entry : DirectoryEntry) (witnesses : List Witness) :
    witnesses.countP (Witness.counts H message (directory.set id entry).entries) +
        countUnder H message witnesses id (carriedKey directory.entries id) =
      witnesses.countP (Witness.counts H message directory.entries) +
        countUnder H message witnesses id (.entry entry) := by
  induction witnesses with
  | nil => rfl
  | cons w witnesses ih =>
    have hset : w.counts H message (directory.set id entry).entries =
        (w.external && (if w.id = id then CarriedKey.entry entry
          else carriedKey directory.entries w.id).verifies H message w.block) := by
      rw [Witness.counts, carriedKey_set]
    by_cases h : w.id = id
    · have hunder : ∀ key, countUnder H message (w :: witnesses) id key =
          countUnder H message witnesses id key +
            if (w.external && key.verifies H message w.block) = true then 1 else 0 := by
        intro key
        rw [countUnder, List.countP_cons, decide_eq_true h, Bool.true_and]
        rfl
      rw [if_pos h] at hset
      rw [List.countP_cons, List.countP_cons, hunder, hunder, hset, Witness.counts, h]
      omega
    · have hunder : ∀ key, countUnder H message (w :: witnesses) id key =
          countUnder H message witnesses id key := by
        intro key
        apply List.countP_cons_of_neg
        simp [h]
      rw [if_neg h] at hset
      rw [List.countP_cons, List.countP_cons, hunder, hunder, hset, Witness.counts]
      omega

/-- Nothing verifies under an id that is not listed. -/
theorem countUnder_eq_zero {witnesses : List Witness} {id : String}
    (h : id ∉ witnesses.map Witness.id) (key : CarriedKey) :
    countUnder H message witnesses id key = 0 := by
  rw [countUnder, List.countP_eq_zero]
  intro w hw
  have hid : w.id ≠ id := by
    rintro rfl
    exact h (List.mem_map_of_mem hw)
  simp [hid]

end

/-! ## The domains under another directory -/

section

variable {f : ReceiptFields} {head : HeadFields} {witnesses : List JsValue}
  {directory : List (String × DirectoryEntry)} {message : Bytes}

/-- What was read, with other co-signatures and another directory. -/
def ReceiptFields.under (f : ReceiptFields) (head : HeadFields) (witnesses : List JsValue)
    (directory : List (String × DirectoryEntry)) : ReceiptFields :=
  { f with sth := some { head with witnesses }, directory }

private theorem signature_eq
    (hmessage : recordSigningMessageV2 H f.record.core f.bindingHash = .ok message) :
    verifySignatureDomain H f = .ok (if (carriedKey f.directory f.record.signature.keyId).verifies H
      message f.record.signature then .pass else .fail) := by
  rw [verifySignatureDomain]
  cases carriedKey f.directory f.record.signature.keyId with
  | absent => rfl
  | inherited | entry _ => simp only [hmessage, ok_bind] ; rfl

private theorem inclusion_eq {inclusion : Inclusion} (hinclusion : f.inclusion = some inclusion)
    (hhead : f.sth = some head) (hsize : inclusion.treeSize = head.core.treeSize)
    (hindex : inclusion.leafIndex < head.core.treeSize)
    (hroot : reconstructsRoot H f.bindingHash inclusion head.core = .ok true)
    (hmessage : sthSigningMessage H head.core = .ok message) :
    verifyInclusionDomain H f = .ok (if (carriedKey f.directory head.signature.keyId).verifies H
      message head.signature then .pass else .fail) := by
  simp only [verifyInclusionDomain, hinclusion, hhead, hsize, Nat.not_le.mpr hindex, hroot, ne_eq,
    not_true_eq_false, if_false]
  cases carriedKey f.directory head.signature.keyId with
  | absent => rfl
  | inherited | entry _ => simp only [hmessage, ok_bind] ; rfl

private theorem attestation_eq {quote : QuoteFields} {signature : SignatureBlock}
    {options : VerifyArgsV2} (hquote : f.quote = some quote) (hroot : quote.root = "cool-sim-root")
    (hsound : checkQuoteStructure H quote = .ok true)
    (hsignature : quote.signature = some signature)
    (hmessage : H.canonicalCbor quote.body = .ok message)
    (hverifier : options.quoteVerifier = none) :
    verifyAttestationDomain H f options =
      .ok (if (carriedKey f.directory signature.keyId).verifies H message signature then .simulated
        else .fail) := by
  have hstatus : ∀ ok, attestationStatus quote (some { ok, root := "cool-sim-root" }) =
      if ok then .simulated else .fail := by
    intro ok
    cases ok <;> simp [attestationStatus]
  simp only [verifyAttestationDomain, hquote, hsound, ok_bind, chainToRoot, hverifier, hroot,
    simulatedQuoteVerifier, hsignature, if_true]
  cases carriedKey f.directory signature.keyId with
  | absent => rfl
  | inherited | entry _ =>
    simp only [hmessage, ok_bind]
    exact congrArg Except.ok (hstatus _)

/-- Where the audit path leads elsewhere the directory does not reach the inclusion. -/
private theorem inclusion_under (hhead : f.sth = some head)
    (h : ∀ inclusion, f.inclusion = some inclusion → inclusion.treeSize = head.core.treeSize →
      inclusion.leafIndex < head.core.treeSize →
      reconstructsRoot H f.bindingHash inclusion head.core ≠ .ok true) :
    verifyInclusionDomain H (f.under head witnesses directory) = verifyInclusionDomain H f := by
  rw [verifyInclusionDomain, verifyInclusionDomain]
  simp only [ReceiptFields.under, hhead]
  cases hinclusion : f.inclusion with
  | none => rfl
  | some inclusion =>
    by_cases hsize : inclusion.treeSize = head.core.treeSize
    · by_cases hindex : head.core.treeSize ≤ inclusion.leafIndex
      · simp only [hsize, hindex, ne_eq, not_true_eq_false, if_false, if_true]
      · have hroot := h inclusion hinclusion hsize (Nat.not_le.mp hindex)
        simp only [hsize, hindex, ne_eq, not_true_eq_false, if_false]
        split
        · rfl
        · rfl
        · rename_i hpath
          exact absurd hpath hroot
    · simp only [ne_eq, hsize, not_false_eq_true, if_true]

/-- Without the built-in checker of quotes the directory does not reach the attestation. -/
private theorem attestation_under {options : VerifyArgsV2}
    (h : ∀ quote signature, f.quote = some quote → quote.root = "cool-sim-root" →
      checkQuoteStructure H quote = .ok true → quote.signature = some signature →
      options.quoteVerifier ≠ none) :
    verifyAttestationDomain H (f.under head witnesses directory) options =
      verifyAttestationDomain H f options := by
  have hfields : (f.under head witnesses directory).quote = f.quote := rfl
  rw [verifyAttestationDomain, verifyAttestationDomain, hfields]
  cases hquote : f.quote with
  | none => rfl
  | some quote =>
    cases hsound : checkQuoteStructure H quote with
    | error e =>
      simp only [hsound]
      rfl
    | ok sound =>
      cases sound with
      | false =>
        simp only [hsound]
        rfl
      | true =>
        have hchain : chainToRoot H (f.under head witnesses directory) options quote =
            chainToRoot H f options quote := by
          rw [chainToRoot, chainToRoot]
          cases hverifier : options.quoteVerifier with
          | some verify => rfl
          | none =>
            by_cases hroot : quote.root = "cool-sim-root"
            · cases hsignature : quote.signature with
              | some signature =>
                exact absurd hverifier (h quote signature hquote hroot hsound hsignature)
              | none => simp only [simulatedQuoteVerifier, hsignature]
            · simp only [hroot, if_false]
        simp only [hchain]

variable (witnesses directory) in
/-- The domains that a directory reaches come out the same under another one exactly where every
signature that is checked does. -/
private theorem domains_under_iff (hhead : f.sth = some head)
    (hrecord : ∃ message, recordSigningMessageV2 H f.record.core f.bindingHash = .ok message)
    (htree : ∃ message, sthSigningMessage H head.core = .ok message)
    (hbody : ∀ quote, f.quote = some quote → ∃ message, H.canonicalCbor quote.body = .ok message) :
    (verifySignatureDomain H (f.under head witnesses directory) = verifySignatureDomain H f ∧
      verifyInclusionDomain H (f.under head witnesses directory) = verifyInclusionDomain H f ∧
      ∀ options, verifyAttestationDomain H (f.under head witnesses directory) options =
        verifyAttestationDomain H f options) ↔
    ∀ message signature, f.Checks H message signature →
      (carriedKey f.directory signature.keyId).verifies H message signature =
        (carriedKey directory signature.keyId).verifies H message signature := by
  have hif : ∀ (s t : DomainStatusV2) (a b : Bool), s ≠ t →
      ((Except.ok (if b then s else t) : Except String DomainStatusV2) =
        .ok (if a then s else t) ↔ a = b) := by
    intro s t a b hne
    cases a <;> cases b <;> simp [hne, hne.symm]
  constructor
  · rintro ⟨hsignature, hinclusion, hattestation⟩ message signature hchecks
    cases hchecks with
    | record hmessage =>
      rw [signature_eq (f := f.under head witnesses directory) hmessage,
        signature_eq hmessage] at hsignature
      exact (hif _ _ _ _ (by decide)).mp hsignature
    | head hinc hhead' hsize hindex hroot hmessage =>
      cases hhead.symm.trans hhead'
      rw [inclusion_eq (f := f.under head witnesses directory) hinc rfl hsize hindex hroot hmessage,
        inclusion_eq hinc hhead hsize hindex hroot hmessage] at hinclusion
      exact (hif _ _ _ _ (by decide)).mp hinclusion
    | quote hquote hroot hsound hsig hmessage =>
      have hstatus := hattestation {}
      rw [attestation_eq (f := f.under head witnesses directory) hquote hroot hsound hsig hmessage
          rfl,
        attestation_eq hquote hroot hsound hsig hmessage rfl] at hstatus
      exact (hif _ _ _ _ (by decide)).mp hstatus
  · intro hsame
    refine ⟨?_, ?_, fun options => ?_⟩
    · obtain ⟨message, hmessage⟩ := hrecord
      rw [signature_eq (f := f.under head witnesses directory) hmessage,
        signature_eq hmessage]
      exact (hif _ _ _ _ (by decide)).mpr (hsame _ _ (.record hmessage))
    · by_cases hpath : ∃ inclusion, f.inclusion = some inclusion ∧
          inclusion.treeSize = head.core.treeSize ∧ inclusion.leafIndex < head.core.treeSize ∧
          reconstructsRoot H f.bindingHash inclusion head.core = .ok true
      · obtain ⟨inclusion, hinc, hsize, hindex, hroot⟩ := hpath
        obtain ⟨message, hmessage⟩ := htree
        rw [inclusion_eq (f := f.under head witnesses directory) hinc rfl hsize hindex hroot
            hmessage,
          inclusion_eq hinc hhead hsize hindex hroot hmessage]
        have hsignature := hsame _ _ (.head hinc hhead hsize hindex hroot hmessage)
        exact (hif _ _ _ _ (by decide)).mpr hsignature
      · apply inclusion_under hhead
        intro inclusion hinc hsize hindex hroot
        exact hpath ⟨inclusion, hinc, hsize, hindex, hroot⟩
    · by_cases hbuiltIn : ∃ quote signature, f.quote = some quote ∧ quote.root = "cool-sim-root" ∧
          checkQuoteStructure H quote = .ok true ∧ quote.signature = some signature ∧
          options.quoteVerifier = none
      · obtain ⟨quote, signature, hquote, hroot, hsound, hsig, hverifier⟩ := hbuiltIn
        obtain ⟨message, hmessage⟩ := hbody quote hquote
        rw [attestation_eq (f := f.under head witnesses directory) hquote hroot hsound hsig
            hmessage hverifier,
          attestation_eq hquote hroot hsound hsig hmessage hverifier]
        exact (hif _ _ _ _ (by decide)).mpr (hsame _ _ (.quote hquote hroot hsound hsig hmessage))
      · apply attestation_under
        intro quote signature hquote hroot hsound hsig hverifier
        exact hbuiltIn ⟨quote, signature, hquote, hroot, hsound, hsig, hverifier⟩

/-- The verdict on a quote that the record is about turns on the commitment to the record's key. -/
private theorem enclave_eq {quote : QuoteFields} {options : VerifyArgsV2}
    {attestation : DomainStatusV2} {expected : Option Multihash} (h : f.Binds H quote)
    (hexpected : (carriedKey f.directory f.record.signature.keyId).reportData H = .ok expected) :
    verifyEnclaveDomain H f options attestation = .ok
      (if expected ≠ some quote.reportData then .fail
      else if (pinnedMeasurement f options).any fun pin => pin ≠ quote.measurement then .fail
      else if options.requireHardware && decide (attestation ≠ .pass) then .fail
      else if attestation = .simulated then .simulated else .pass) := by
  obtain ⟨digest, hdigest, htee⟩ := h.digest
  simp only [verifyEnclaveDomain, h.carried, htee, hdigest, h.measurement, hexpected, ok_bind,
    ne_eq, not_true_eq_false, if_false]
  split
  · rfl
  · split
    · rfl
    · split <;> rfl

variable (head witnesses directory) in
/-- The directory reaches the enclave through the commitment to the record's key alone. -/
private theorem enclave_under (hreport : ∀ key : CarriedKey, ∃ d, key.reportData H = .ok d)
    (h : ∀ quote, f.Binds H quote →
      ((carriedKey f.directory f.record.signature.keyId).reportData H =
          .ok (some quote.reportData) ↔
        (carriedKey directory f.record.signature.keyId).reportData H =
          .ok (some quote.reportData)))
    (options : VerifyArgsV2) (attestation : DomainStatusV2) :
    verifyEnclaveDomain H (f.under head witnesses directory) options attestation =
      verifyEnclaveDomain H f options attestation := by
  by_cases hbinds : ∃ quote, f.Binds H quote
  · obtain ⟨quote, hbinds⟩ := hbinds
    obtain ⟨old, hold⟩ := hreport (carriedKey f.directory f.record.signature.keyId)
    obtain ⟨new, hnew⟩ := hreport (carriedKey directory f.record.signature.keyId)
    have hiff := h quote hbinds
    rw [hold, hnew, Except.ok.injEq, Except.ok.injEq] at hiff
    rw [enclave_eq (f := f.under head witnesses directory) ⟨hbinds.carried, hbinds.digest,
      hbinds.measurement⟩ hnew, enclave_eq hbinds hold]
    simp only [ne_eq, hiff]
    rfl
  · rw [verifyEnclaveDomain, verifyEnclaveDomain]
    simp only [ReceiptFields.under]
    cases hquote : f.quote with
    | none => rfl
    | some quote =>
      cases htee : f.record.teeQuote with
      | none => rfl
      | some tee =>
        cases hdigest : quoteDigest H quote.value with
        | error e =>
          simp only [hdigest]
          rfl
        | ok digest =>
          by_cases hdigests : digest = tee
          · by_cases hmeasurement : f.record.enclaveMeasurement = some quote.measurement
            · subst hdigests
              exact absurd ⟨quote, hquote, ⟨digest, hdigest, htee⟩, hmeasurement⟩ hbinds
            · simp only [hdigests, hmeasurement, hdigest, ok_bind, ne_eq, not_false_eq_true,
                not_true_eq_false, if_true, if_false]
          · simp only [hdigests, hdigest, ok_bind, ne_eq, not_false_eq_true, if_true]

/-- A reader who pins the quoted measurement sees whether the record's key is the committed one. -/
private theorem commitment_of_enclave {quote : QuoteFields} {attestation : DomainStatusV2}
    (hreport : ∀ key : CarriedKey, ∃ d, key.reportData H = .ok d) (hbinds : f.Binds H quote)
    (h : verifyEnclaveDomain H (f.under head witnesses directory)
        { expectedMeasurement := some quote.measurement } attestation =
      verifyEnclaveDomain H f { expectedMeasurement := some quote.measurement } attestation) :
    (carriedKey f.directory f.record.signature.keyId).reportData H = .ok (some quote.reportData) ↔
      (carriedKey directory f.record.signature.keyId).reportData H =
        .ok (some quote.reportData) := by
  obtain ⟨old, hold⟩ := hreport (carriedKey f.directory f.record.signature.keyId)
  obtain ⟨new, hnew⟩ := hreport (carriedKey directory f.record.signature.keyId)
  rw [enclave_eq (f := f.under head witnesses directory) ⟨hbinds.carried, hbinds.digest,
    hbinds.measurement⟩ hnew, enclave_eq hbinds hold, Except.ok.injEq] at h
  rw [hold, hnew, Except.ok.injEq, Except.ok.injEq]
  by_cases ho : old = some quote.reportData
  · by_cases hn : new = some quote.reportData
    · exact iff_of_true ho hn
    · simp only [ho, hn, pinnedMeasurement, Option.some_or, Option.any_some, ne_eq,
        not_true_eq_false, not_false_eq_true, decide_false, Bool.false_and, Bool.false_eq_true,
        if_true, if_false] at h
      split at h <;> cases h
  · by_cases hn : new = some quote.reportData
    · simp only [ho, hn, pinnedMeasurement, Option.some_or, Option.any_some, ne_eq,
        not_true_eq_false, not_false_eq_true, decide_false, Bool.false_and, Bool.false_eq_true,
        if_true, if_false] at h
      split at h <;> cases h
    · exact iff_of_false ho hn

end

/-! ## What attaching does -/

/-- A receipt after a statement about its tree head was attached. -/
structure Attached (r : WitnessableReceipt) (s : WitnessStatement) (sth : STH)
    (witnesses : List Witness) (r' : WitnessableReceipt) : Prop where
  before : r.sth = some sth
  others : r'.others = r.others
  head : r'.sth = some { sth with witnesses }
  keyDirectory : r'.keyDirectory = r.keyDirectory.set s.witnessId s.directoryEntry
  listed : witnesses =
    if s.witnessId ∈ sth.witnesses.map Witness.id then sth.witnesses
    else sth.witnesses ++ [s.witness]

theorem attached_of_attachWitness (h : attachWitness r s = .ok r') :
    ∃ sth witnesses, Attached r s sth witnesses r' := by
  rw [attachWitness] at h
  cases hsth : r.sth with
  | none =>
    simp only [hsth] at h
    cases h
  | some sth =>
    simp only [hsth] at h
    split at h
    · cases h
    · cases h
      refine ⟨sth, _, hsth, rfl, rfl, rfl, ?_⟩
      have halready : (sth.witnesses.any fun w => w.id = s.witnessId) = true ↔
          s.witnessId ∈ sth.witnesses.map Witness.id := by
        simp [List.any_eq_true, List.mem_map]
      by_cases hlisted : s.witnessId ∈ sth.witnesses.map Witness.id
      · rw [if_pos hlisted, if_pos (halready.mpr hlisted)]
      · rw [if_neg hlisted, if_neg (mt halready.mp hlisted)]

/-! ## The verdicts before and after -/

/-- What a verdict on a well-formed receipt was computed from. -/
structure VerdictV2.Over (H : Host) (A : Anchor.AnchorHost) (f : ReceiptFields)
    (options : VerifyArgsV2) (v : VerdictV2) : Prop where
  binding : ∃ recomputed, bindingHashV2 H f.record.core = .ok recomputed ∧
    v.checks.binding = if recomputed = f.bindingHash then .pass else .fail
  signature : verifySignatureDomain H f = .ok v.checks.signature
  inclusion : verifyInclusionDomain H f = .ok v.checks.inclusion
  witnesses : verifyWitnessesDomain H f (options.witnessThreshold.getD (.ofInt 0)) =
    .ok v.checks.witnesses
  attestation : verifyAttestationDomain H f options = .ok v.checks.attestation
  enclave : verifyEnclaveDomain H f options v.checks.attestation = .ok v.checks.enclave
  anchor : v.checks.anchor = verifyAnchorDomain H A f options

theorem verdict_over {receipt : JsValue} {f : ReceiptFields} {options : VerifyArgsV2}
    {v : VerdictV2} (hshape : validateReceiptV2Shape receipt = [])
    (hf : readReceipt receipt = .ok f)
    (h : verifyReceiptV2 H A receipt options = .ok v) : v.Over H A f options := by
  rw [verifyReceiptV2, if_neg (not_not_intro hshape), hf, ok_bind] at h
  simp only [verifyFields, bind_eq_ok] at h
  obtain ⟨recomputed, hrecomputed, signature, hsignature, inclusion, hinclusion, witnesses,
    hwitnesses, attestation, hattestation, enclave, henclave, h⟩ := h
  cases h
  exact ⟨⟨recomputed, hrecomputed, rfl⟩, hsignature, hinclusion, hwitnesses, hattestation, henclave,
    rfl⟩

/-- More co-signatures that count pass every threshold that fewer pass. -/
private theorem witnesses_mono {sth sth' : STH} {f f' : ReceiptFields} {message : Bytes}
    {t : JsNumber} {status status' : DomainStatusV2} (hsth : f.sth = some sth.fields)
    (hsth' : f'.sth = some sth'.fields)
    (hmessage : sthSigningMessage H (sthCore sth) = .ok message)
    (hmessage' : sthSigningMessage H (sthCore sth') = .ok message)
    (h : verifyWitnessesDomain H f t = .ok status) (h' : verifyWitnessesDomain H f' t = .ok status')
    (hle : sth.witnesses.countP (Witness.counts H message f.directory) ≤
      sth'.witnesses.countP (Witness.counts H message f'.directory)) :
    status' = status ∨ status' = .pass := by
  rw [verifyWitnessesDomain, hsth] at h
  rw [verifyWitnessesDomain, hsth'] at h'
  simp only [countExternal_fields hmessage, ok_bind] at h
  simp only [countExternal_fields hmessage', ok_bind] at h'
  cases h
  cases h'
  by_cases hpass : (t.max (.ofInt 1)).le
      (.ofInt (sth.witnesses.countP (Witness.counts H message f.directory))) = true
  · have hcounts :
        (JsNumber.ofInt (sth.witnesses.countP (Witness.counts H message f.directory))).le
        (.ofInt (sth'.witnesses.countP (Witness.counts H message f'.directory))) = true := by
      simpa using hle
    exact .inr (if_pos (JsNumber.le_trans hpass hcounts))
  · rw [if_neg hpass]
    split
    · exact .inr rfl
    · exact .inl rfl

section

variable {sth : STH} {witnesses : List Witness}

/-- Attaching changes what is read of a receipt in two places. -/
theorem Attached.read (h : Attached r s sth witnesses r') {f : ReceiptFields}
    (hf : readReceipt (toJs r) = .ok f) : readReceipt (toJs r') = .ok
      (f.under sth.fields (witnesses.map toJs)
        (r.keyDirectory.set s.witnessId s.directoryEntry).entries) := by
  have hread := WitnessableReceipt.readReceipt_toJs h.others hf
  rw [h.head, h.keyDirectory] at hread
  exact hread

/-- Attaching does not reach the shape of a receipt but through its directory. -/
theorem Attached.formedApart_iff (h : Attached r s sth witnesses r') :
    r'.FormedApart ↔ r.FormedApart := by
  constructor
  · rintro ⟨directory, hshape⟩
    have hdirectory := WitnessableReceipt.directoryFormed_of_shape hshape
    exact ⟨directory, WitnessableReceipt.shape_congr (r := { r' with keyDirectory := directory })
      h.others.symm h.head h.before hshape hdirectory⟩
  · rintro ⟨directory, hshape⟩
    have hdirectory := WitnessableReceipt.directoryFormed_of_shape hshape
    exact ⟨directory, WitnessableReceipt.shape_congr (r := { r with keyDirectory := directory })
      h.others h.before h.head hshape hdirectory⟩

theorem Attached.shape_iff (h : Attached r s sth witnesses r') :
    validateReceiptV2Shape (toJs r') = [] ↔ r.FormedApart ∧
      DirectoryFormed (r.keyDirectory.set s.witnessId s.directoryEntry).entries := by
  have hsth : r'.sth ≠ none := by
    rw [h.head]
    exact Option.some_ne_none _
  rw [WitnessableReceipt.shape_iff hsth, h.formedApart_iff, h.keyDirectory]

/-- How many co-signatures count after attaching, against how many did before. -/
private theorem Attached.countP (h : Attached r s sth witnesses r') (message : Bytes) :
    s.witnessId ∈ sth.witnesses.map Witness.id ∧
        witnesses.countP (Witness.counts H message r'.keyDirectory.entries) +
            countUnder H message sth.witnesses s.witnessId
              (carriedKey r.keyDirectory.entries s.witnessId) =
          sth.witnesses.countP (Witness.counts H message r.keyDirectory.entries) +
            countUnder H message sth.witnesses s.witnessId (.entry s.directoryEntry) ∨
      s.witnessId ∉ sth.witnesses.map Witness.id ∧
        witnesses.countP (Witness.counts H message r'.keyDirectory.entries) =
          sth.witnesses.countP (Witness.counts H message r.keyDirectory.entries) +
            if s.witness.counts H message r'.keyDirectory.entries then 1 else 0 := by
  have hset := countP_set H message r.keyDirectory s.witnessId s.directoryEntry
    sth.witnesses
  have hlisted := h.listed
  rw [h.keyDirectory]
  by_cases hid : s.witnessId ∈ sth.witnesses.map Witness.id
  · rw [if_pos hid] at hlisted
    rw [hlisted]
    exact .inl ⟨hid, hset⟩
  · rw [if_neg hid] at hlisted
    rw [countUnder_eq_zero hid, countUnder_eq_zero hid] at hset
    rw [hlisted, List.countP_append, List.countP_singleton]
    exact .inr ⟨hid, by omega⟩

/-- The statement of a cosigner carries a co-signature that counts under its entry. -/
private theorem counts_of_cosign {key : KeyPair} {message : Bytes}
    {directory : List (String × DirectoryEntry)}
    (hmessage : sthSigningMessage H (sthCore sth) = .ok message) (h : cosign H sth key = .ok s)
    (hkey : (localSigner H key).Signs H)
    (hdirectory : carriedKey directory s.witnessId = .entry s.directoryEntry) :
    s.witness.counts H message directory = true := by
  rw [cosign, hmessage, ok_bind] at h
  cases h
  have hblock : (⟨"ml-dsa-65+ed25519", key.keyId, (H.hybridSign message key).mlDsa,
      (H.hybridSign message key).ed25519⟩ : SignatureBlock) = H.hybridSign message key := by
    have halg : (H.hybridSign message key).alg = "ml-dsa-65+ed25519" := hkey.alg message
    have hid : (H.hybridSign message key).keyId = key.keyId := hkey.keyId message
    rw [← halg, ← hid]
  change (carriedKey directory key.keyId).verifies H message
    ⟨"ml-dsa-65+ed25519", key.keyId, (H.hybridSign message key).mlDsa,
      (H.hybridSign message key).ed25519⟩ = true
  rw [hdirectory, hblock]
  exact hkey.verifies message

-- what the verifier relies on of the encoder: it encodes plain data
variable (hcbor : ∀ v, v.plain = true → ∃ b, H.canonicalCbor v = .ok b)

include hcbor

private theorem exists_messages {f : ReceiptFields} (hshape : validateReceiptV2Shape (toJs r) = [])
    (hf : readReceipt (toJs r) = .ok f) :
    (∃ message, recordSigningMessageV2 H f.record.core f.bindingHash = .ok message) ∧
      ∀ quote, f.quote = some quote → ∃ message, H.canonicalCbor quote.body = .ok message := by
  have hread := readReceipt_readFrom hf
  have hplain := JsValue.plain_of_json r.json_toJs
  constructor
  · apply exists_recordSigningMessage hcbor (hread.plain_core hplain)
    exact multihashDigest_of_isMultihash (hread.isMultihash hshape)
  · intro quote hquote
    exact hcbor _ (hread.plain_quote hplain hquote).2

/-- The verdicts on a well-formed receipt before and after, where every signature and commitment
under the id comes out the same and no fewer co-signatures count. -/
private theorem checks_kept (h : Attached r s sth witnesses r') {f : ReceiptFields}
    {options : VerifyArgsV2} {v v' : VerdictV2} {message : Bytes}
    (hshape : validateReceiptV2Shape (toJs r) = []) (hf : readReceipt (toJs r) = .ok f)
    (hmessage : sthSigningMessage H (sthCore sth) = .ok message) (hharmless : Harmless H r s)
    (hv : v.Over H A f options)
    (hv' : v'.Over H A (f.under sth.fields (witnesses.map toJs) r'.keyDirectory.entries) options)
    (hle : sth.witnesses.countP (Witness.counts H message r.keyDirectory.entries) ≤
      witnesses.countP (Witness.counts H message r'.keyDirectory.entries)) :
    v'.checks = v.checks ∨ v'.checks = { v.checks with witnesses := .pass } := by
  obtain ⟨hsth, hdirectory⟩ := WitnessableReceipt.fields_of_read hf
  rw [h.before, Option.map_some] at hsth
  obtain ⟨hrecord, hbody⟩ := exists_messages hcbor hshape hf
  have hkey : ∀ id, carriedKey r'.keyDirectory.entries id =
      if id = s.witnessId then .entry s.directoryEntry else carriedKey f.directory id := by
    intro id
    rw [h.keyDirectory, carriedKey_set, hdirectory]
  obtain ⟨hsignature, hinclusion, hattestation⟩ := (domains_under_iff
    (witnesses.map toJs) r'.keyDirectory.entries hsth hrecord ⟨message, hmessage⟩ hbody).mpr (by
      intro m signature hchecks
      rw [hkey]
      by_cases hid : signature.keyId = s.witnessId
      · rw [if_pos hid, hid, hdirectory]
        exact hharmless.signatures f hshape hf m signature hchecks hid
      · rw [if_neg hid])
  have henclave := enclave_under (f := f) sth.fields (witnesses.map toJs) r'.keyDirectory.entries
    (CarriedKey.exists_reportData hcbor) (by
      intro quote hbinds
      rw [hkey]
      by_cases hid : f.record.signature.keyId = s.witnessId
      · rw [if_pos hid, hid, hdirectory]
        exact hharmless.commitment f hshape hf quote hbinds hid
      · rw [if_neg hid]) options
  have hs := Except.ok.inj (hv'.signature.symm.trans (hsignature.trans hv.signature))
  have hi := Except.ok.inj (hv'.inclusion.symm.trans (hinclusion.trans hv.inclusion))
  have ha := Except.ok.inj
    (hv'.attestation.symm.trans ((hattestation options).trans hv.attestation))
  have he : v'.checks.enclave = v.checks.enclave := by
    have henclave' := hv'.enclave
    rw [ha, henclave, hv.enclave] at henclave'
    exact (Except.ok.inj henclave').symm
  have hb : v'.checks.binding = v.checks.binding := by
    obtain ⟨recomputed, hrecomputed, hbinding⟩ := hv.binding
    obtain ⟨recomputed', hrecomputed', hbinding'⟩ := hv'.binding
    cases hrecomputed.symm.trans hrecomputed'
    exact hbinding'.trans hbinding.symm
  have hanchor : v'.checks.anchor = v.checks.anchor := by
    rw [hv'.anchor, hv.anchor, verifyAnchorDomain, verifyAnchorDomain, hsth]
    rfl
  rw [← hdirectory] at hle
  have hunder : (f.under sth.fields (witnesses.map toJs) r'.keyDirectory.entries).sth =
      some (STH.fields { sth with witnesses }) := rfl
  have hw := witnesses_mono hsth hunder hmessage hmessage hv.witnesses hv'.witnesses hle
  have hchecks : v'.checks = { v.checks with witnesses := v'.checks.witnesses } := by
    change v'.checks = ⟨v.checks.binding, v.checks.signature, v.checks.inclusion,
      v'.checks.witnesses, v.checks.attestation, v.checks.enclave, v.checks.anchor⟩
    rw [← hb, ← hs, ← hi, ← ha, ← he, ← hanchor]
  rcases hw with hw | hw
  · rw [hw] at hchecks
    exact .inl hchecks
  · rw [hw] at hchecks
    exact .inr hchecks

/-- A statement under an id that keeps nothing else is only added. -/
private theorem onlyAdds_of_harmless (h : Attached r s sth witnesses r')
    (hharmless : Harmless H r s) (A : Anchor.AnchorHost) : OnlyAdds H A r s r' := by
  obtain ⟨message, hmessage⟩ : ∃ message, sthSigningMessage H (sthCore sth) = .ok message :=
    hcbor _ rfl
  obtain ⟨counts, hcounts, hexternal⟩ := countWitnesses_toJs h.before hmessage
  obtain ⟨counts', hcounts', hexternal'⟩ :=
    countWitnesses_toJs (r := r') h.head hmessage
  have hle : sth.witnesses.countP (Witness.counts H message r.keyDirectory.entries) ≤
      witnesses.countP (Witness.counts H message r'.keyDirectory.entries) := by
    have hlisted := hharmless.listed sth message h.before hmessage
    rcases h.countP (H := H) message with ⟨_, hcount⟩ | ⟨_, hcount⟩
    · omega
    · omega
  refine ⟨?_, ?_, ?_⟩
  · intro options verdict hv
    obtain ⟨verdict', hv'⟩ := r'.exists_verdict hcbor A options
    refine ⟨verdict', hv', ?_⟩
    have hsth : r.sth ≠ none := by
      rw [h.before]
      exact Option.some_ne_none _
    have hshapes :
        validateReceiptV2Shape (toJs r') = [] ↔ validateReceiptV2Shape (toJs r) = [] := by
      rw [h.shape_iff, WitnessableReceipt.shape_iff hsth]
      exact and_congr_right fun hformed => (hharmless.formed hformed).symm
    by_cases hshape : validateReceiptV2Shape (toJs r) = []
    · obtain ⟨f, hf⟩ := readReceipt_of_valid hshape
      have hf' := h.read hf
      rw [← h.keyDirectory] at hf'
      exact checks_kept hcbor h hshape hf hmessage hharmless (verdict_over hshape hf hv)
        (verdict_over (hshapes.mpr hshape) hf' hv') hle
    · rw [verifyReceiptV2, if_pos hshape] at hv
      rw [verifyReceiptV2, if_pos (mt hshapes.mp hshape)] at hv'
      cases hv
      cases hv'
      exact .inl rfl
  · intro before hbefore
    cases hcounts.symm.trans hbefore
    exact ⟨counts', hcounts', by rw [hexternal, hexternal']; exact hle⟩
  · intro head key hhead hcosign hkey hfresh before after hbefore hafter
    cases h.before.symm.trans hhead
    cases hcounts.symm.trans hbefore
    cases hcounts'.symm.trans hafter
    rw [hexternal, hexternal']
    rcases h.countP (H := H) message with ⟨hid, hcount⟩ | ⟨_, hcount⟩
    · have hmore := hharmless.fresh sth message key h.before hmessage hcosign hkey hfresh hid
      change witnesses.countP _ = _
      omega
    · have hread : carriedKey r'.keyDirectory.entries s.witnessId = .entry s.directoryEntry := by
        rw [h.keyDirectory, carriedKey_set, if_pos rfl]
      rw [if_pos (counts_of_cosign hmessage hcosign hkey hread)] at hcount
      exact hcount

omit hcbor in
/-- A checker of quotes that accepts none tells a well-formed receipt from a malformed one. -/
private theorem attestation_absent_iff {receipt : JsValue} {v : VerdictV2}
    (h : verifyReceiptV2 H A receipt
      { quoteVerifier := some fun _ => { ok := false, root := "none" } } = .ok v) :
    v.checks.attestation = .absent ↔ validateReceiptV2Shape receipt ≠ [] := by
  by_cases hshape : validateReceiptV2Shape receipt = []
  · obtain ⟨f, hf⟩ := readReceipt_of_valid hshape
    have hstatus := (verdict_over hshape hf h).attestation
    refine iff_of_false ?_ (not_not_intro hshape)
    intro habsent
    rw [habsent, verifyAttestationDomain] at hstatus
    cases hquote : f.quote with
    | none =>
      simp only [hquote] at hstatus
      cases hstatus
    | some quote =>
      simp only [hquote, chainToRoot, ok_bind] at hstatus
      obtain ⟨sound, _, hstatus⟩ := bind_eq_ok.mp hstatus
      cases sound <;> cases hstatus
  · rw [verifyReceiptV2, if_pos hshape] at h
    cases h
    exact iff_of_true rfl hshape

/-- A statement that is only added keeps everything else. -/
private theorem harmless_of_onlyAdds (h : Attached r s sth witnesses r') {A : Anchor.AnchorHost}
    (hadds : OnlyAdds H A r s r') : Harmless H r s := by
  obtain ⟨message, hmessage⟩ : ∃ message, sthSigningMessage H (sthCore sth) = .ok message :=
    hcbor _ rfl
  obtain ⟨counts, hcounts, hexternal⟩ := countWitnesses_toJs h.before hmessage
  obtain ⟨counts', hcounts', hexternal'⟩ :=
    countWitnesses_toJs (r := r') h.head hmessage
  have hsth : r.sth ≠ none := by
    rw [h.before]
    exact Option.some_ne_none _
  -- every domain but the witnesses is kept, under all options
  have hkept : ∀ options, ∃ v v', verifyReceiptV2 H A (toJs r) options = .ok v ∧
      verifyReceiptV2 H A (toJs r') options = .ok v' ∧
      v'.checks.signature = v.checks.signature ∧ v'.checks.inclusion = v.checks.inclusion ∧
      v'.checks.attestation = v.checks.attestation ∧ v'.checks.enclave = v.checks.enclave := by
    intro options
    obtain ⟨v, hv⟩ := r.exists_verdict hcbor A options
    obtain ⟨v', hv', hchecks⟩ := hadds.checks options v hv
    refine ⟨v, v', hv, hv', ?_⟩
    rcases hchecks with hchecks | hchecks <;> rw [hchecks] <;> exact ⟨rfl, rfl, rfl, rfl⟩
  have hshapes : validateReceiptV2Shape (toJs r) = [] ↔ validateReceiptV2Shape (toJs r') = [] := by
    obtain ⟨v, v', hv, hv', _, _, hattestation, _⟩ := hkept
      { quoteVerifier := some fun _ => { ok := false, root := "none" } }
    rw [← not_iff_not, ← ne_eq, ← ne_eq, ← attestation_absent_iff hv, ← attestation_absent_iff hv',
      hattestation]
  have hunder : ∀ {f}, validateReceiptV2Shape (toJs r) = [] → readReceipt (toJs r) = .ok f →
      f.sth = some sth.fields ∧ f.directory = r.keyDirectory.entries ∧
      ∀ {options v'}, verifyReceiptV2 H A (toJs r') options = .ok v' →
        v'.Over H A (f.under sth.fields (witnesses.map toJs)
          (r.keyDirectory.set s.witnessId s.directoryEntry).entries) options := by
    intro f hshape hf
    obtain ⟨hhead, hdirectory⟩ := WitnessableReceipt.fields_of_read hf
    rw [h.before] at hhead
    exact ⟨hhead, hdirectory, fun hv' => verdict_over (hshapes.mp hshape) (h.read hf) hv'⟩
  constructor
  · intro hformed
    rw [WitnessableReceipt.shape_iff hsth, h.shape_iff] at hshapes
    exact ⟨fun hdirectory => (hshapes.mp ⟨hformed, hdirectory⟩).2,
      fun hdirectory => (hshapes.mpr ⟨hformed, hdirectory⟩).2⟩
  · intro f hshape hf m signature hchecks hid
    obtain ⟨hhead, hdirectory, hover⟩ := hunder hshape hf
    obtain ⟨hrecord, hbody⟩ := exists_messages hcbor hshape hf
    have hdomains := (domains_under_iff (witnesses.map toJs)
      (r.keyDirectory.set s.witnessId s.directoryEntry).entries hhead hrecord
      ⟨message, hmessage⟩ hbody).mp
    obtain ⟨v, v', hv, hv', hs, hi, _, _⟩ := hkept {}
    have hbefore := verdict_over hshape hf hv
    have hafter := hover hv'
    have hsame := hdomains ⟨?_, ?_, ?_⟩ m signature hchecks
    · rw [carriedKey_set, if_pos hid, hid, hdirectory] at hsame
      exact hsame
    · rw [hafter.signature, hbefore.signature, hs]
    · rw [hafter.inclusion, hbefore.inclusion, hi]
    · intro options
      obtain ⟨w, w', hw, hw', _, _, ha, _⟩ := hkept options
      rw [(hover hw').attestation, (verdict_over hshape hf hw).attestation, ha]
  · intro f hshape hf quote hbinds hid
    obtain ⟨_, hdirectory, hover⟩ := hunder hshape hf
    obtain ⟨v, v', hv, hv', _, _, ha, he⟩ := hkept { expectedMeasurement := some quote.measurement }
    have henclave := (hover hv').enclave
    rw [ha, he, ← (verdict_over hshape hf hv).enclave] at henclave
    have hcommitment := commitment_of_enclave (CarriedKey.exists_reportData hcbor) hbinds henclave
    rw [carriedKey_set, if_pos hid, hid, hdirectory] at hcommitment
    exact hcommitment
  · intro head m hhead hm
    cases h.before.symm.trans hhead
    cases hmessage.symm.trans hm
    obtain ⟨after, hafter, hle⟩ := hadds.count counts hcounts
    cases hcounts'.symm.trans hafter
    rw [hexternal, hexternal'] at hle
    rcases h.countP (H := H) message with ⟨_, hcount⟩ | ⟨hid, _⟩
    · change _ ≤ witnesses.countP _ at hle
      omega
    · rw [countUnder_eq_zero hid, countUnder_eq_zero hid]
  · intro head m key hhead hm hcosign hkey hfresh hid
    cases h.before.symm.trans hhead
    cases hmessage.symm.trans hm
    have hmore := hadds.fresh sth key h.before hcosign hkey hfresh counts counts' hcounts hcounts'
    rw [hexternal, hexternal'] at hmore
    change witnesses.countP _ = _ at hmore
    rcases h.countP (H := H) message with ⟨_, hcount⟩ | ⟨hnot, _⟩
    · omega
    · exact absurd hid hnot

end

/-- Attaching a statement only adds to a receipt exactly where whatever the receipt keeps under
the witness's id comes out the same under the witness's keys. -/
theorem attachWitness_onlyAdds_iff (hcbor : ∀ v, v.plain = true → ∃ b, H.canonicalCbor v = .ok b)
    (A : Anchor.AnchorHost) (h : attachWitness r s = .ok r') :
    OnlyAdds H A r s r' ↔ Harmless H r s := by
  obtain ⟨sth, witnesses, hattached⟩ := attached_of_attachWitness h
  constructor
  · intro hadds
    exact harmless_of_onlyAdds hcbor hattached hadds
  · intro hharmless
    exact onlyAdds_of_harmless hcbor hattached hharmless A

/-! ## An auditor whose id another one takes -/

namespace Reference

/-- The tree head of the open receipt. -/
def openHead : STH where
  logId := "log"
  treeSize := 1
  rootHash := multihashOf 'f'
  timestamp := "now"
  signature :=
    { alg := "ml-dsa-65+ed25519", keyId := "log", mlDsa := "base64:", ed25519 := "base64:" }
  witnesses := []

/-- What the open receipt has beside its tree head and its keys. -/
def openOthers : Members :=
  match openReceipt [] [] with
  | .object ms => ms.filter fun e => decide (e.1 ≠ "sth" ∧ e.1 ≠ "key_directory")
  | _ => []

theorem openOthers_apart :
    ∀ name ∈ openOthers.map Prod.fst, name ≠ "sth" ∧ name ≠ "key_directory" := by
  decide

theorem openOthers_json : (JsValue.object openOthers).json = true := by decide

theorem openOthers_registers :
    ∀ e ∈ quotedRegisters (.object openOthers), e.2.printable = true := by
  decide

/-- The open receipt before any witness. -/
def unwitnessed : WitnessableReceipt where
  others := openOthers
  sth := some openHead
  keyDirectory := .ofList [("record", { mlDsaPub := "base64:", ed25519Pub := "base64:" })]
  apart := openOthers_apart
  json := openOthers_json
  registers := openOthers_registers

/-- What someone who goes by the auditor's id states of that head. -/
def statementUnder (material : String) : Except String WitnessStatement :=
  cosign totalHost openHead (key "auditor" material)

theorem statementUnder_harmless {s : WitnessStatement} (h : statementUnder "AAAA" = .ok s) :
    Harmless totalHost unwitnessed s := by
  have hs : s.witnessId = "auditor" ∧
      s.directoryEntry = (key "auditor" "AAAA").directoryEntry := by
    obtain ⟨message, _, h⟩ := bind_eq_ok.mp h
    cases h
    exact ⟨rfl, rfl⟩
  obtain ⟨hname, hentry⟩ := hs
  have hread : (readReceipt (toJs unwitnessed)).map (fun f =>
      (f.record.signature.keyId, f.sth.map fun h => h.signature.keyId,
        f.quote.bind QuoteFields.signature)) = .ok ("record", some "log", none) := by
    decide
  have hfields : ∀ f, readReceipt (toJs unwitnessed) = .ok f →
      f.record.signature.keyId = "record" ∧ (f.sth.map fun h => h.signature.keyId) = some "log" ∧
        f.quote.bind QuoteFields.signature = none := by
    intro f hf
    rw [hf] at hread
    simpa [Except.map] using hread
  constructor
  · intro _
    rw [hname, hentry]
    exact iff_of_true ⟨by decide, by decide⟩ ⟨by decide, by decide⟩
  · intro f _ hf m signature hchecks hid
    obtain ⟨hrecord, hhead, hquote⟩ := hfields f hf
    cases hchecks with
    | record _ =>
      rw [hrecord, hname] at hid
      exact absurd hid (by decide)
    | head _ hsth =>
      rw [hsth, Option.map_some, Option.some.injEq] at hhead
      rw [hhead, hname] at hid
      exact absurd hid (by decide)
    | quote hcarried _ _ hsignature =>
      rw [hcarried, Option.bind_some, hsignature] at hquote
      cases hquote
  · intro f _ hf _ _ hid
    rw [(hfields f hf).1, hname] at hid
    exact absurd hid (by decide)
  · intro sth m hsth _
    cases hsth
    exact Nat.le_refl 0
  · intro sth m _ hsth _ _ _ _ hlisted
    cases hsth
    cases hlisted

end Reference

open Reference in
/-- The first statement of an auditor only adds to a receipt. -/
theorem attachWitness_onlyAdds_auditor :
    ∃ s r', statementUnder "AAAA" = .ok s ∧ attachWitness unwitnessed s = .ok r' ∧
      OnlyAdds totalHost anchorHost unwitnessed s r' := by
  have hrun : ((statementUnder "AAAA") >>= attachWitness unwitnessed).map (fun _ => ()) =
      .ok () := by
    decide
  obtain ⟨r', hr', _⟩ := ok_of_map_eq hrun
  obtain ⟨s, hs, hattach⟩ := bind_eq_ok.mp hr'
  exact ⟨s, r', hs, hattach, (attachWitness_onlyAdds_iff totalHost_encodes anchorHost hattach).mpr
    (statementUnder_harmless hs)⟩

open Reference in
/-- Another key under the auditor's id: its statement is attached, its co-signature is not, and
the auditor's no longer verifies. -/
theorem second_statement_erases_first :
    ∃ first r s r' counts counts', statementUnder "AAAA" = .ok first ∧
      attachWitness unwitnessed first = .ok r ∧ statementUnder "BBBB" = .ok s ∧
      attachWitness r s = .ok r' ∧ countWitnesses totalHost (toJs r) = .ok counts ∧
      countWitnesses totalHost (toJs r') = .ok counts' ∧ counts.external = 1 ∧
      counts'.external = 0 ∧ ¬OnlyAdds totalHost anchorHost r s r' := by
  have hrun : (do
      let first ← statementUnder "AAAA"
      let r ← attachWitness unwitnessed first
      let s ← statementUnder "BBBB"
      let r' ← attachWitness r s
      let counts ← countWitnesses totalHost (toJs r)
      let counts' ← countWitnesses totalHost (toJs r')
      return (counts.external, counts'.external) : Except String (Nat × Nat)) = .ok (1, 0) := by
    decide +kernel
  obtain ⟨first, hfirst, hrun⟩ := bind_eq_ok.mp hrun
  obtain ⟨r, hr, hrun⟩ := bind_eq_ok.mp hrun
  obtain ⟨s, hs, hrun⟩ := bind_eq_ok.mp hrun
  obtain ⟨r', hr', hrun⟩ := bind_eq_ok.mp hrun
  obtain ⟨counts, hcounts, hrun⟩ := bind_eq_ok.mp hrun
  obtain ⟨counts', hcounts', hrun⟩ := bind_eq_ok.mp hrun
  obtain ⟨hone, hzero⟩ := Prod.mk.inj (Except.ok.inj hrun)
  refine ⟨first, r, s, r', counts, counts', hfirst, hr, hs, hr', hcounts, hcounts', hone, hzero,
    ?_⟩
  intro hadds
  obtain ⟨after, hafter, hle⟩ := hadds.count counts hcounts
  cases hcounts'.symm.trans hafter
  omega

end CoolSdk
