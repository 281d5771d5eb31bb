import CoolSdk.Phala.Disclosure
import CoolSdk.Phala.SealThenVerify
import CoolSdk.Phala.Witness

/-!
# Audit packs

A pack is checked in three passes over its receipts: the verifier, the count of witnesses and the
coverage of obligations. The verifier looks at a receipt only once its structure is sound; the
count looks at it as it stands, and throws where it is malformed; and what a pack says of its own
entries is not compared with them.
-/

namespace CoolSdk

open JsValue (member)

namespace JsValue

/-- What a `for` loop goes through. -/
def iterate : JsValue → Except String (List JsValue)
  | array xs => .ok xs
  | str s => .ok (s.toList.map fun c => .str (String.singleton c))
  | bytes b => .ok (b.map fun byte => .num (.ofInt byte.toNat))
  | _ => .error "value is not iterable"

/-- `value[key]`; what values other than objects and arrays have is no object. -/
def index (key : String) : JsValue → Except String JsValue
  | undefined => .error (readError "undefined" key)
  | null => .error (readError "null" key)
  | object ms | custom ms =>
    .ok ((Entries.get ms key).getD (if isInherited key then .foreign key else .undefined))
  | array xs => .ok ((xs.zipIdx.find? fun e => toString e.2 == key).elim .undefined Prod.fst)
  | _ => .ok .undefined

/-- `value.length`, in UTF-16 code units for a text. -/
def length : JsValue → Except String JsValue
  | array xs => .ok (.num (.ofInt xs.length))
  | str s => .ok (.num (.ofInt (s.toList.map fun c => if c.toNat < 0x10000 then 1 else 2).sum))
  | bytes b => .ok (.num (.ofInt b.length))
  | v => v.read "length"

end JsValue

/-! ## Entries -/

/-- A receipt in a pack, under the headers it is listed with. -/
structure AuditPackEntry where
  recordId : String
  schema : String
  sealedAt : String
  receipt : JsValue

/-- The part of a pack that is checked: its summary is recomputed. -/
structure AuditPack where
  records : List AuditPackEntry

/-- The entry that a pack is built with for a receipt. -/
def packEntry (receipt : JsValue) : Except String AuditPackEntry := do
  let record ← receipt.read "record"
  let recordId ← record.read "record_id" >>= JsValue.text
  let schema ← record.read "schema" >>= JsValue.text
  let time ← record.read "time"
  let sealedAt ← time.read "issued_at" >>= JsValue.text
  return { recordId, schema, sealedAt, receipt }

/-- The records of a pack that is built from receipts. -/
def buildAuditPack (receipts : List JsValue) : Except String AuditPack := do
  let records ← receipts.mapM packEntry
  return { records }

/-- The headers of an entry are those of its receipt. -/
structure AuditPackEntry.Matches (e : AuditPackEntry) : Prop where
  recordId : e.receipt.dig ["record", "record_id"] = .str e.recordId
  schema : e.receipt.dig ["record", "schema"] = .str e.schema
  sealedAt : e.receipt.dig ["record", "time", "issued_at"] = .str e.sealedAt

/-! ## The obligations -/

def isEvidence (r : JsValue) : Except String Bool := do
  let record ← r.read "record"
  let schema ← record.read "schema"
  return schema.strictEquals (.str "cool.evidence.v1")

def isChange (r : JsValue) : Except String Bool := do
  let record ← r.read "record"
  let schema ← record.read "schema"
  return schema.strictEquals (.str "cool.change.v2")

/-- The change of a change record; a record of another schema has none. -/
def changeOf (r : JsValue) : Except String (Option JsValue) := do
  if !(← isChange r) then return none
  let record ← r.read "record"
  let change ← record.read "change"
  return some change

section

variable (H : Host) (A : Anchor.AnchorHost)
  -- the number a value is coerced to
  (toNumber : JsValue → Except String JsNumber)

/-- Whether a change was approved by someone. -/
def hasApprovers (change : JsValue) : Except String Bool := do
  let approval ← change.read "approval"
  if approval.nullish then return false
  let approvers ← approval.read "approvers"
  let length ← approvers.length
  let count ← toNumber (if length.nullish then .num (.ofInt 0) else length)
  return (JsNumber.ofInt 0).lt count

/-- Each obligation by its id, with which receipts count for it. -/
def OBLIGATIONS : List (String × (JsValue → Except String Bool)) :=
  [("eu-ai-act-12", isEvidence),
    ("eu-ai-act-14", fun r => do
      match ← changeOf r with
      | none => return false
      | some change => hasApprovers toNumber change),
    ("eu-ai-act-15", fun r => do
      match ← changeOf r with
      | none => return false
      | some change =>
        let kind ← change.read "kind"
        return ["model", "params", "dataset"].any fun name => kind.strictEquals (.str name)),
    ("dpdp-8", fun r => do
      let record ← r.read "record"
      let runtime ← record.read "runtime"
      let quote ← runtime.read "tee_quote"
      return !quote.strictEquals .null),
    ("iso-42001-9", fun r => do
      let inclusion ← r.read "inclusion"
      return !inclusion.strictEquals .null),
    ("rbi-dlg", isEvidence),
    ("soc2-cc7", fun r => do
      match ← changeOf r with
      | none => return false
      | some change =>
        let approval ← change.read "approval"
        return !approval.strictEquals .null)]

/-- How many receipts count for each obligation; one that throws does not. -/
def coverage (receipts : List JsValue) : List (String × Nat) :=
  (OBLIGATIONS toNumber).map fun obligation =>
    (obligation.1, (receipts.filter fun r => (obligation.2 r).toOption.getD false).length)

/-! ## Witnesses of any receipt -/

/-- The tree head core of whatever stands in its place. -/
def sthCoreOf (sth : JsValue) : Except String JsValue := do
  let logId ← sth.read "log_id"
  let treeSize ← sth.read "tree_size"
  let rootHash ← sth.read "root_hash"
  let timestamp ← sth.read "timestamp"
  return .object [("log_id", logId), ("tree_size", treeSize), ("root_hash", rootHash),
    ("timestamp", timestamp)]

/-- What one co-signature counts as, whatever it and the key directory are. -/
def witnessVoteOf (message : Bytes) (receipt w : JsValue) : Except String WitnessVote := do
  let external ← w.read "external"
  if !external.truthy then return .self
  let directory ← receipt.read "key_directory"
  let id ← w.read "id"
  if directory.nullish then .error "Cannot read properties of a missing key directory"
  else
    let keyId ← id.toText H
    let entry ← directory.index keyId
    let signature ← witnessSignature keyId w
    -- verifying reads the entry and the signature under a catch
    return match readEntry entry, signature with
      | .ok entry, some signature =>
        if H.hybridVerify message signature entry then .external else .invalid
      | _, _ => .invalid

/-- `countWitnesses` of a receipt that may be malformed. -/
def countWitnessesOf (receipt : JsValue) : Except String WitnessCounts := do
  let sth ← receipt.read "sth"
  if !sth.truthy then return { external := 0, self := 0, invalid := 0 }
  let core ← sthCoreOf sth
  let message ← H.canonicalCbor core
  let witnesses ← sth.read "witnesses" >>= JsValue.iterate
  let votes ← witnesses.mapM (witnessVoteOf H message receipt)
  return {
    external := votes.count .external
    self := votes.count .self
    invalid := votes.count .invalid }

end

/-! ## Witnesses of a receipt that is read -/

section

variable {H : Host}

/-- An entry that is read of a directory is read where it stands. -/
private theorem get_readDirectory {ms : JsValue.Members}
    {directory : List (String × DirectoryEntry)} (h : readDirectory (.object ms) = .ok directory)
    (keyId : String) :
    match Entries.get directory keyId with
    | some entry => ∃ v, Entries.get ms keyId = some v ∧ readEntry v = .ok entry
    | none => Entries.get ms keyId = none := by
  change (ms.mapM fun e => readEntry e.2 >>= fun entry => pure (e.1, entry)) = .ok directory at h
  induction ms generalizing directory with
  | nil =>
    cases h
    rfl
  | cons m ms ih =>
    obtain ⟨key, v⟩ := m
    rw [List.mapM_cons] at h
    obtain ⟨e, he, h⟩ := bind_eq_ok.mp h
    obtain ⟨entry, hentry, he⟩ := bind_eq_ok.mp he
    obtain ⟨rest, hrest, h⟩ := bind_eq_ok.mp h
    cases he
    cases h
    rw [Entries.get, Entries.get]
    by_cases hkey : key = keyId
    · rw [if_pos hkey, if_pos hkey]
      exact ⟨v, rfl, hentry⟩
    · rw [if_neg hkey, if_neg hkey]
      exact ih hrest

/-- A co-signature counts alike under a directory that is read. -/
private theorem witnessVoteOf_of_read {message : Bytes} {receipt w : JsValue}
    {directory : List (String × DirectoryEntry)} {vote : WitnessVote}
    (hdirectory : receipt.read "key_directory" >>= readDirectory = .ok directory)
    (h : witnessVote H message directory w = .ok vote) :
    witnessVoteOf H message receipt w = .ok vote := by
  obtain ⟨v, hv, hdirectory⟩ := bind_eq_ok.mp hdirectory
  obtain ⟨ms, hms, _⟩ := bind_eq_ok.mp hdirectory
  cases v <;> cases hms
  obtain ⟨witness, hwitness, h⟩ := bind_eq_ok.mp h
  obtain ⟨external, hexternal, hwitness⟩ := bind_eq_ok.mp hwitness
  rw [witnessVoteOf, hexternal, ok_bind]
  split_ifs at hwitness ⊢ with hself
  · cases hwitness
    exact h
  · obtain ⟨id, hid, hwitness⟩ := bind_eq_ok.mp hwitness
    obtain ⟨keyId, hkeyId, hwitness⟩ := bind_eq_ok.mp hwitness
    obtain ⟨signature, hsignature, hwitness⟩ := bind_eq_ok.mp hwitness
    cases hwitness
    rw [hv, ok_bind, hid, ok_bind, if_neg (by exact Bool.false_ne_true), hkeyId, ok_bind]
    have hget := get_readDirectory hdirectory keyId
    rw [JsValue.index, ok_bind, hsignature, ok_bind, ← h]
    cases hentry : Entries.get directory keyId with
    | some entry =>
      rw [hentry] at hget
      obtain ⟨value, hvalue, hread⟩ := hget
      rw [carriedKey, hentry, hvalue, Option.getD_some, hread]
      cases signature <;> rfl
    | none =>
      rw [hentry] at hget
      rw [carriedKey, hentry, hget, Option.getD_none]
      split_ifs <;> cases signature <;> rfl

/-- Where the parts of a receipt are read, its witnesses are counted alike. -/
theorem countWitnessesOf_of_read {receipt : JsValue} {counts : WitnessCounts}
    (hsize : ∀ sth head, receipt.read "sth" = .ok sth → readHead sth = .ok head →
      sth.read "tree_size" = .ok (.num (.ofInt head.core.treeSize)))
    (h : countWitnesses H receipt = .ok counts) : countWitnessesOf H receipt = .ok counts := by
  obtain ⟨sth, hsth, h⟩ := bind_eq_ok.mp h
  rw [countWitnessesOf, hsth, ok_bind]
  split_ifs at h ⊢ with hnone
  · exact h
  · obtain ⟨head, hhead, h⟩ := bind_eq_ok.mp h
    obtain ⟨directory, hdirectory, h⟩ := bind_eq_ok.mp h
    obtain ⟨message, hmessage, h⟩ := bind_eq_ok.mp h
    obtain ⟨votes, hvotes, h⟩ := bind_eq_ok.mp h
    have htreeSize := hsize sth head hsth hhead
    have htext : ∀ {v : JsValue} {s : String}, v.text = .ok s → v = .str s := by
      intro v s hs
      cases v <;> cases hs
      rfl
    obtain ⟨logId, hlogId, hhead⟩ := bind_eq_ok.mp hhead
    obtain ⟨v, hv, hlogId⟩ := bind_eq_ok.mp hlogId
    obtain ⟨treeSize, _, hhead⟩ := bind_eq_ok.mp hhead
    obtain ⟨rootHash, hrootHash, hhead⟩ := bind_eq_ok.mp hhead
    obtain ⟨x, hx, hrootHash⟩ := bind_eq_ok.mp hrootHash
    obtain ⟨timestamp, htimestamp, hhead⟩ := bind_eq_ok.mp hhead
    obtain ⟨y, hy, htimestamp⟩ := bind_eq_ok.mp htimestamp
    obtain ⟨signature, _, hhead⟩ := bind_eq_ok.mp hhead
    obtain ⟨witnesses, hwitnesses, hhead⟩ := bind_eq_ok.mp hhead
    obtain ⟨ws, hws, hwitnesses⟩ := bind_eq_ok.mp hwitnesses
    cases hhead
    cases htext hlogId
    cases htext hrootHash
    cases htext htimestamp
    have hcore : sthCoreOf sth =
        .ok (toJs ({ logId, treeSize, rootHash, timestamp } : STHCore)) := by
      rw [sthCoreOf, hv, ok_bind, htreeSize, ok_bind, hx, ok_bind, hy, ok_bind]
      rfl
    have hiterate : ws.iterate = .ok witnesses := by
      cases ws <;> cases hwitnesses
      rfl
    have hall : witnesses.mapM (witnessVoteOf H message receipt) = .ok votes :=
      mapM_eq_ok ((forall₂_of_mapM hvotes).imp fun w vote hvote =>
        witnessVoteOf_of_read hdirectory hvote)
    have hmessage' : H.canonicalCbor (toJs ({ logId, treeSize, rootHash, timestamp } : STHCore)) =
        .ok message := hmessage
    rw [hcore, ok_bind, hmessage', ok_bind, hws, ok_bind, hiterate, ok_bind, hall, ok_bind]
    rw [hvotes, ok_bind] at h
    exact h

end

/-! ## Verification -/

section

variable (H : Host) (A : Anchor.AnchorHost)
  -- the number a value is coerced to
  (toNumber : JsValue → Except String JsNumber)

/-- The verdict on a pack; failures are listed by the id of their entry. -/
structure PackVerdict where
  ok : Bool
  total : Nat
  verified : Nat
  failed : Nat
  failures : List String
  witnesses : Nat
  verdicts : List VerdictV2
  obligationsCovered : Nat
  obligationsTotal : Nat
  deriving DecidableEq

/-- The loop over the entries: verdicts, failures and witnesses. -/
def verifyEntries (options : VerifyArgsV2) :
    List AuditPackEntry → Except String (List VerdictV2 × List String × Nat)
  | [] => .ok ([], [], 0)
  | entry :: entries => do
    let verdict ← verifyReceiptV2 H A entry.receipt options
    let counts ← countWitnessesOf H entry.receipt
    let (verdicts, failures, witnesses) ← verifyEntries options entries
    return (verdict :: verdicts, if verdict.ok then failures else entry.recordId :: failures,
      counts.external + witnesses)

/-- Verify every receipt in a pack. -/
def verifyAuditPack (pack : AuditPack) (options : VerifyArgsV2) : Except String PackVerdict := do
  let (verdicts, failures, witnesses) ← verifyEntries H A options pack.records
  let recomputed := coverage toNumber (pack.records.map AuditPackEntry.receipt)
  return {
    ok := failures.isEmpty && !pack.records.isEmpty
    total := pack.records.length
    verified := (verdicts.filter VerdictV2.ok).length
    failed := failures.length
    failures
    witnesses
    verdicts
    obligationsCovered := (recomputed.filter fun row => decide (0 < row.2)).length
    obligationsTotal := recomputed.length }

end

/-! ## Where a receipt can be looked at -/

section

variable {H : Host} {A : Anchor.AnchorHost}

theorem read_eq_dig {v : JsValue} (h : v.nullish = false) (name : String) :
    v.read name = .ok (v.dig [name]) := by
  cases v <;> first | rfl | cases h

/-- A receipt that both passes can look at. -/
structure Lookable (H : Host) (receipt : JsValue) : Prop where
  present : receipt.nullish = false
  witnesses : (receipt.dig ["sth"]).truthy = true →
    ∃ ws, (receipt.dig ["sth", "witnesses"]).iterate = .ok ws ∧ ∀ w ∈ ws,
      w.readableWitness = true ∧
        ((w.dig ["external"]).truthy = true → (receipt.dig ["key_directory"]).nullish = false)
  registers : validateReceiptV2Shape receipt = [] →
    registersReadable H (quotedRegisters receipt) = true

/-- A co-signature is counted exactly if it can be read and, where it claims to be external, there
is a directory to look its key up in. -/
private theorem witnessVoteOf_iff {message : Bytes} {receipt w : JsValue}
    (hreceipt : receipt.nullish = false) (hjson : w.json = true) :
    (∃ vote, witnessVoteOf H message receipt w = .ok vote) ↔
      w.readableWitness = true ∧
        ((w.dig ["external"]).truthy = true → (receipt.dig ["key_directory"]).nullish = false) := by
  cases w with
  | undefined | custom _ | foreign _ | bytes _ => cases hjson
  | null =>
    refine iff_of_false ?_ fun h => by cases h.1
    rintro ⟨vote, h⟩
    cases h
  | bool _ | num _ | str _ | array _ =>
    exact iff_of_true ⟨_, rfl⟩ ⟨rfl, fun h => by cases h⟩
  | object ms =>
    have hid : ((member ms "id").toText H).isOk = (member ms "id").printable := by
      rcases JsValue.json_member hjson "id" with hid | hid
      · exact JsValue.toText_isOk H hid
      · rw [hid]
        rfl
    have hread : ∀ name, (JsValue.object ms).read name = .ok (member ms name) := fun _ => rfl
    have hdig : (JsValue.object ms).dig ["external"] = member ms "external" := rfl
    rw [witnessVoteOf, hread, ok_bind, hdig, JsValue.readableWitness]
    cases hexternal : (member ms "external").truthy with
    | false => exact iff_of_true ⟨_, rfl⟩ ⟨rfl, fun h => by cases h⟩
    | true =>
      rw [if_neg (by simp), read_eq_dig hreceipt, ok_bind, hread, ok_bind, ← hid]
      cases hdirectory : (receipt.dig ["key_directory"]).nullish with
      | true =>
        rw [if_pos rfl]
        refine iff_of_false ?_ fun h => by cases h.2 rfl
        rintro ⟨vote, h⟩
        cases h
      | false =>
        rw [if_neg Bool.false_ne_true]
        cases htext : (member ms "id").toText H with
        | error e =>
          refine iff_of_false ?_ fun h => by cases h.1
          rintro ⟨vote, h⟩
          cases h
        | ok keyId =>
          have hindex : ∃ entry, (receipt.dig ["key_directory"]).index keyId = .ok entry := by
            cases hvalue : receipt.dig ["key_directory"] with
            | undefined | null =>
              rw [hvalue] at hdirectory
              cases hdirectory
            | _ => exact ⟨_, rfl⟩
          obtain ⟨entry, hentry⟩ := hindex
          rw [ok_bind, hentry, ok_bind]
          exact iff_of_true ⟨_, rfl⟩ ⟨rfl, fun _ => rfl⟩

private theorem json_iterate {v : JsValue} {ws : List JsValue} (hv : v.json = true ∨ v = .undefined)
    (h : v.iterate = .ok ws) : ∀ w ∈ ws, w.json = true := by
  cases v with
  | array xs =>
    cases h
    rcases hv with hv | hv
    · exact (JsValue.jsonItems_iff ws).mp hv
    · cases hv
  | str s =>
    cases h
    intro w hw
    obtain ⟨c, _, rfl⟩ := List.mem_map.mp hw
    rfl
  | bytes b => rcases hv with hv | hv <;> cases hv
  | _ => cases h

-- what the verifier relies on of the encoder: it encodes plain data
variable (hcbor : ∀ v, v.plain = true → ∃ b, H.canonicalCbor v = .ok b)

include hcbor

/-- Witnesses are counted exactly where there is a receipt and, if it has a tree head, a list of
co-signatures that can all be counted. -/
theorem countWitnessesOf_iff {receipt : JsValue} (hjson : receipt.json = true) :
    (∃ counts, countWitnessesOf H receipt = .ok counts) ↔
      receipt.nullish = false ∧ ((receipt.dig ["sth"]).truthy = true →
        ∃ ws, (receipt.dig ["sth", "witnesses"]).iterate = .ok ws ∧ ∀ w ∈ ws,
          w.readableWitness = true ∧ ((w.dig ["external"]).truthy = true →
            (receipt.dig ["key_directory"]).nullish = false)) := by
  cases hnull : receipt.nullish with
  | true =>
    refine iff_of_false ?_ fun h => by cases h.1
    rintro ⟨counts, h⟩
    obtain ⟨sth, hsth, _⟩ := bind_eq_ok.mp h
    cases receipt with
    | undefined | null => cases hsth
    | _ => cases hnull
  | false =>
    rw [countWitnessesOf, read_eq_dig hnull, ok_bind, eq_self_iff_true, true_and]
    cases hsth : (receipt.dig ["sth"]).truthy with
    | false => exact iff_of_true ⟨_, rfl⟩ fun h => by cases h
    | true =>
      have hnullish : (receipt.dig ["sth"]).nullish = false := by
        cases hvalue : receipt.dig ["sth"] <;> rw [hvalue] at hsth <;> first | rfl | cases hsth
      have hdig : ∀ path, (receipt.dig ["sth"]).dig path = receipt.dig ("sth" :: path) :=
        fun _ => rfl
      have hplain : ∀ name, ((receipt.dig ["sth"]).dig [name]).plain = true := by
        intro name
        rw [hdig]
        rcases json_dig (.inl hjson) ["sth", name] with h | h
        · exact JsValue.plain_of_json h
        · rw [h]
          rfl
      obtain ⟨message, hmessage⟩ := hcbor (.object
        [("log_id", (receipt.dig ["sth"]).dig ["log_id"]),
          ("tree_size", (receipt.dig ["sth"]).dig ["tree_size"]),
          ("root_hash", (receipt.dig ["sth"]).dig ["root_hash"]),
          ("timestamp", (receipt.dig ["sth"]).dig ["timestamp"])]) (by
        rw [JsValue.plain_object_iff]
        refine ⟨show ["log_id", "tree_size", "root_hash", "timestamp"].Nodup by decide, ?_⟩
        simp only [List.forall_mem_cons, hplain, List.not_mem_nil, false_implies, implies_true,
          and_self])
      rw [if_neg (by simp), sthCoreOf, read_eq_dig hnullish, read_eq_dig hnullish,
        read_eq_dig hnullish, read_eq_dig hnullish]
      simp only [ok_bind]
      rw [show ∀ v : JsValue, (pure v : Except String JsValue) = .ok v from fun _ => rfl, ok_bind,
        hmessage, ok_bind, read_eq_dig hnullish, ok_bind, hdig]
      rw [true_imp_iff]
      cases hws : (receipt.dig ["sth", "witnesses"]).iterate with
      | error e =>
        refine iff_of_false ?_ fun ⟨ws, h, _⟩ => by cases h
        rintro ⟨counts, h⟩
        cases h
      | ok ws =>
        have hjsons := json_iterate (json_dig (.inl hjson) ["sth", "witnesses"]) hws
        rw [ok_bind]
        constructor
        · rintro ⟨counts, h⟩
          obtain ⟨votes, hvotes, _⟩ := bind_eq_ok.mp h
          refine ⟨ws, rfl, fun w hw => ?_⟩
          obtain ⟨vote, _, hvote⟩ := exists_mem_of_mapM hvotes hw
          exact (witnessVoteOf_iff hnull (hjsons w hw)).mp ⟨vote, hvote⟩
        · rintro ⟨ws', hws', hreadable⟩
          cases hws'
          exact exists_bind (exists_mapM fun w hw =>
            (witnessVoteOf_iff hnull (hjsons w hw)).mpr (hreadable w hw)) fun _ _ => ⟨_, rfl⟩

/-- Both passes go over a receipt exactly if it can be looked at. -/
theorem lookable_iff {receipt : JsValue} (hjson : receipt.json = true) (options : VerifyArgsV2) :
    ((∃ verdict, verifyReceiptV2 H A receipt options = .ok verdict) ∧
        ∃ counts, countWitnessesOf H receipt = .ok counts) ↔ Lookable H receipt := by
  rw [countWitnessesOf_iff hcbor hjson]
  have hlisted : (receipt.dig ["sth"]).truthy = true →
      ∀ ws, (receipt.dig ["sth", "witnesses"]).iterate = .ok ws →
        ∀ w ∈ listedWitnesses receipt, w ∈ ws := by
    intro _ ws hws w hw
    rw [listedWitnesses] at hw
    cases hvalue : receipt.dig ["sth", "witnesses"] with
    | array xs =>
      rw [hvalue] at hws hw
      cases hws
      exact hw
    | _ =>
      rw [hvalue] at hw
      cases hw
  have hnone : ¬(receipt.dig ["sth"]).truthy = true → listedWitnesses receipt = [] := by
    intro hfalsy
    have hdig : receipt.dig ["sth", "witnesses"] = (receipt.dig ["sth"]).dig ["witnesses"] := rfl
    rw [listedWitnesses, hdig]
    cases hvalue : receipt.dig ["sth"] with
    | object ms | custom ms | array xs | bytes b | foreign k =>
      rw [hvalue] at hfalsy
      exact absurd rfl hfalsy
    | _ => rfl
  constructor
  · rintro ⟨hverdict, hpresent, hwitnesses⟩
    refine ⟨hpresent, hwitnesses, fun hshape => ?_⟩
    exact ((verifier_resolves_of_valid hcbor hjson hshape options).mp hverdict).2
  · intro h
    refine ⟨?_, h.present, h.witnesses⟩
    by_cases hshape : validateReceiptV2Shape receipt = []
    · refine (verifier_resolves_of_valid hcbor hjson hshape options).mpr
        ⟨fun w hw => ?_, h.registers hshape⟩
      by_cases htruthy : (receipt.dig ["sth"]).truthy = true
      · obtain ⟨ws, hws, hreadable⟩ := h.witnesses htruthy
        exact (hreadable w (hlisted htruthy ws hws w hw)).1
      · rw [hnone htruthy] at hw
        cases hw
    · exact ⟨_, verifier_resolves_of_malformed hshape options⟩

/-! ## Packs -/

/-- The verifier accepts a receipt. -/
def Accepted (H : Host) (A : Anchor.AnchorHost) (options : VerifyArgsV2) (receipt : JsValue) :
    Prop :=
  ∃ verdict, verifyReceiptV2 H A receipt options = .ok verdict ∧ verdict.ok = true

/-- The loop goes through exactly if every receipt can be looked at. -/
theorem verifyEntries_iff {entries : List AuditPackEntry}
    (hjson : ∀ e ∈ entries, e.receipt.json = true) (options : VerifyArgsV2) :
    (∃ result, verifyEntries H A options entries = .ok result) ↔
      ∀ e ∈ entries, Lookable H e.receipt := by
  induction entries with
  | nil => exact iff_of_true ⟨_, rfl⟩ (List.forall_mem_nil _)
  | cons e entries ih =>
    rw [List.forall_mem_cons] at hjson
    rw [List.forall_mem_cons, ← ih hjson.2, ← lookable_iff hcbor hjson.1 options]
    constructor
    · rintro ⟨result, h⟩
      obtain ⟨verdict, hverdict, h⟩ := bind_eq_ok.mp h
      obtain ⟨counts, hcounts, h⟩ := bind_eq_ok.mp h
      obtain ⟨rest, hrest, _⟩ := bind_eq_ok.mp h
      exact ⟨⟨⟨verdict, hverdict⟩, counts, hcounts⟩, rest, hrest⟩
    · rintro ⟨⟨hverdict, hcounts⟩, hrest⟩
      exact exists_bind hverdict fun _ _ => exists_bind hcounts fun _ _ =>
        exists_bind hrest fun _ _ => ⟨_, rfl⟩

omit hcbor in
/-- No failure is listed exactly if every receipt is accepted. -/
theorem failures_eq_nil_iff {entries : List AuditPackEntry} {options : VerifyArgsV2}
    {verdicts : List VerdictV2} {failures : List String} {witnesses : Nat}
    (h : verifyEntries H A options entries = .ok (verdicts, failures, witnesses)) :
    failures = [] ↔ ∀ e ∈ entries, Accepted H A options e.receipt := by
  induction entries generalizing verdicts failures witnesses with
  | nil =>
    cases h
    exact iff_of_true rfl (List.forall_mem_nil _)
  | cons e entries ih =>
    obtain ⟨verdict, hverdict, h⟩ := bind_eq_ok.mp h
    obtain ⟨counts, _, h⟩ := bind_eq_ok.mp h
    obtain ⟨⟨verdicts', failures', witnesses'⟩, hrest, h⟩ := bind_eq_ok.mp h
    cases h
    have haccepted : Accepted H A options e.receipt ↔ verdict.ok = true := by
      constructor
      · rintro ⟨verdict', hverdict', hok⟩
        cases hverdict.symm.trans hverdict'
        exact hok
      · intro hok
        exact ⟨verdict, hverdict, hok⟩
    rw [List.forall_mem_cons, haccepted, ← ih hrest]
    cases verdict.ok with
    | true => exact (and_iff_right rfl).symm
    | false => exact iff_of_false (List.cons_ne_nil _ _) fun h => by cases h.1

omit hcbor in
/-- An entry that a pack is built with has the headers of its receipt. -/
theorem packEntry_matches {receipt : JsValue} {e : AuditPackEntry}
    (h : packEntry receipt = .ok e) : e.Matches := by
  have hread : ∀ {v w : JsValue} {name : String}, v.read name = .ok w → ∀ path,
      v.dig (name :: path) = w.dig path := by
    intro v w name hw path
    rw [JsValue.dig, List.foldl_cons, hw]
    rfl
  have htext : ∀ {v : JsValue} {s : String}, v.text = .ok s → v = .str s := by
    intro v s hs
    cases v <;> cases hs
    rfl
  obtain ⟨record, hrecord, h⟩ := bind_eq_ok.mp h
  obtain ⟨recordId, hid, h⟩ := bind_eq_ok.mp h
  obtain ⟨v, hv, hid⟩ := bind_eq_ok.mp hid
  obtain ⟨schema, hschema, h⟩ := bind_eq_ok.mp h
  obtain ⟨w, hw, hschema⟩ := bind_eq_ok.mp hschema
  obtain ⟨time, htime, h⟩ := bind_eq_ok.mp h
  obtain ⟨sealedAt, hsealed, h⟩ := bind_eq_ok.mp h
  obtain ⟨x, hx, hsealed⟩ := bind_eq_ok.mp hsealed
  cases h
  refine ⟨?_, ?_, ?_⟩
  · rw [hread hrecord, hread hv]
    exact htext hid
  · rw [hread hrecord, hread hw]
    exact htext hschema
  · rw [hread hrecord, hread htime, hread hx]
    exact htext hsealed

/-- A pack is checked without a throw, and is worth what its check says, exactly if every receipt
can be looked at and, where all of them are accepted, every entry has the headers of its receipt;
which a pack that is built has. -/
theorem audit_pack_iff (toNumber : JsValue → Except String JsNumber) {pack : AuditPack}
    (hjson : ∀ e ∈ pack.records, e.receipt.json = true) (options : VerifyArgsV2) :
    ((∃ verdict, verifyAuditPack H A toNumber pack options = .ok verdict ∧
        (verdict.ok = true → pack.records ≠ [] ∧
          ∀ e ∈ pack.records, Accepted H A options e.receipt ∧ e.Matches)) ↔
      (∀ e ∈ pack.records, Lookable H e.receipt) ∧
        ((∀ e ∈ pack.records, Accepted H A options e.receipt) →
          ∀ e ∈ pack.records, e.Matches)) ∧
    ((∃ verdict, verifyAuditPack H A toNumber pack options = .ok verdict) ↔
      ∀ e ∈ pack.records, Lookable H e.receipt) ∧
    (∀ verdict, verifyAuditPack H A toNumber pack options = .ok verdict →
      (verdict.ok = true ↔
        pack.records ≠ [] ∧ ∀ e ∈ pack.records, Accepted H A options e.receipt)) ∧
    ∀ receipts, buildAuditPack receipts = .ok pack → ∀ e ∈ pack.records, e.Matches := by
  have hresolves : (∃ verdict, verifyAuditPack H A toNumber pack options = .ok verdict) ↔
      ∀ e ∈ pack.records, Lookable H e.receipt := by
    rw [← verifyEntries_iff (A := A) hcbor hjson options]
    constructor
    · rintro ⟨verdict, h⟩
      obtain ⟨result, hresult, _⟩ := bind_eq_ok.mp h
      exact ⟨result, hresult⟩
    · intro h
      exact exists_bind h fun _ _ => ⟨_, rfl⟩
  have hok : ∀ verdict, verifyAuditPack H A toNumber pack options = .ok verdict →
      (verdict.ok = true ↔
        pack.records ≠ [] ∧ ∀ e ∈ pack.records, Accepted H A options e.receipt) := by
    intro verdict h
    obtain ⟨⟨verdicts, failures, witnesses⟩, hentries, h⟩ := bind_eq_ok.mp h
    cases h
    rw [← failures_eq_nil_iff hentries, Bool.and_eq_true, List.isEmpty_iff, Bool.not_eq_true',
      List.isEmpty_eq_false_iff, and_comm]
  refine ⟨?_, hresolves, hok, fun receipts hbuilt e he => ?_⟩
  · rw [← hresolves]
    constructor
    · rintro ⟨verdict, hverdict, hworth⟩
      refine ⟨⟨verdict, hverdict⟩, fun haccepted e he => ?_⟩
      have hne : pack.records ≠ [] := List.ne_nil_of_mem he
      exact ((hworth (((hok verdict hverdict).mpr ⟨hne, haccepted⟩))).2 e he).2
    · rintro ⟨⟨verdict, hverdict⟩, hmatches⟩
      refine ⟨verdict, hverdict, fun htrue => ?_⟩
      obtain ⟨hne, haccepted⟩ := (hok verdict hverdict).mp htrue
      exact ⟨hne, fun e he => ⟨haccepted e he, hmatches haccepted e he⟩⟩
  · obtain ⟨records, hrecords, hbuilt⟩ := bind_eq_ok.mp hbuilt
    cases hbuilt
    obtain ⟨receipt, _, hentry⟩ := exists_of_mem_mapM hrecords he
    exact packEntry_matches hentry

end

/-- The count of witnesses goes over a receipt that the plane made. -/
theorem exists_countWitnessesOf {H : Host} (hcbor : ∀ v, ∃ b, H.canonicalCbor v = .ok b)
    (plane : EvidencePlane) (r : ReceiptV2) :
    ∃ counts, countWitnessesOf H (plane.receipt r) = .ok counts := by
  have hsth : (plane.receipt r).read "sth" = .ok (toJs r.sth) := rfl
  have hwitnesses : (toJs r.sth).read "witnesses" >>= JsValue.iterate =
      .ok (r.sth.witnesses.map toJs) := rfl
  rw [countWitnessesOf, hsth, ok_bind, if_neg (by exact Bool.false_ne_true)]
  refine exists_bind ⟨_, rfl⟩ fun core _ => exists_bind (hcbor core) fun message _ => ?_
  rw [hwitnesses, ok_bind]
  refine exists_bind (exists_mapM fun w hw => ?_) fun _ _ => ⟨_, rfl⟩
  obtain ⟨w, _, rfl⟩ := List.mem_map.mp hw
  have hread : (toJs w).read "external" = .ok (.bool w.external) := rfl
  rw [witnessVoteOf, hread, ok_bind]
  cases w.external with
  | false => exact ⟨.self, rfl⟩
  | true => exact ⟨_, rfl⟩

/-- The first receipt of a plane is genuine. -/
theorem EvidencePlane.first_genuine {H : Host} {K : KeyHost} (A : Anchor.AnchorHost)
    (hlaws : SigningLaws H K) (hsha : ∀ data, (H.sha256 data).length = 32) {plane : EvidencePlane}
    (hplane : plane.Booted H K) {call : SealCall Unit} (hcall : call.WellFormed)
    {receipt : JsValue} {log : MemoryLog H}
    (h : plane.sealEvent H MemoryLog.evidenceLog call.event call.draws call.leafIo call.headIo
      (MemoryLog.new H plane.logId plane.keys.log) = (.ok receipt, log)) :
    VerifiesGenuine H A receipt :=
  (plane.sealEvent_genuine A hlaws hsha hplane (MemoryLog.serves hsha plane.keys.log) hcall
    ⟨hplane.logId, rfl⟩).2 receipt (congrArg Prod.fst h)

namespace Reference

/-- What is coerced to a number: numbers. -/
def asNumber : JsValue → Except String JsNumber
  | .num n => .ok n
  | _ => .ok .nan

/-- A receipt in a pack, under headers of another. -/
def mislabelled (receipt : JsValue) : AuditPack :=
  { records := [{ recordId := "another", schema := "", sealedAt := "", receipt }] }

theorem audit_pack_open :
    let pack := mislabelled (openReceipt [cosignedBy (.str "witness")] [])
    ∃ verdict, verifyAuditPack totalHost anchorHost asNumber pack {} = .ok verdict := by
  intro pack
  have hjson : ∀ e ∈ pack.records, e.receipt.json = true :=
    List.forall_mem_singleton.mpr (by decide)
  refine (audit_pack_iff totalHost_encodes asNumber hjson {}).2.1.mpr
    (List.forall_mem_singleton.mpr ⟨rfl, fun _ => ⟨_, rfl, ?_⟩, fun _ => rfl⟩)
  exact List.forall_mem_singleton.mpr ⟨by decide, fun _ => rfl⟩

/-- A pack with a null in the place of a receipt makes the check throw, and a receipt that verifies
makes a pack that lies about it pass. -/
theorem pack_throws_and_lies :
    (verifyAuditPack totalHost anchorHost asNumber (mislabelled .null) {} =
      .error "Cannot read properties of null (reading 'sth')") ∧
    ∃ receipt log verdict, plane.sealEvent wireHost MemoryLog.evidenceLog agentCall.event
        agentCall.draws () () (MemoryLog.new wireHost plane.logId plane.keys.log) =
          (.ok receipt, log) ∧
      verifyAuditPack wireHost anchorHost asNumber (mislabelled receipt) {} = .ok verdict ∧
      verdict.ok = true ∧ ∀ e ∈ (mislabelled receipt).records, ¬e.Matches := by
  refine ⟨by decide, ?_⟩
  obtain ⟨receipt, log, hsealed⟩ := agentCall_sealed
  have hbooted := plane_started.booted signingLaws length_digest length_sha384
  obtain ⟨verdict, hverdict, hgenuine⟩ :=
    plane.first_genuine anchorHost signingLaws length_digest hbooted agentCall_wellFormed hsealed
  obtain ⟨core, r, rfl, hr, hcore⟩ := EvidencePlane.sealEvent_ok hsealed
  obtain ⟨counts, hcounts⟩ := exists_countWitnessesOf (H := wireHost) (fun _ => ⟨_, rfl⟩) plane r
  have hentries : verifyEntries wireHost anchorHost {} (mislabelled (plane.receipt r)).records =
      .ok ([verdict], [], counts.external + 0) := by
    rw [mislabelled, verifyEntries, hverdict, ok_bind, hcounts, ok_bind, verifyEntries, ok_bind]
    simp only [hgenuine.ok, if_true]
    rfl
  obtain ⟨packed, hpacked⟩ : ∃ packed, verifyAuditPack wireHost anchorHost asNumber
      (mislabelled (plane.receipt r)) {} = .ok packed :=
    ⟨_, by rw [verifyAuditPack, hentries, ok_bind]; rfl⟩
  refine ⟨plane.receipt r, log, packed, hsealed, hpacked, ?_, ?_⟩
  · rw [verifyAuditPack, hentries, ok_bind] at hpacked
    rw [← Except.ok.inj hpacked]
    rfl
  · refine List.forall_mem_singleton.mpr fun h => ?_
    have hid : (plane.receipt r).dig ["record", "record_id"] = .str core.recordId := by
      rw [EvidencePlane.receipt, hr]
      obtain ⟨recordId, time, subject, runtime⟩ := core
      cases subject <;> rfl
    have hsame := JsValue.str.inj (hid.symm.trans h.recordId)
    have hdrawn := EvidencePlane.recordId_coreOf hcore
    rw [hsame] at hdrawn
    exact absurd (Except.ok.inj hdrawn)
      (show ("01KDVCY2R00000000000000000" : String) ≠ "another" by decide)

end Reference

end CoolSdk
