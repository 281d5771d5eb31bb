import CoolSdk.Phala.Log

/-!
# Sealing records

The bytes of a v2 record that are hashed, signed and logged, and the plane that seals a record
core: it signs it, appends its binding digest to the log, and takes a tree head and an audit
path over the log as it then is.
-/

namespace CoolSdk

/-- A v2 record core, evidence or change, as the members of the object it is encoded from. -/
abbrev RecordCoreV2 := JsValue.Members

/-- A record core with its detached signature. -/
structure SignedRecordV2 where
  core : RecordCoreV2
  signature : SignatureBlock

/-- An inclusion proof in a receipt. -/
structure Inclusion where
  leafIndex : Nat
  treeSize : Nat
  auditPath : List Multihash
  deriving DecidableEq, Repr

/-- A sealed record: what its log part and its signature are verified from. -/
structure ReceiptV2 where
  record : SignedRecordV2
  bindingHash : Multihash
  inclusion : Inclusion
  sth : STH

section

variable (H : Host)

/-- The commitment to a whole core. -/
def bindingHashV2 (core : RecordCoreV2) : Except String Multihash := do
  let bytes ← H.canonicalCbor (.object core)
  return mhSha256 H bytes

/-- The message signed over a core: its encoding and the binding digest. -/
def recordSigningMessageV2 (core : RecordCoreV2) (binding : Multihash) : Except String Bytes := do
  let bytes ← H.canonicalCbor (.object core)
  let digest ← multihashDigest binding
  return bytes ++ digest

/-- The leaf of a record: its binding digest. -/
def recordLeafDataV2 (binding : Multihash) : Except String Bytes := multihashDigest binding

/-- A core signed by the record key, with its binding hash and its leaf. -/
def signRecord (recordKey : KeyPair) (core : RecordCoreV2) :
    Except String (SignedRecordV2 × Multihash × Bytes) := do
  let binding ← bindingHashV2 H core
  let message ← recordSigningMessageV2 H core binding
  let leafData ← recordLeafDataV2 binding
  return ({ core := core, signature := H.hybridSign message recordKey }, binding, leafData)

/-- Seal one record core. The surroundings decide the two writes, of the leaf and of the head. -/
def EvidencePlane.seal {σ ι : Type} (L : EvidenceLog σ ι) (recordKey : KeyPair)
    (core : RecordCoreV2) (clock : String) (leafIo headIo : ι) (s : σ) :
    Except String ReceiptV2 × σ :=
  match signRecord H recordKey core with
  | .error e => (.error e, s)
  | .ok (record, binding, leafData) =>
    match L.append leafIo leafData s with
    | (.error e, s) => (.error e, s)
    | (.ok landed, s) =>
      match L.buildSTH headIo clock s with
      | (.error e, s) => (.error e, s)
      | (.ok sth, s) =>
        match L.inclusionAuditPath s landed.leafIndex with
        | .error e => (.error e, s)
        | .ok auditPath =>
          let inclusion : Inclusion :=
            { leafIndex := landed.leafIndex, treeSize := sth.treeSize, auditPath := auditPath }
          (.ok { record := record, bindingHash := binding, inclusion := inclusion, sth := sth }, s)

end

variable {H : Host} {σ ι : Type} {L : EvidenceLog σ ι} {leafHashes : σ → List Bytes}

/-- A log that is unchanged or has one more leaf. -/
def Grown (H : Host) (before after : List Bytes) : Prop :=
  after = before ∨ ∃ leafData, after = before ++ [leafHash H leafData]

theorem Grown.prefix {before after : List Bytes} (h : Grown H before after) : before <+: after := by
  rcases h with rfl | ⟨leafData, rfl⟩
  · exact List.prefix_rfl
  · exact List.prefix_append _ _

theorem Appended.grown {before after : List Bytes} {leafData : Bytes}
    {result : Except String AppendResult} (h : Appended H before leafData result after) :
    Grown H before after := by
  cases result with
  | error e => exact .inl h
  | ok r => exact .inr ⟨leafData, h.2⟩

/-- Sealing grows the log by at most one leaf. -/
theorem EvidencePlane.seal_grown (hL : L.KeepsTree H leafHashes) (recordKey : KeyPair)
    (core : RecordCoreV2) (clock : String) (leafIo headIo : ι) (s : σ) :
    Grown H (leafHashes s)
      (leafHashes (EvidencePlane.seal H L recordKey core clock leafIo headIo s).2) := by
  rw [EvidencePlane.seal]
  split
  · exact .inl rfl
  · rename_i record binding leafData _
    have happend := (hL.append leafIo leafData s).grown
    split
    · rename_i happended
      rwa [happended] at happend
    · rename_i landed s' happended
      rw [happended] at happend
      have hkeeps := hL.keeps headIo clock s'
      split
      · rename_i hhead
        rw [hhead] at hkeeps
        rwa [hkeeps]
      · rename_i hhead
        rw [hhead] at hkeeps
        split
        · rwa [hkeeps]
        · rwa [hkeeps]

/-- What an issued receipt says of the log it was taken from. -/
structure ReceiptV2.TakenFrom (H : Host) (receipt : ReceiptV2) (leafHashes : List Bytes) :
    Prop where
  leaf : ∃ leafData, recordLeafDataV2 receipt.bindingHash = .ok leafData ∧
    leafHashes[receipt.inclusion.leafIndex]? = some (leafHash H leafData)
  size : receipt.inclusion.treeSize = receipt.sth.treeSize
  head : receipt.sth.treeSize = leafHashes.length ∧
    rootHashOf H leafHashes = .ok receipt.sth.rootHash
  path : auditPathOf H leafHashes receipt.inclusion.leafIndex = .ok receipt.inclusion.auditPath

/-- A sealed record is the last leaf of the log its receipt is taken from. -/
theorem EvidencePlane.seal_takenFrom (hL : L.KeepsTree H leafHashes) {recordKey : KeyPair}
    {core : RecordCoreV2} {clock : String} {leafIo headIo : ι} {s s' : σ} {receipt : ReceiptV2}
    (h : EvidencePlane.seal H L recordKey core clock leafIo headIo s = (.ok receipt, s')) :
    receipt.TakenFrom H (leafHashes s') := by
  rw [EvidencePlane.seal] at h
  split at h
  · cases h
  · rename_i record binding leafData hsign
    have happend := hL.append leafIo leafData s
    split at h
    · cases h
    · rename_i landed t happended
      rw [happended] at happend
      obtain ⟨hlanded, hleaves⟩ := happend
      have hkeeps := hL.keeps headIo clock t
      split at h
      · cases h
      · rename_i sth t' hhead
        have hsth := hL.head headIo clock t sth (by rw [hhead])
        rw [hhead] at hkeeps
        rw [hL.inclusionAuditPath] at h
        split at h
        · cases h
        · rename_i auditPath hpath
          cases h
          have hbinding : recordLeafDataV2 binding = .ok leafData := by
            simp only [signRecord, bind_eq_ok] at hsign
            obtain ⟨binding', _, message, _, leafData', hleaf, hsign⟩ := hsign
            cases hsign
            exact hleaf
          rw [← hkeeps] at hsth
          refine ⟨⟨leafData, hbinding, ?_⟩, rfl, hsth, hpath⟩
          rw [hkeeps, hleaves, hlanded]
          exact List.getElem?_concat_length

end CoolSdk
