import CoolSdk.Wire.Merkle

/-!
# Transparency logs

The interface the evidence plane appends to, and its two implementations: a list in memory and
an append-only file of leaf digests that is replayed on opening. Both keep the Merkle tree of
their leaf hashes, which is all that the results about logs use of them. What the surroundings
decide, whether a write to the disk succeeds, is an argument of each operation.
-/

namespace CoolSdk

open MerkleTree

/-- Where a leaf landed. -/
structure AppendResult where
  leafIndex : Nat
  treeSize : Nat
  deriving DecidableEq, Repr

/-- An append-only log on states `σ`, whose surroundings decide by values of `ι`. -/
structure EvidenceLog (σ ι : Type) where
  /-- Entries currently in the tree. -/
  size : σ → Nat
  append : ι → Bytes → σ → Except String AppendResult × σ
  inclusionAuditPath : σ → Int → Except String (List Multihash)
  rootHash : σ → Except String Multihash
  buildSTH : ι → String → σ → Except String STH × σ

section

variable (H : Host)

/-! ## What both logs compute from their leaf hashes -/

/-- The audit path of an index, as multihashes. -/
def auditPathOf (leafHashes : List Bytes) (leafIndex : Int) : Except String (List Multihash) := do
  let path ← inclusionProof H leafHashes leafIndex
  path.mapM multihashFromDigest

/-- The root digest as a multihash, not hashed again. -/
def rootHashOf (leafHashes : List Bytes) : Except String Multihash := do
  let root ← merkleRoot H leafHashes
  multihashFromDigest root

/-- The proof that the tree only grew from a size, as multihashes. -/
def consistencyOf (leafHashes : List Bytes) (fromSize : Int) : Except String (List Multihash) := do
  let proof ← consistencyProof H leafHashes fromSize
  proof.mapM multihashFromDigest

/-- The message signed over a tree head. -/
def sthSigningMessage (core : STHCore) : Except String Bytes := H.canonicalCbor (toJs core)

/-- The log's own co-signature, never counted as independent. -/
def selfWitness (signature : SignatureBlock) : Witness :=
  { id := "cool-self"
    external := false
    alg := signature.alg
    mlDsa := signature.mlDsa
    ed25519 := signature.ed25519 }

/-- Sign the head of a tree with the log key. -/
def signTreeHead (logId : String) (logKey : KeyPair) (treeSize : Nat) (leafHashes : List Bytes)
    (timestamp : String) : Except String STH := do
  let rootHash ← rootHashOf H leafHashes
  let core : STHCore :=
    { logId := logId, treeSize := treeSize, rootHash := rootHash, timestamp := timestamp }
  let message ← sthSigningMessage H core
  let signature := H.hybridSign message logKey
  return { toSTHCore := core, signature := signature, witnesses := [selfWitness signature] }

/-! ## In memory -/

/-- A log held in memory. -/
structure MemoryLog where
  logId : String
  logKey : KeyPair
  leaves : List Bytes
  leafHashes : List Bytes
  /-- The tree is the tree of the leaves. -/
  hashed : leafHashes = leaves.map (leafHash H)

namespace MemoryLog

/-- A new log without entries. -/
def new (logId : String) (logKey : KeyPair) : MemoryLog H :=
  { logId := logId, logKey := logKey, leaves := [], leafHashes := [], hashed := rfl }

variable {H}

/-- The number of entries. -/
def size (log : MemoryLog H) : Nat := log.leaves.length

/-- Append a leaf. -/
def append (log : MemoryLog H) (leafData : Bytes) : AppendResult × MemoryLog H :=
  let leafIndex := log.leaves.length
  let leaves := log.leaves ++ [leafData]
  ({ leafIndex := leafIndex, treeSize := leaves.length },
    { log with
      leaves := leaves
      leafHashes := log.leafHashes ++ [leafHash H leafData]
      hashed := by rw [log.hashed, List.map_append, List.map_singleton] })

/-- The audit path of a leaf. -/
def inclusionAuditPath (log : MemoryLog H) (leafIndex : Int) : Except String (List Multihash) :=
  auditPathOf H log.leafHashes leafIndex

/-- The current root. -/
def rootHash (log : MemoryLog H) : Except String Multihash := rootHashOf H log.leafHashes

/-- A signed tree head over the current tree. -/
def buildSTH (log : MemoryLog H) (timestamp : String) : Except String STH :=
  signTreeHead H log.logId log.logKey log.leaves.length log.leafHashes timestamp

/-- The log in memory behind the interface. -/
def evidenceLog : EvidenceLog (MemoryLog H) Unit where
  size := size
  append _ leafData log := ((log.append leafData).map Except.ok id)
  inclusionAuditPath := inclusionAuditPath
  rootHash := rootHash
  buildSTH _ timestamp log := (log.buildSTH timestamp, log)

end MemoryLog

/-! ## In a file -/

/-- How a write to the disk ends: all of it is written, or it throws with some of it there. -/
inductive WriteOutcome
  | written
  | failed (landed : Bytes) (error : String)
  deriving DecidableEq, Repr

/-- A log kept in a file of leaf digests and in memory. -/
structure FileLog where
  logId : String
  logKey : KeyPair
  leafHashes : List Bytes
  /-- The contents of `leaves.log`, once there is one. -/
  leafFile : Option Bytes

namespace FileLog

/-- Whether a line is 64 lowercase hex digits. -/
def isDigestLine (line : Bytes) : Bool :=
  decide (line.length = 64) &&
    line.all fun c => decide (48 ≤ c ∧ c ≤ 57) || decide (97 ≤ c ∧ c ≤ 102)

/-- The leaf hashes of the lines from an index on. -/
def replayLines : Nat → List Bytes → Except String (List Bytes)
  | _, [] => .ok []
  | index, line :: lines =>
    if !isDigestLine line then
      .error ("leaves.log:" ++ toString (index + 1) ++
        " is not a 32-byte hex digest — refusing to start on a corrupt log")
    else do
      let hash ← fromHexUtf8 line
      let rest ← replayLines (index + 1) lines
      return hash :: rest

/-- The lines of a file that are not empty. -/
def fileLines (text : Bytes) : List Bytes := (text.splitOn 10).filter fun line => 0 < line.length

/-- Rebuild the tree from the file; a malformed line is fatal. -/
def replay (leafFile : Option Bytes) : Except String (List Bytes) :=
  match leafFile with
  | none => .ok []
  | some text => replayLines 0 (fileLines text)

/-- Open the log kept in a file. -/
def opened (logId : String) (logKey : KeyPair) (leafFile : Option Bytes) :
    Except String FileLog := do
  let leafHashes ← replay leafFile
  return { logId := logId, logKey := logKey, leafHashes := leafHashes, leafFile := leafFile }

/-- The number of entries. -/
def size (log : FileLog) : Nat := log.leafHashes.length

/-- Append a leaf, to the file before the tree in memory. -/
def append (write : WriteOutcome) (leafData : Bytes) (log : FileLog) :
    Except String AppendResult × FileLog :=
  let hash := leafHash H leafData
  let leafIndex := log.leafHashes.length
  let leafHashes := log.leafHashes ++ [hash]
  match write with
  | .failed landed error =>
    (.error error, { log with leafFile := some (log.leafFile.getD [] ++ landed) })
  | .written =>
    (.ok { leafIndex := leafIndex, treeSize := leafHashes.length },
      { log with
        leafFile := some (log.leafFile.getD [] ++ (utf8 (toHex hash) ++ [10]))
        leafHashes := leafHashes })

/-- The audit path of a leaf. -/
def inclusionAuditPath (log : FileLog) (leafIndex : Int) : Except String (List Multihash) :=
  auditPathOf H log.leafHashes leafIndex

/-- The current root. -/
def rootHash (log : FileLog) : Except String Multihash := rootHashOf H log.leafHashes

/-- A signed tree head over the current tree, once it is on the disk as the checkpoint. -/
def buildSTH (write : WriteOutcome) (timestamp : String) (log : FileLog) : Except String STH := do
  let sth ← signTreeHead H log.logId log.logKey log.leafHashes.length log.leafHashes timestamp
  match write with
  | .failed _ error => throw error
  | .written => return sth

/-- The proof that the tree only grew. -/
def consistency (log : FileLog) (fromSize : Int) : Except String (List Multihash) :=
  consistencyOf H log.leafHashes fromSize

/-- The log in a file behind the interface. -/
def evidenceLog : EvidenceLog FileLog WriteOutcome where
  size := size
  append := append H
  inclusionAuditPath := inclusionAuditPath H
  rootHash := rootHash H
  buildSTH write timestamp log := (log.buildSTH H write timestamp, log)

end FileLog

/-! ## The tree a log keeps -/

/-- What an append does to a log's leaf hashes: nothing if it throws. -/
def Appended (leafHashes : List Bytes) (leafData : Bytes) (result : Except String AppendResult)
    (leafHashes' : List Bytes) : Prop :=
  match result with
  | .error _ => leafHashes' = leafHashes
  | .ok r => r = { leafIndex := leafHashes.length, treeSize := leafHashes.length + 1 } ∧
      leafHashes' = leafHashes ++ [leafHash H leafData]

/-- A log that keeps the tree of its leaf hashes. -/
structure EvidenceLog.KeepsTree {σ ι : Type} (L : EvidenceLog σ ι) (leafHashes : σ → List Bytes) :
    Prop where
  size : ∀ s, L.size s = (leafHashes s).length
  append : ∀ io leafData s, Appended H (leafHashes s) leafData (L.append io leafData s).1
    (leafHashes (L.append io leafData s).2)
  inclusionAuditPath : ∀ s i, L.inclusionAuditPath s i = auditPathOf H (leafHashes s) i
  rootHash : ∀ s, L.rootHash s = rootHashOf H (leafHashes s)
  /-- Building a head leaves the tree alone. -/
  keeps : ∀ io timestamp s, leafHashes (L.buildSTH io timestamp s).2 = leafHashes s
  /-- A head states the size and the root of the tree. -/
  head : ∀ io timestamp s sth, (L.buildSTH io timestamp s).1 = .ok sth →
    sth.treeSize = (leafHashes s).length ∧ rootHashOf H (leafHashes s) = .ok sth.rootHash

variable {H}

private theorem signTreeHead_ok {logId : String} {logKey : KeyPair} {treeSize : Nat}
    {leafHashes : List Bytes} {timestamp : String} {sth : STH}
    (h : signTreeHead H logId logKey treeSize leafHashes timestamp = .ok sth) :
    sth.treeSize = treeSize ∧ rootHashOf H leafHashes = .ok sth.rootHash := by
  simp only [signTreeHead, bind_eq_ok] at h
  obtain ⟨rootHash, hroot, message, _, h⟩ := h
  cases h
  exact ⟨rfl, hroot⟩

private theorem MemoryLog.length_leaves (log : MemoryLog H) :
    log.leaves.length = log.leafHashes.length := by
  rw [log.hashed, List.length_map]

/-- The log in memory keeps the tree of its leaf hashes. -/
theorem MemoryLog.keepsTree :
    (MemoryLog.evidenceLog (H := H)).KeepsTree H MemoryLog.leafHashes where
  size := MemoryLog.length_leaves
  append io leafData log := by
    refine ⟨?_, rfl⟩
    simp only [List.length_append, List.length_singleton, log.length_leaves]
  inclusionAuditPath _ _ := rfl
  rootHash _ := rfl
  keeps _ _ _ := rfl
  head _ _ log sth h := by
    rw [← log.length_leaves]
    exact signTreeHead_ok h

/-- The log in a file keeps the tree of its leaf hashes, whatever the disk does. -/
theorem FileLog.keepsTree : (FileLog.evidenceLog H).KeepsTree H FileLog.leafHashes where
  size _ := rfl
  append io leafData log := by
    cases io with
    | written => exact ⟨by simp, rfl⟩
    | failed landed error => rfl
  inclusionAuditPath _ _ := rfl
  rootHash _ := rfl
  keeps _ _ _ := rfl
  head io _ log sth h := by
    obtain ⟨head, hhead, h⟩ := bind_eq_ok.mp h
    cases io with
    | written =>
      cases h
      exact signTreeHead_ok hhead
    | failed landed error => cases h

end

end CoolSdk
