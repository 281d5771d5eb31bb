import CoolSdk.Authz.ReferenceSigning
import CoolSdk.Core.Transition
import CoolSdk.Phala.Engine

/-!
# The transparency contract of a log

Any number of planes and other callers append to one log and take tree heads and receipts from
it, and any write may fail. Whatever was issued states a log that the log has only grown from,
so audit paths verify against the head of their moment and every two heads are consistent.
-/

namespace CoolSdk

open MerkleTree

/-! ## Verifying what was issued -/

section

variable (H : Host)

/-- Whether an inclusion proof leads from a leaf hash to the root of a tree head. -/
def Inclusion.verifies (inclusion : Inclusion) (leafHashValue : Bytes) (sth : STH) : Bool :=
  match inclusion.auditPath.mapM multihashDigest, multihashDigest sth.rootHash with
  | .ok auditPath, .ok root => decide (inclusion.treeSize = sth.treeSize) &&
      verifyInclusion H leafHashValue inclusion.leafIndex sth.treeSize auditPath root
  | _, _ => false

/-- Whether a proof shows that one tree head extends another. -/
def STH.verifiesConsistency (older newer : STH) (proof : List Multihash) : Bool :=
  match proof.mapM multihashDigest, multihashDigest older.rootHash,
    multihashDigest newer.rootHash with
  | .ok proof, .ok first, .ok second =>
    verifyConsistency H older.treeSize newer.treeSize first second proof
  | _, _, _ => false

end

/-! ## Trees of 32-byte hashes -/

private theorem mapM_fromDigest {path : List Bytes} (h : ∀ a ∈ path, a.length = 32) :
    path.mapM multihashFromDigest = .ok (path.map fun a => multihashPrefix ++ toHex a) ∧
      (path.map fun a => multihashPrefix ++ toHex a).mapM multihashDigest = .ok path := by
  constructor
  · refine mapM_eq_ok (List.forall₂_map_right_iff.mpr (List.forall₂_same.mpr fun a ha => ?_))
    exact if_neg (by simp [h a ha])
  · refine mapM_eq_ok (List.forall₂_map_left_iff.mpr (List.forall₂_same.mpr fun a ha => ?_))
    exact multihashDigest_toHex (h a ha)

section

variable {H : Host} (hsha : ∀ data, (H.sha256 data).length = 32)

include hsha

private theorem root_length {l : List Bytes} (hl : ∀ a ∈ l, a.length = 32) :
    (root (nodeHash H) (emptyRoot H) l).length = 32 :=
  root_closed (P := fun a : Bytes => a.length = 32) (fun _ _ => hsha _) (hsha _) hl

/-- The root hash of a tree decodes to its head. -/
private theorem digest_of_rootHashOf {l : List Bytes} (hmax : l.length ≤ 2 ^ 30)
    (hl : ∀ a ∈ l, a.length = 32) {rootHash : Multihash} (h : rootHashOf H l = .ok rootHash) :
    multihashDigest rootHash = .ok (root (nodeHash H) (emptyRoot H) l) := by
  have hlength := root_length hsha hl
  rw [rootHashOf, merkleRoot_eq hmax, ok_bind, multihashFromDigest, if_neg (by simp [hlength])] at h
  cases h
  exact multihashDigest_toHex hlength

/-- A tree has a root. -/
theorem exists_rootHashOf {l : List Bytes} (hmax : l.length ≤ 2 ^ 30)
    (hl : ∀ a ∈ l, a.length = 32) : ∃ rootHash, rootHashOf H l = .ok rootHash := by
  have hlength := root_length hsha hl
  rw [rootHashOf, merkleRoot_eq hmax, ok_bind, multihashFromDigest, if_neg (by simp [hlength])]
  exact ⟨_, rfl⟩

/-- An index of a tree has an audit path, which decodes to the path of the tree. -/
theorem exists_auditPathOf {l : List Bytes} (hmax : l.length ≤ 2 ^ 30)
    (hl : ∀ a ∈ l, a.length = 32) {i : Nat} (hi : i < l.length) :
    ∃ path, auditPathOf H l i = .ok path ∧
      path.mapM multihashDigest = .ok (auditPath (nodeHash H) (emptyRoot H) l i) := by
  have hclosed : ∀ a ∈ auditPath (nodeHash H) (emptyRoot H) l i, a.length = 32 :=
    auditPath_closed (P := fun a : Bytes => a.length = 32) (fun _ _ => hsha _) (hsha _) hl
  have hpath := mapM_fromDigest hclosed
  rw [auditPathOf, inclusionProof_eq hmax hi, ok_bind]
  exact ⟨_, hpath⟩

/-- An audit path of a tree leads to every head that states its root. -/
theorem verifies_of_auditPathOf {l : List Bytes} (hmax : l.length ≤ 2 ^ 30)
    (hl : ∀ a ∈ l, a.length = 32) {i : Nat} {hash : Bytes} (hget : l[i]? = some hash)
    {path : List Multihash} (hpath : auditPathOf H l i = .ok path) {sth : STH}
    (hsize : sth.treeSize = l.length) (hroot : rootHashOf H l = .ok sth.rootHash) :
    Inclusion.verifies H ⟨i, sth.treeSize, path⟩ hash sth = true := by
  have hi := (List.getElem?_eq_some_iff.mp hget).1
  obtain ⟨path', hpath', hdecode⟩ := exists_auditPathOf hsha hmax hl hi
  obtain rfl := Except.ok.inj (hpath'.symm.trans hpath)
  have hverify := verifyInclusion_auditPath (H := H) hget
  simp only [Inclusion.verifies, hdecode, digest_of_rootHashOf hsha hmax hl hroot]
  rw [hsize, decide_true, Bool.true_and]
  exact hverify

/-- Heads of a tree and of its first leaves are consistent. -/
private theorem exists_consistencyOf {l older : List Bytes} (hmax : l.length ≤ 2 ^ 30)
    (hl : ∀ a ∈ l, a.length = 32) (hpre : older <+: l) {first second : STH}
    (hfirst : first.treeSize = older.length ∧ rootHashOf H older = .ok first.rootHash)
    (hsecond : second.treeSize = l.length ∧ rootHashOf H l = .ok second.rootHash) :
    ∃ proof, consistencyOf H l first.treeSize = .ok proof ∧
      first.verifiesConsistency H second proof = true := by
  have hle := hpre.length_le
  have holder := List.prefix_iff_eq_take.mp hpre
  obtain ⟨proof, hproof, hnodes, hverify⟩ := exists_consistencyProof (H := H) hmax hle
  have hclosed : (seamNode (nodeHash H) (emptyRoot H) l older.length).length = 32 ∧
      ∀ a ∈ seamPath (nodeHash H) (emptyRoot H) l older.length, a.length = 32 :=
    seam_closed (P := fun a : Bytes => a.length = 32) (fun _ _ => hsha _) (hsha _) hl
  have hlengths : ∀ a ∈ proof, a.length = 32 := by
    intro a ha
    rcases hnodes a ha with rfl | ha
    · exact hclosed.1
    · exact hclosed.2 a ha
  have hdigests := mapM_fromDigest hlengths
  have hdown := digest_of_rootHashOf hsha (hle.trans hmax) (fun a ha => hl a (hpre.subset ha))
    hfirst.2
  have hup := digest_of_rootHashOf hsha hmax hl hsecond.2
  rw [← holder] at hverify
  refine ⟨proof.map fun a => multihashPrefix ++ toHex a, ?_, ?_⟩
  · rw [consistencyOf, hfirst.1, hproof, ok_bind, hdigests.1]
  · simp only [STH.verifiesConsistency, hdigests.2, hdown, hup, hfirst.1, hsecond.1]
    exact hverify

end

/-! ## Runs -/

/-- A log in use, with everything that was issued from it. -/
structure LogRun (σ : Type) where
  log : σ
  /-- The leaves appended, with where the log said they landed. -/
  appended : List (Bytes × AppendResult)
  /-- The tree heads built, each with the log it was built over. -/
  heads : List (STH × σ)
  receipts : List ReceiptV2

/-- One call, with what its surroundings decide. -/
inductive LogMove (ι : Type)
  | append (io : ι) (leafData : Bytes)
  | buildSTH (io : ι) (timestamp : String)
  | sealRecord (recordKey : KeyPair) (core : RecordCoreV2) (clock : String) (leafIo headIo : ι)

section

variable (H : Host) {σ ι : Type} (L : EvidenceLog σ ι)

/-- The run after a call; a call that throws issues nothing. -/
def LogRun.next (r : LogRun σ) : LogMove ι → LogRun σ
  | .append io leafData =>
    match L.append io leafData r.log with
    | (.error _, log) => { r with log := log }
    | (.ok landed, log) => { r with log := log, appended := (leafData, landed) :: r.appended }
  | .buildSTH io timestamp =>
    match L.buildSTH io timestamp r.log with
    | (.error _, log) => { r with log := log }
    | (.ok sth, log) => { r with log := log, heads := (sth, log) :: r.heads }
  | .sealRecord recordKey core clock leafIo headIo =>
    match EvidencePlane.seal H L recordKey core clock leafIo headIo r.log with
    | (.error _, log) => { r with log := log }
    | (.ok receipt, log) =>
      { r with
        log := log
        heads := (receipt.sth, log) :: r.heads
        receipts := receipt :: r.receipts }

/-- The runs of a log from its opening. -/
def logRuns (opened : σ → Prop) : TransitionSystem (LogRun σ) (LogMove ι) where
  init r := opened r.log ∧ r.appended = [] ∧ r.heads = [] ∧ r.receipts = []
  step r move r' := r' = r.next H L move

variable (leafHashes : σ → List Bytes)

/-- Everything issued states a log that the present one has grown from. -/
structure LogRun.Grows (r : LogRun σ) : Prop where
  wide : ∀ hash ∈ leafHashes r.log, hash.length = 32
  landed : ∀ a ∈ r.appended, (leafHashes r.log)[a.2.leafIndex]? = some (leafHash H a.1)
  heads : ∀ head ∈ r.heads, leafHashes head.2 <+: leafHashes r.log ∧
    head.1.treeSize = (leafHashes head.2).length ∧
    rootHashOf H (leafHashes head.2) = .ok head.1.rootHash
  receipts : ∀ receipt ∈ r.receipts, ∃ l, l <+: leafHashes r.log ∧ receipt.TakenFrom H l

/-- What a log promises of a moment and of all that was issued before. -/
structure LogRun.Transparent (r : LogRun σ) : Prop where
  /-- A leaf is where the log said it landed. -/
  landed : ∀ a ∈ r.appended, (leafHashes r.log)[a.2.leafIndex]? = some (leafHash H a.1)
  /-- Every leaf can be proved. -/
  provable : ∀ i < L.size r.log, ∃ path, L.inclusionAuditPath r.log i = .ok path
  /-- An audit path leads from its leaf to the root of a head built at the same moment. -/
  included : ∀ (i : Int) path, L.inclusionAuditPath r.log i = .ok path →
    ∀ io timestamp sth, (L.buildSTH io timestamp r.log).1 = .ok sth →
      ∃ hash, 0 ≤ i ∧ (leafHashes r.log)[i.toNat]? = some hash ∧
        Inclusion.verifies H ⟨i.toNat, sth.treeSize, path⟩ hash sth = true
  /-- The proof in a receipt leads from its record to the head beside it. -/
  receipts : ∀ receipt ∈ r.receipts, ∃ leafData, recordLeafDataV2 receipt.bindingHash = .ok leafData ∧
    receipt.inclusion.verifies H (leafHash H leafData) receipt.sth = true
  /-- Every two heads are consistent, by the proof computed from the log of the newer. -/
  consistent : ∀ older ∈ r.heads, ∀ newer ∈ r.heads, older.1.treeSize ≤ newer.1.treeSize →
    ∃ proof, consistencyOf H (leafHashes newer.2) older.1.treeSize = .ok proof ∧
      older.1.verifiesConsistency H newer.1 proof = true

end

variable {H : Host} {σ ι : Type} {L : EvidenceLog σ ι} {leafHashes : σ → List Bytes}

/-- A call grows the log by at most one leaf. -/
theorem LogRun.next_grown (hL : L.KeepsTree H leafHashes) (r : LogRun σ) (move : LogMove ι) :
    Grown H (leafHashes r.log) (leafHashes (r.next H L move).log) := by
  cases move with
  | append io leafData =>
    have happend := (hL.append io leafData r.log).grown
    rw [LogRun.next]
    split <;> (rename_i h; rwa [h] at happend)
  | buildSTH io timestamp =>
    have hkeeps := hL.keeps io timestamp r.log
    rw [LogRun.next]
    split <;> (rename_i h; rw [h] at hkeeps; exact .inl hkeeps)
  | sealRecord recordKey core clock leafIo headIo =>
    have hseal := EvidencePlane.seal_grown hL recordKey core clock leafIo headIo r.log
    rw [LogRun.next]
    split <;> (rename_i h; rwa [h] at hseal)

private theorem getElem?_of_prefix {l l' : List Bytes} (h : l <+: l') {i : Nat} {a : Bytes}
    (hget : l[i]? = some a) : l'[i]? = some a := by
  obtain ⟨rest, rfl⟩ := h
  rw [List.getElem?_append_left (List.getElem?_eq_some_iff.mp hget).1, hget]

/-- Whatever was issued still states a log that a later one has grown from. -/
theorem LogRun.Grows.later {r : LogRun σ} {log : σ} (h : r.Grows H leafHashes)
    (hwide : ∀ hash ∈ leafHashes log, hash.length = 32)
    (hpre : leafHashes r.log <+: leafHashes log) :
    LogRun.Grows H leafHashes { r with log := log } where
  wide := hwide
  landed a ha := getElem?_of_prefix hpre (h.landed a ha)
  heads head hhead := by
    obtain ⟨hbefore, hstates⟩ := h.heads head hhead
    exact ⟨hbefore.trans hpre, hstates⟩
  receipts receipt hreceipt := by
    obtain ⟨l, hbefore, htaken⟩ := h.receipts receipt hreceipt
    exact ⟨l, hbefore.trans hpre, htaken⟩

private theorem grows_log (hsha : ∀ data, (H.sha256 data).length = 32) {r : LogRun σ} {log : σ}
    (h : r.Grows H leafHashes) (hgrown : Grown H (leafHashes r.log) (leafHashes log)) :
    LogRun.Grows H leafHashes { r with log := log } := by
  refine h.later ?_ hgrown.prefix
  rcases hgrown with heq | ⟨leafData, heq⟩
  · rw [heq]
    exact h.wide
  · rw [heq, List.forall_mem_append, List.forall_mem_singleton]
    exact ⟨h.wide, hsha _⟩

/-- Every call keeps the invariant. -/
theorem LogRun.Grows.next (hsha : ∀ data, (H.sha256 data).length = 32)
    (hL : L.KeepsTree H leafHashes) {r : LogRun σ} (h : r.Grows H leafHashes) (move : LogMove ι) :
    (r.next H L move).Grows H leafHashes := by
  have hgrown := r.next_grown hL move
  cases move with
  | append io leafData =>
    have happend := hL.append io leafData r.log
    rw [LogRun.next] at hgrown ⊢
    split
    · rename_i happended
      rw [happended] at hgrown
      exact grows_log hsha h hgrown
    · rename_i landed log happended
      rw [happended] at hgrown happend
      obtain ⟨hlanded, hleaves⟩ := happend
      have hbefore := grows_log hsha h hgrown
      refine { hbefore with landed := ?_ }
      rw [List.forall_mem_cons]
      refine ⟨?_, hbefore.landed⟩
      rw [hleaves, hlanded]
      exact List.getElem?_concat_length
  | buildSTH io timestamp =>
    have hhead := hL.head io timestamp r.log
    have hkeeps := hL.keeps io timestamp r.log
    rw [LogRun.next] at hgrown ⊢
    split
    · rename_i hbuilt
      rw [hbuilt] at hgrown
      exact grows_log hsha h hgrown
    · rename_i sth log hbuilt
      rw [hbuilt] at hgrown hhead hkeeps
      have hbefore := grows_log hsha h hgrown
      refine { hbefore with heads := ?_ }
      rw [List.forall_mem_cons]
      refine ⟨⟨List.prefix_rfl, ?_⟩, hbefore.heads⟩
      rw [hkeeps]
      exact hhead sth rfl
  | sealRecord recordKey core clock leafIo headIo =>
    rw [LogRun.next] at hgrown ⊢
    split
    · rename_i hsealed
      rw [hsealed] at hgrown
      exact grows_log hsha h hgrown
    · rename_i receipt log hsealed
      rw [hsealed] at hgrown
      have htaken := EvidencePlane.seal_takenFrom hL hsealed
      have hbefore := grows_log hsha h hgrown
      refine { hbefore with heads := ?_, receipts := ?_ }
      · rw [List.forall_mem_cons]
        exact ⟨⟨List.prefix_rfl, htaken.head⟩, hbefore.heads⟩
      · rw [List.forall_mem_cons]
        exact ⟨⟨_, List.prefix_rfl, htaken⟩, hbefore.receipts⟩

/-- In every run of a log of 32-byte hashes, what was issued states a log that the present one
has grown from. -/
private theorem reachable_grows (hsha : ∀ data, (H.sha256 data).length = 32)
    (hL : L.KeepsTree H leafHashes) {opened : σ → Prop}
    (hopened : ∀ s, opened s → ∀ hash ∈ leafHashes s, hash.length = 32) {r : LogRun σ}
    (h : (logRuns H L opened).Reachable r) : r.Grows H leafHashes := by
  refine h.invariant ?_ ?_
  · rintro r ⟨hlog, happended, hheads, hreceipts⟩
    refine ⟨hopened r.log hlog, ?_, ?_, ?_⟩
    · simp [happended]
    · simp [hheads]
    · simp [hreceipts]
  · rintro r move r' hr rfl
    exact hr.next hsha hL move

/-- While it is small enough, a log that grows is transparent. -/
private theorem LogRun.Grows.transparent (hsha : ∀ data, (H.sha256 data).length = 32)
    (hL : L.KeepsTree H leafHashes) {r : LogRun σ} (h : r.Grows H leafHashes)
    (hmax : L.size r.log ≤ 2 ^ 30) : r.Transparent H L leafHashes := by
  rw [hL.size] at hmax
  refine ⟨h.landed, ?_, ?_, ?_, ?_⟩
  · intro i hi
    rw [hL.size] at hi
    rw [hL.inclusionAuditPath]
    obtain ⟨path, hpath, _⟩ := exists_auditPathOf hsha hmax h.wide hi
    exact ⟨path, hpath⟩
  · intro i path hpath io timestamp sth hsth
    rw [hL.inclusionAuditPath] at hpath
    by_cases hrange : i < 0 ∨ i ≥ (leafHashes r.log).length
    · rw [auditPathOf, inclusionProof_eq_error hrange] at hpath
      cases hpath
    · obtain ⟨j, rfl⟩ := Int.eq_ofNat_of_zero_le (a := i) (by omega)
      have hj : j < (leafHashes r.log).length := by omega
      obtain ⟨hsize, hroot⟩ := hL.head io timestamp r.log sth hsth
      refine ⟨_, by omega, List.getElem?_eq_getElem hj, ?_⟩
      exact verifies_of_auditPathOf hsha hmax h.wide (List.getElem?_eq_getElem hj) hpath hsize hroot
  · intro receipt hreceipt
    obtain ⟨l, hpre, htaken⟩ := h.receipts receipt hreceipt
    obtain ⟨leafData, hleaf, hget⟩ := htaken.leaf
    have hverify := verifies_of_auditPathOf hsha (hpre.length_le.trans hmax)
      (fun a ha => h.wide a (hpre.subset ha)) hget htaken.path htaken.head.1 htaken.head.2
    rw [← htaken.size] at hverify
    exact ⟨leafData, hleaf, hverify⟩
  · intro older holder newer hnewer hle
    obtain ⟨hfirst, hfirstStates⟩ := h.heads older holder
    obtain ⟨hsecond, hsecondStates⟩ := h.heads newer hnewer
    rw [hfirstStates.1, hsecondStates.1] at hle
    exact exists_consistencyOf hsha (hsecond.length_le.trans hmax)
      (fun a ha => h.wide a (hsecond.subset ha)) (List.prefix_of_prefix_length_le hfirst hsecond hle)
      hfirstStates hsecondStates

/-! ## Both logs -/

/-- A replayed file gives hashes of 32 bytes. -/
private theorem length_of_replayLines {lines : List Bytes} {index : Nat} {leafHashes : List Bytes}
    (h : FileLog.replayLines index lines = .ok leafHashes) :
    ∀ hash ∈ leafHashes, hash.length = 32 := by
  induction lines generalizing index leafHashes with
  | nil =>
    cases h
    exact fun hash hmem => absurd hmem List.not_mem_nil
  | cons line lines ih =>
    rw [FileLog.replayLines] at h
    split at h
    · cases h
    · rename_i hline
      simp only [bind_eq_ok] at h
      obtain ⟨hash, hhash, rest, hrest, h⟩ := h
      cases h
      rw [List.forall_mem_cons]
      refine ⟨?_, ih hrest⟩
      simp only [FileLog.isDigestLine, Bool.not_eq_true', Bool.not_eq_false, Bool.and_eq_true,
        decide_eq_true_eq] at hline
      rw [fromHexUtf8] at hhash
      split at hhash
      · rename_i hpairs
        cases hhash
        have hlength := length_hexPairs hpairs
        omega
      · cases hhash

theorem FileLog.length_of_replay {leafFile : Option Bytes} {leafHashes : List Bytes}
    (h : FileLog.replay leafFile = .ok leafHashes) : ∀ hash ∈ leafHashes, hash.length = 32 := by
  cases leafFile with
  | none =>
    cases h
    exact fun hash hmem => absurd hmem List.not_mem_nil
  | some text => exact length_of_replayLines h

/-- In every run of a log in memory or in a file, opened on any contents and under any failing
writes, of at most 2^30 entries: audit paths and receipts verify against the head of their
moment, and every two heads that were issued are consistent. -/
theorem transparency_contract (hsha : ∀ data, (H.sha256 data).length = 32) (logId : String)
    (logKey : KeyPair) :
    (∀ r, (logRuns H MemoryLog.evidenceLog (· = MemoryLog.new H logId logKey)).Reachable r →
      r.log.size ≤ 2 ^ 30 → r.Transparent H MemoryLog.evidenceLog MemoryLog.leafHashes) ∧
    ∀ leafFile r, (logRuns H (FileLog.evidenceLog H)
        (fun log => FileLog.opened logId logKey leafFile = .ok log)).Reachable r →
      r.log.size ≤ 2 ^ 30 → r.Transparent H (FileLog.evidenceLog H) FileLog.leafHashes := by
  constructor
  · intro r hr hmax
    refine (reachable_grows hsha MemoryLog.keepsTree ?_ hr).transparent hsha MemoryLog.keepsTree hmax
    rintro _ rfl
    exact fun hash hmem => absurd hmem List.not_mem_nil
  · intro leafFile r hr hmax
    refine (reachable_grows hsha FileLog.keepsTree ?_ hr).transparent hsha FileLog.keepsTree hmax
    intro log hopened
    obtain ⟨leafHashes, hreplay, hopened⟩ := bind_eq_ok.mp hopened
    cases hopened
    exact FileLog.length_of_replay hreplay

/-- A head of one leaf, a receipt, and a head of three leaves, from a log in a file of one leaf
whose first write fails. -/
def loggedMoves : List (LogMove WriteOutcome) :=
  [.append (.failed [97] "ENOSPC") [1],
    .buildSTH .written "2026-01-01T00:00:01.000Z",
    .sealRecord (Reference.key "record" "cmVjb3Jk") [("schema", .str "cool.evidence.v1")]
      "2026-01-01T00:00:02.000Z" .written .written,
    .append .written [2],
    .buildSTH .written "2026-01-01T00:00:03.000Z"]

/-- A log in a file of one leaf. -/
def loggedFile : FileLog :=
  { logId := "cool-nwc"
    logKey := Reference.key "log" "bG9n"
    leafHashes := [leafHash Reference.host [0]]
    leafFile := some (utf8 (toHex (leafHash Reference.host [0])) ++ [10]) }

/-- The log after those calls, with what was issued. -/
def loggedRun : LogRun FileLog :=
  loggedMoves.foldl (LogRun.next Reference.host (FileLog.evidenceLog Reference.host))
    ⟨loggedFile, [], [], []⟩

private theorem loggedFile_opened :
    FileLog.opened "cool-nwc" (Reference.key "log" "bG9n") loggedFile.leafFile = .ok loggedFile := by
  have hreplay : FileLog.replay loggedFile.leafFile = .ok loggedFile.leafHashes := by
    decide +kernel
  rw [FileLog.opened, hreplay]
  rfl

private theorem loggedRun_reachable :
    (logRuns Reference.host (FileLog.evidenceLog Reference.host) fun log =>
      FileLog.opened "cool-nwc" (Reference.key "log" "bG9n") loggedFile.leafFile =
        .ok log).Reachable loggedRun := by
  apply TransitionSystem.reachable_foldl
  · exact fun _ _ => rfl
  · exact ⟨loggedFile_opened, rfl, rfl, rfl⟩

theorem transparency_contract_run :
    loggedRun.heads.map (fun head => head.1.treeSize) = [3, 2, 1] ∧
      loggedRun.receipts.length = 1 ∧
      loggedRun.Transparent Reference.host (FileLog.evidenceLog Reference.host)
        FileLog.leafHashes := by
  have hsize : loggedRun.log.size ≤ 2 ^ 30 := by decide +kernel
  refine ⟨by decide +kernel, by decide +kernel, ?_⟩
  exact (transparency_contract (H := Reference.host) Reference.length_digest _ _).2 _ _
    loggedRun_reachable hsize

end CoolSdk
