import CoolSdk.Phala.Transparency
import CoolSdk.Wire.KeyDirectory

/-!
# Log consistency, verified from receipts alone

The checker that recomputes the history of a log from the receipts that were issued from it. It
keeps one leaf for each index and one head for each size, and checks what it kept; which of the
receipts are thereby accounted for is what the results below settle.
-/

namespace CoolSdk

/-- What is read of a receipt: its binding, its log part and its keys. -/
structure LoggedReceipt where
  bindingHash : Multihash
  inclusion : Option Inclusion
  sth : Option STH
  keyDirectory : KeyDirectory

/-- A receipt that carries a head and an inclusion. -/
structure HeadedReceipt where
  bindingHash : Multihash
  inclusion : Inclusion
  sth : STH
  keyDirectory : KeyDirectory

/-- Keys the verifier trusts for tree heads, over the receipts' own directories. -/
structure ConsistencyOptions where
  trustedKeys : Option KeyDirectory := none

structure ConsistencyHead where
  treeSize : Nat
  rootHash : Multihash
  signatureOk : Bool
  rootMatchesLeaves : Bool
  deriving DecidableEq, Repr

structure ConsistencyPair where
  from_ : Nat
  to_ : Nat
  proofLength : Nat
  ok : Bool
  deriving DecidableEq, Repr

structure ConsistencyResult where
  ok : Bool
  logId : Option String
  heads : List ConsistencyHead
  pairs : List ConsistencyPair
  reasons : List String
  deriving DecidableEq, Repr

/-- The receipt with its head and inclusion, if it carries both. -/
def LoggedReceipt.headed (r : LoggedReceipt) : Option HeadedReceipt :=
  match r.sth, r.inclusion with
  | some sth, some inclusion =>
    some
      { bindingHash := r.bindingHash
        inclusion := inclusion
        sth := sth
        keyDirectory := r.keyDirectory }
  | _, _ => none

/-- A negative result without heads. -/
def ConsistencyResult.fail (reasons : List String) (logId : Option String) : ConsistencyResult :=
  { ok := false, logId := logId, heads := [], pairs := [], reasons := reasons }

section

variable (H : Host)

/-- The leaf of each index claimed, and a reason for each that is claimed twice over. -/
def indexLeaves : List HeadedReceipt → List (Nat × Bytes) → List String →
    Except String (List (Nat × Bytes) × List String)
  | [], leafByIndex, reasons => .ok (leafByIndex, reasons)
  | r :: rest, leafByIndex, reasons => do
    let index := r.inclusion.leafIndex
    let leafData ← recordLeafDataV2 r.bindingHash
    let leaf := leafHash H leafData
    indexLeaves rest (Entries.set leafByIndex index leaf)
      (if (Entries.get leafByIndex index).any fun seen => decide (seen ≠ leaf) then
        reasons ++ ["two different records claim leaf " ++ toString index]
      else reasons)

/-- The leaves below a size, or the first index without one. -/
def collectLeaves (leafByIndex : List (Nat × Bytes)) (maxSize : Nat) : Except Nat (List Bytes) :=
  (List.range maxSize).mapM fun i =>
    match Entries.get leafByIndex i with
    | none => .error i
    | some leaf => .ok leaf

/-- One head for each size, the first, and a reason for each later one with another root. -/
def headsBySize : List HeadedReceipt → List (Nat × HeadedReceipt) → List String →
    List (Nat × HeadedReceipt) × List String
  | [], headBySize, reasons => (headBySize, reasons)
  | r :: rest, headBySize, reasons =>
    let size := r.sth.treeSize
    let prior := Entries.get headBySize size
    headsBySize rest (Entries.set headBySize size (prior.getD r))
      (if prior.any fun prior => decide (prior.sth.rootHash ≠ r.sth.rootHash) then
        reasons ++ ["equivocation: two different roots for tree size " ++ toString size]
      else reasons)

/-- The key a head is checked under: the caller's if there is one, else the receipt's own. -/
def HeadedReceipt.selectedKey (options : ConsistencyOptions) (r : HeadedReceipt) : CarriedKey :=
  let keyId := r.sth.signature.keyId
  match options.trustedKeys with
  | none => r.keyDirectory.read keyId
  | some trustedKeys =>
    match trustedKeys.read keyId with
    | .absent => r.keyDirectory.read keyId
    | key => key

/-- Whether a head's signature verifies under the key selected for it. -/
def HeadedReceipt.signatureOk (options : ConsistencyOptions) (r : HeadedReceipt) :
    Except String Bool :=
  match r.selectedKey options with
  | .absent => .ok false
  | key => do
    let message ← sthSigningMessage H (sthCore r.sth)
    return key.verifies H message r.sth.signature

/-- Whether a head's root is the root of the leaves it covers. -/
def HeadedReceipt.rootMatches (leaves : List Bytes) (r : HeadedReceipt) : Bool :=
  match merkleRoot H (leaves.take r.sth.treeSize), multihashDigest r.sth.rootHash with
  | .ok recomputed, .ok root => decide (recomputed = root)
  | _, _ => false

/-- Check the head kept for a size. -/
def checkHead (options : ConsistencyOptions) (leaves : List Bytes) (r : HeadedReceipt) :
    Except String (ConsistencyHead × List String) := do
  let signatureOk ← r.signatureOk H options
  let rootMatches := r.rootMatches H leaves
  let reasons :=
    (if signatureOk then [] else
      ["tree head " ++ toString r.sth.treeSize ++ ": signature does not verify"]) ++
    (if rootMatches then [] else
      ["tree head " ++ toString r.sth.treeSize ++ ": root does not match the leaves it covers"])
  return ({ treeSize := r.sth.treeSize, rootHash := r.sth.rootHash, signatureOk := signatureOk,
            rootMatchesLeaves := rootMatches }, reasons)

/-- Check two heads of consecutive sizes with a proof computed from the leaves. -/
def checkPair (leaves : List Bytes) (older newer : HeadedReceipt) :
    ConsistencyPair × List String :=
  let m := older.sth.treeSize
  let n := newer.sth.treeSize
  let proof := consistencyProof H (leaves.take n) m
  let ok := match proof, multihashDigest older.sth.rootHash, multihashDigest newer.sth.rootHash with
    | .ok proof, .ok first, .ok second => verifyConsistency H m n first second proof
    | _, _, _ => false
  let proofLength := match proof with
    | .ok proof => proof.length
    | .error _ => 0
  ({ from_ := m, to_ := n, proofLength := proofLength, ok := ok },
    if ok then [] else ["consistency proof " ++ toString m ++ " -> " ++ toString n ++
      " does not verify between the signed roots"])

/-- The heads kept, in the order of their sizes. -/
def headsInOrder (headBySize : List (Nat × HeadedReceipt)) : List HeadedReceipt :=
  ((headBySize.map Prod.fst).insertionSort (· ≤ ·)).filterMap (Entries.get headBySize)

/-- Check the heads and the pairs of a history whose leaves are all there. -/
def checkHistory (options : ConsistencyOptions) (logId : String) (leaves : List Bytes)
    (kept : List HeadedReceipt) (reasons : List String) : Except String ConsistencyResult := do
  let heads ← kept.mapM (checkHead H options leaves)
  let pairs := (kept.zip kept.tail).map fun p => checkPair H leaves p.1 p.2
  let reasons := reasons ++ heads.flatMap Prod.snd ++ pairs.flatMap Prod.snd
  return { ok := reasons.isEmpty && decide (2 ≤ heads.length) &&
            (pairs.all fun p => p.1.ok) &&
            heads.all fun h => h.1.signatureOk && h.1.rootMatchesLeaves
           logId := some logId
           heads := heads.map Prod.fst
           pairs := pairs.map Prod.fst
           reasons := reasons }

/-- Verify that receipts from one log describe a single append-only history. -/
def verifyLogConsistency (receipts : List LoggedReceipt) (options : ConsistencyOptions) :
    Except String ConsistencyResult :=
  let withHead := receipts.filterMap LoggedReceipt.headed
  match withHead with
  | [] | [_] =>
    .ok (.fail ["consistency needs at least two receipts carrying tree heads"] none)
  | first :: _ =>
    let logId := first.sth.logId
    if withHead.any fun r => decide (r.sth.logId ≠ logId) then
      .ok (.fail ["receipts come from more than one log"] (some logId))
    else do
      let (leafByIndex, reasons) ← indexLeaves H withHead [] []
      let maxSize := (withHead.map fun r => r.sth.treeSize).foldl max 0
      match collectLeaves leafByIndex maxSize with
      | .error i =>
        return .fail (reasons ++ ["leaf " ++ toString i ++ " is missing, so the history up to " ++
          "size " ++ toString maxSize ++ " cannot be recomputed"]) (some logId)
      | .ok leaves =>
        let (headBySize, reasons) := headsBySize withHead [] reasons
        checkHistory H options logId leaves (headsInOrder headBySize) reasons

end

variable {H : Host} {options : ConsistencyOptions}

/-! ## What the checker keeps -/

/-- A loop that finds no conflict indexes the leaf of every receipt, and keeps what was indexed. -/
private theorem indexLeaves_spec {rs : List HeadedReceipt} {m m' : List (Nat × Bytes)}
    {reasons : List String} (h : indexLeaves H rs m reasons = .ok (m', [])) :
    reasons = [] ∧ (∀ i leaf, Entries.get m i = some leaf → Entries.get m' i = some leaf) ∧
      ∀ r ∈ rs, ∃ leafData, recordLeafDataV2 r.bindingHash = .ok leafData ∧
        Entries.get m' r.inclusion.leafIndex = some (leafHash H leafData) := by
  induction rs generalizing m reasons with
  | nil =>
    cases h
    exact ⟨rfl, fun _ _ hi => hi, fun _ hr => absurd hr List.not_mem_nil⟩
  | cons r rs ih =>
    obtain ⟨leafData, hleaf, h⟩ := bind_eq_ok.mp h
    obtain ⟨hreasons, hkept, hindexed⟩ := ih h
    by_cases hclash : ((Entries.get m r.inclusion.leafIndex).any fun seen =>
        decide (seen ≠ leafHash H leafData)) = true
    · rw [if_pos hclash] at hreasons
      exact absurd hreasons (List.append_ne_nil_of_right_ne_nil _ (List.cons_ne_nil _ _))
    · rw [if_neg hclash] at hreasons
      refine ⟨hreasons, ?_, ?_⟩
      · intro i leaf hi
        refine hkept i leaf ?_
        by_cases hindex : r.inclusion.leafIndex = i
        · subst hindex
          have hsame : leaf = leafHash H leafData := by
            by_contra hne
            exact hclash (by simp [hi, hne])
          rw [Entries.get_set_self, hsame]
        · rw [Entries.get_set_ne m _ hindex, hi]
      · rw [List.forall_mem_cons]
        exact ⟨⟨leafData, hleaf, hkept _ _ (Entries.get_set_self _ _ _)⟩, hindexed⟩

/-- A head that is kept stays kept. -/
private theorem headsBySize_kept {rs : List HeadedReceipt} {m : List (Nat × HeadedReceipt)}
    {reasons : List String} {size : Nat} {q : HeadedReceipt} (hq : Entries.get m size = some q) :
    Entries.get (headsBySize rs m reasons).1 size = some q := by
  induction rs generalizing m reasons with
  | nil => exact hq
  | cons r rs ih =>
    refine ih ?_
    by_cases hsize : r.sth.treeSize = size
    · subst hsize
      rw [Entries.get_set_self, hq, Option.getD_some]
    · rw [Entries.get_set_ne m _ hsize, hq]

/-- The head kept for a size is the first of that size. -/
private theorem headsBySize_first (before after : List HeadedReceipt) {r : HeadedReceipt}
    {m : List (Nat × HeadedReceipt)} (reasons : List String)
    (hm : Entries.get m r.sth.treeSize = none)
    (hbefore : ∀ q ∈ before, q.sth.treeSize ≠ r.sth.treeSize) :
    Entries.get (headsBySize (before ++ r :: after) m reasons).1 r.sth.treeSize = some r := by
  induction before generalizing m reasons with
  | nil =>
    have hset := Entries.get_set_self m r.sth.treeSize ((Entries.get m r.sth.treeSize).getD r)
    rw [hm, Option.getD_none] at hset
    rw [List.nil_append, headsBySize, hm, Option.getD_none]
    exact headsBySize_kept hset
  | cons q before ih =>
    rw [List.forall_mem_cons] at hbefore
    refine ih _ ?_ hbefore.2
    rw [Entries.get_set_ne m _ hbefore.1, hm]

/-- Heads are kept under their own sizes. -/
private theorem headsBySize_keys (rs : List HeadedReceipt) {m : List (Nat × HeadedReceipt)}
    (reasons : List String)
    (hm : ∀ size q, Entries.get m size = some q → q.sth.treeSize = size) :
    ∀ size q, Entries.get (headsBySize rs m reasons).1 size = some q → q.sth.treeSize = size := by
  induction rs generalizing m reasons with
  | nil => exact hm
  | cons r rs ih =>
    refine ih _ ?_
    intro size q hq
    by_cases hsize : r.sth.treeSize = size
    · subst hsize
      rw [Entries.get_set_self, Option.some.injEq] at hq
      cases hprior : Entries.get m r.sth.treeSize with
      | none => rw [← hq, hprior, Option.getD_none]
      | some prior =>
        rw [← hq, hprior, Option.getD_some]
        exact hm _ _ hprior
    · rw [Entries.get_set_ne m _ hsize] at hq
      exact hm size q hq

/-- A loop that finds no fork keeps, for every receipt, a head of its size with its root. -/
private theorem headsBySize_spec {rs : List HeadedReceipt} {m : List (Nat × HeadedReceipt)}
    {reasons : List String} (h : (headsBySize rs m reasons).2 = []) :
    reasons = [] ∧ ∀ r ∈ rs, ∃ q, Entries.get (headsBySize rs m reasons).1 r.sth.treeSize =
      some q ∧ q.sth.rootHash = r.sth.rootHash := by
  induction rs generalizing m reasons with
  | nil => exact ⟨h, fun _ hr => absurd hr List.not_mem_nil⟩
  | cons r rs ih =>
    obtain ⟨hreasons, hheads⟩ := ih h
    split at hreasons
    · exact absurd hreasons (List.append_ne_nil_of_right_ne_nil _ (List.cons_ne_nil _ _))
    · rename_i hfork
      refine ⟨hreasons, ?_⟩
      have hset := Entries.get_set_self m r.sth.treeSize ((Entries.get m r.sth.treeSize).getD r)
      rw [List.forall_mem_cons]
      rw [headsBySize]
      refine ⟨⟨_, headsBySize_kept hset, ?_⟩, hheads⟩
      cases hprior : Entries.get m r.sth.treeSize with
      | none => rfl
      | some q =>
        rw [hprior] at hfork
        simpa using hfork

/-- The leaves collected are those indexed. -/
private theorem getElem?_collectLeaves {leafByIndex : List (Nat × Bytes)} {maxSize : Nat}
    {leaves : List Bytes} (h : collectLeaves leafByIndex maxSize = .ok leaves) :
    leaves.length = maxSize ∧ ∀ i < maxSize, leaves[i]? = Entries.get leafByIndex i := by
  have hleaves := forall₂_of_mapM h
  have hlength := hleaves.length_eq
  rw [List.length_range] at hlength
  refine ⟨hlength.symm, ?_⟩
  intro i hi
  have hget := hleaves.get (i := i) (by rwa [List.length_range]) (by omega)
  simp only [List.get_eq_getElem, List.getElem_range] at hget
  rw [List.getElem?_eq_getElem (by omega)]
  split at hget
  · cases hget
  · rename_i leaf hleaf
    rw [hleaf, ← Except.ok.inj hget]

private theorem le_foldl_max (sizes : List Nat) (acc : Nat) :
    acc ≤ sizes.foldl max acc ∧ ∀ size ∈ sizes, size ≤ sizes.foldl max acc := by
  induction sizes generalizing acc with
  | nil => exact ⟨le_rfl, fun _ h => absurd h List.not_mem_nil⟩
  | cons n sizes ih =>
    obtain ⟨hacc, hsizes⟩ := ih (max acc n)
    rw [List.foldl_cons, List.forall_mem_cons]
    exact ⟨(le_max_left _ _).trans hacc, (le_max_right _ _).trans hacc, hsizes⟩

/-- Every head that is kept is checked. -/
private theorem mem_headsInOrder {headBySize : List (Nat × HeadedReceipt)} {size : Nat}
    {r : HeadedReceipt} (h : Entries.get headBySize size = some r) :
    r ∈ headsInOrder headBySize := by
  refine List.mem_filterMap.mpr ⟨size, ?_, h⟩
  rw [List.mem_insertionSort, ← Entries.get_isSome_iff, h]
  rfl

/-- Where the history is accepted, nothing was found wrong before, and every head kept is signed
and states the root of the leaves it covers. -/
private theorem checkHistory_ok {logId : String} {leaves : List Bytes} {kept : List HeadedReceipt}
    {reasons : List String} {result : ConsistencyResult}
    (h : checkHistory H options logId leaves kept reasons = .ok result) (hok : result.ok = true) :
    reasons = [] ∧
      ∀ r ∈ kept, r.signatureOk H options = .ok true ∧ r.rootMatches H leaves = true := by
  obtain ⟨heads, hheads, h⟩ := bind_eq_ok.mp h
  cases h
  simp only [Bool.and_eq_true, List.isEmpty_iff, List.append_eq_nil_iff, List.all_eq_true] at hok
  obtain ⟨⟨⟨⟨⟨hreasons, _⟩, _⟩, _⟩, _⟩, hall⟩ := hok
  refine ⟨hreasons, ?_⟩
  intro r hr
  obtain ⟨head, hhead, hchecked⟩ := exists_mem_of_mapM hheads hr
  have hgood := hall head hhead
  obtain ⟨signatureOk, hsignature, hchecked⟩ := bind_eq_ok.mp hchecked
  cases hchecked
  obtain ⟨hsigned, hroot⟩ := hgood
  obtain rfl : signatureOk = true := hsigned
  exact ⟨hsignature, hroot⟩

/-! ## What is accounted for -/

/-- Every receipt is accounted for: its head is signed under the key selected for it, its leaf is
below its head, and one list of leaves has all their leaves and all their roots. -/
structure Accounted (H : Host) (options : ConsistencyOptions) (receipts : List HeadedReceipt) :
    Prop where
  signed : ∀ r ∈ receipts, r.signatureOk H options = .ok true
  covered : ∀ r ∈ receipts, r.inclusion.leafIndex < r.sth.treeSize
  history : ∃ leaves : List Bytes, ∀ r ∈ receipts,
    (∃ leafData, recordLeafDataV2 r.bindingHash = .ok leafData ∧
      leaves[r.inclusion.leafIndex]? = some (leafHash H leafData)) ∧
    r.sth.treeSize ≤ leaves.length ∧
    ∃ root, merkleRoot H (leaves.take r.sth.treeSize) = .ok root ∧
      multihashDigest r.sth.rootHash = .ok root

private theorem rootMatches_iff {leaves : List Bytes} {r : HeadedReceipt} :
    r.rootMatches H leaves = true ↔ ∃ root, merkleRoot H (leaves.take r.sth.treeSize) = .ok root ∧
      multihashDigest r.sth.rootHash = .ok root := by
  rw [HeadedReceipt.rootMatches]
  constructor
  · intro h
    split at h
    · rename_i recomputed root hrecomputed hroot
      rw [decide_eq_true_eq] at h
      exact ⟨recomputed, hrecomputed, h ▸ hroot⟩
    · cases h
  · rintro ⟨root, hrecomputed, hroot⟩
    rw [hrecomputed, hroot]
    exact decide_eq_true rfl

/-- What an accepted set of receipts has been checked for. -/
private theorem accepted {receipts : List LoggedReceipt} {result : ConsistencyResult}
    (h : verifyLogConsistency H receipts options = .ok result) (hok : result.ok = true) :
    ∃ leafByIndex leaves headBySize,
      indexLeaves H (receipts.filterMap LoggedReceipt.headed) [] [] = .ok (leafByIndex, []) ∧
      collectLeaves leafByIndex (((receipts.filterMap LoggedReceipt.headed).map fun r =>
        r.sth.treeSize).foldl max 0) = .ok leaves ∧
      headsBySize (receipts.filterMap LoggedReceipt.headed) [] [] = (headBySize, []) ∧
      ∀ r ∈ headsInOrder headBySize,
        r.signatureOk H options = .ok true ∧ r.rootMatches H leaves = true := by
  rw [verifyLogConsistency] at h
  generalize receipts.filterMap LoggedReceipt.headed = headed at h ⊢
  simp only at h
  split at h
  · cases h
    cases hok
  · cases h
    cases hok
  · rename_i first rest _
    split at h
    · cases h
      cases hok
    · obtain ⟨⟨leafByIndex, reasons⟩, hindex, h⟩ := bind_eq_ok.mp h
      simp only at h
      split at h
      · cases h
        cases hok
      · rename_i leaves hleaves
        obtain ⟨hreasons, hkept⟩ := checkHistory_ok h hok
        have hempty := (headsBySize_spec hreasons).1
        subst hempty
        exact ⟨leafByIndex, leaves, _, hindex, hleaves, Prod.ext rfl hreasons, hkept⟩

/-- Accepted receipts are accounted for exactly when each leaf is below its own head and the
heads the checker drops, those after the first of their size, are signed as well. -/
theorem consistency_accounts_iff {receipts : List LoggedReceipt} {result : ConsistencyResult}
    (h : verifyLogConsistency H receipts options = .ok result) (hok : result.ok = true) :
    Accounted H options (receipts.filterMap LoggedReceipt.headed) ↔
      (∀ r ∈ receipts.filterMap LoggedReceipt.headed,
        r.inclusion.leafIndex < r.sth.treeSize) ∧
      ∀ before r after, receipts.filterMap LoggedReceipt.headed = before ++ r :: after →
        (∃ q ∈ before, q.sth.treeSize = r.sth.treeSize) → r.signatureOk H options = .ok true := by
  obtain ⟨leafByIndex, leaves, headBySize, hindex, hleaves, hsizes, hchecked⟩ := accepted h hok
  generalize receipts.filterMap LoggedReceipt.headed = headed at *
  obtain ⟨_, _, hindexed⟩ := indexLeaves_spec hindex
  obtain ⟨hlength, hget⟩ := getElem?_collectLeaves hleaves
  obtain ⟨_, hheads⟩ := headsBySize_spec (congrArg Prod.snd hsizes)
  have hkeys := headsBySize_keys headed (m := []) [] fun _ _ hq => nomatch hq
  rw [hsizes] at hheads hkeys
  constructor
  · intro haccounted
    refine ⟨haccounted.covered, ?_⟩
    rintro before r after rfl _
    exact haccounted.signed r (List.mem_append_right _ List.mem_cons_self)
  · rintro ⟨hcovered, hdropped⟩
    have hmax : ∀ r ∈ headed, r.sth.treeSize ≤ leaves.length := by
      intro r hr
      rw [hlength]
      exact (le_foldl_max _ _).2 _ (List.mem_map_of_mem hr)
    refine ⟨?_, hcovered, leaves, ?_⟩
    · intro r hr
      obtain ⟨before, after, rfl⟩ := List.append_of_mem hr
      by_cases hfirst : ∃ q ∈ before, q.sth.treeSize = r.sth.treeSize
      · exact hdropped before r after rfl hfirst
      · have hkept := headsBySize_first before after (r := r) (m := []) [] rfl
          fun q hq heq => hfirst ⟨q, hq, heq⟩
        rw [hsizes] at hkept
        exact (hchecked r (mem_headsInOrder hkept)).1
    · intro r hr
      obtain ⟨leafData, hleaf, hat⟩ := hindexed r hr
      refine ⟨⟨leafData, hleaf, ?_⟩, hmax r hr, ?_⟩
      · have hbelow := hcovered r hr
        have hsize := hmax r hr
        rw [hget _ (by omega), hat]
      · obtain ⟨q, hq, hroot⟩ := hheads r hr
        have hmatches := rootMatches_iff.mp (hchecked q (mem_headsInOrder hq)).2
        rwa [hkeys _ _ hq, hroot] at hmatches

/-! ## Two sets of receipts -/

/-- Two records sealed by one log. -/
def historyRun : LogRun (MemoryLog Reference.host) :=
  [LogMove.sealRecord (Reference.key "record" "cmVjb3Jk") [("schema", .str "cool.evidence.v1")]
      "2026-01-01T00:00:01.000Z" () (),
    LogMove.sealRecord (Reference.key "record" "cmVjb3Jk") [("schema", .str "cool.change.v2")]
      "2026-01-01T00:00:02.000Z" () ()].foldl
    (LogRun.next Reference.host MemoryLog.evidenceLog)
    { log := MemoryLog.new Reference.host "cool-nwc" (Reference.key "log" "bG9n")
      appended := []
      heads := []
      receipts := [] }

/-- Their receipts. -/
def historyReceipts : List LoggedReceipt :=
  historyRun.receipts.reverse.map fun r =>
    { bindingHash := r.bindingHash
      inclusion := some r.inclusion
      sth := some r.sth
      keyDirectory := .ofList [("log", (Reference.key "log" "bG9n").directoryEntry)] }

/-- The same head with a signature that nobody made. -/
def LoggedReceipt.forged (r : LoggedReceipt) : LoggedReceipt :=
  { r with
    sth := r.sth.map fun sth =>
      { sth with signature := { sth.signature with ed25519 := "base64:AAAA" } } }

/-- The receipts, and the last of them again under a forged head. -/
def forgedReceipts : List LoggedReceipt :=
  historyReceipts ++ (historyReceipts.drop 1).map LoggedReceipt.forged

theorem consistency_accounts_history :
    ∃ result, verifyLogConsistency Reference.host historyReceipts {} = .ok result ∧
      result.ok = true ∧
      Accounted Reference.host {} (historyReceipts.filterMap LoggedReceipt.headed) := by
  have hrun : (verifyLogConsistency Reference.host historyReceipts {}).map ConsistencyResult.ok =
      .ok true := by
    decide +kernel
  obtain ⟨result, hresult, hok⟩ := ok_of_map_eq hrun
  refine ⟨result, hresult, hok, ?_⟩
  refine (consistency_accounts_iff hresult hok).mpr ⟨by decide +kernel, ?_⟩
  rintro before r after hsplit ⟨q, hq, hsize⟩
  have hsizes : ((historyReceipts.filterMap LoggedReceipt.headed).map
      fun r => r.sth.treeSize).Nodup := by
    decide +kernel
  rw [hsplit, List.map_append, List.map_cons, List.nodup_append] at hsizes
  have hne := hsizes.2.2 _ (List.mem_map_of_mem hq) _ List.mem_cons_self
  exact absurd hsize hne

/-- A second head of a size already seen is accepted under a signature that does not verify. -/
theorem forged_head_accepted :
    ∃ result, verifyLogConsistency Reference.host forgedReceipts {} = .ok result ∧
      result.ok = true ∧
      ¬Accounted Reference.host {} (forgedReceipts.filterMap LoggedReceipt.headed) := by
  have hrun : (verifyLogConsistency Reference.host forgedReceipts {}).map ConsistencyResult.ok =
      .ok true := by
    decide +kernel
  obtain ⟨result, hresult, hok⟩ := ok_of_map_eq hrun
  refine ⟨result, hresult, hok, ?_⟩
  intro haccounted
  have hforged : ∃ r ∈ forgedReceipts.filterMap LoggedReceipt.headed,
      r.signatureOk Reference.host {} = .ok false := by
    decide +kernel
  obtain ⟨r, hr, hfalse⟩ := hforged
  rw [haccounted.signed r hr] at hfalse
  cases hfalse

end CoolSdk
