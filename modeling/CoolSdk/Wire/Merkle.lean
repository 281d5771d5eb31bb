import CoolSdk.Core.Fallible
import CoolSdk.Core.MerkleConsistency
import CoolSdk.Core.WhileLoop
import CoolSdk.Runtime.Host

/-!
# The log's Merkle tree

The proof generators recurse on the two sides of a split; the verifiers walk from the
bottom with two counters. Sizes at which the 32-bit shift of the split wraps around make
the generators run forever, which is an error of its own here. Below that every generator
and verifier is the corresponding function on Merkle trees.
-/

namespace CoolSdk

open MerkleTree

section

variable (H : Host)

/-- The hash of a leaf. -/
def leafHash (data : Bytes) : Bytes := H.sha256 (0x00 :: data)

/-- The hash of an interior node. -/
def nodeHash (left right : Bytes) : Bytes := H.sha256 (0x01 :: (left ++ right))

/-- The head of a log without entries. -/
def emptyRoot : Bytes := H.sha256 []

/-- The loop of the split. A shift past 31 bits leaves zero, from where it never returns. -/
def doubleBelow (n : Nat) : Nat → BitVec 32 → Except String Nat
  | 0, _ => .error "largestPowerOfTwoBelow does not return"
  | fuel + 1, k => if (k <<< 1).toInt < n then doubleBelow n fuel (k <<< 1) else .ok k.toNat

/-- The largest power of two strictly below a size. -/
def largestPowerOfTwoBelow (n : Nat) : Except String Nat := doubleBelow n 32 1

/-- The tree hash of a list of leaf hashes, recursing no deeper than `depth`. -/
def merkleRootWithin : Nat → List Bytes → Except String Bytes
  | 0, leafHashes => .ok (leafHashes.headD (emptyRoot H))
  | depth + 1, leafHashes =>
    if leafHashes.length = 0 then .ok (emptyRoot H)
    else if leafHashes.length = 1 then .ok (leafHashes.headD (emptyRoot H))
    else do
      let k ← largestPowerOfTwoBelow leafHashes.length
      let left ← merkleRootWithin depth (leafHashes.take k)
      let right ← merkleRootWithin depth (leafHashes.drop k)
      return nodeHash H left right

/-- The tree hash of a list of leaf hashes. Both sides of a split are shorter than the list. -/
def merkleRoot (leafHashes : List Bytes) : Except String Bytes :=
  merkleRootWithin H leafHashes.length leafHashes

/-- The text of an index outside a tree. -/
def indexOutOfRange (m : Int) (n : Nat) : String :=
  "leaf index " ++ toString m ++ " out of range for size " ++ toString n

/-- The audit path of an index, recursing no deeper than `depth`. -/
def inclusionProofWithin : Nat → List Bytes → Int → Except String (List Bytes)
  | 0, leafHashes, m => .error (indexOutOfRange m leafHashes.length)
  | depth + 1, leafHashes, m =>
    if m < 0 ∨ m ≥ leafHashes.length then .error (indexOutOfRange m leafHashes.length)
    else if leafHashes.length = 1 then .ok []
    else do
      let k ← largestPowerOfTwoBelow leafHashes.length
      if m < k then
        let below ← inclusionProofWithin depth (leafHashes.take k) m
        let sibling ← merkleRoot H (leafHashes.drop k)
        return below ++ [sibling]
      else
        let below ← inclusionProofWithin depth (leafHashes.drop k) (m - k)
        let sibling ← merkleRoot H (leafHashes.take k)
        return below ++ [sibling]

/-- The audit path that proves an index in a tree. -/
def inclusionProof (leafHashes : List Bytes) (m : Int) : Except String (List Bytes) :=
  inclusionProofWithin H leafHashes.length leafHashes m

/-- Ascend while the index is even and not zero. -/
def ascend (fn sn : Nat) : Nat × Nat :=
  if _ : fn % 2 = 0 ∧ fn ≠ 0 then ascend (fn / 2) (sn / 2) else (fn, sn)
termination_by fn

/-- The loop over an audit path, at an index and the last index of its level. -/
def climbPath (hash : Bytes) (fn sn : Nat) : List Bytes → Except String Bytes
  | [] => if sn ≠ 0 then .error "audit path too short for tree size" else .ok hash
  | sibling :: auditPath =>
    if sn = 0 then .error "audit path too long for tree size"
    else if fn % 2 = 1 ∨ fn = sn then
      let up := if fn % 2 = 0 then ascend fn sn else (fn, sn)
      climbPath (nodeHash H sibling hash) (up.1 / 2) (up.2 / 2) auditPath
    else climbPath (nodeHash H hash sibling) (fn / 2) (sn / 2) auditPath

/-- Recompute a tree root from a leaf hash and its audit path. -/
def rootFromInclusionProof (leafHashValue : Bytes) (leafIndex : Int) (treeSize : Nat)
    (auditPath : List Bytes) : Except String Bytes :=
  if leafIndex < 0 ∨ leafIndex ≥ treeSize then .error (indexOutOfRange leafIndex treeSize)
  else climbPath H leafHashValue leafIndex.toNat (treeSize - 1) auditPath

/-- Whether an audit path leads from a leaf hash to the expected root. -/
def verifyInclusion (leafHashValue : Bytes) (leafIndex : Int) (treeSize : Nat)
    (auditPath : List Bytes) (expectedRoot : Bytes) : Bool :=
  match rootFromInclusionProof H leafHashValue leafIndex treeSize auditPath with
  | .error _ => false
  | .ok computed => bytesEqual computed expectedRoot

/-- The recursion of a consistency proof, no deeper than `depth`. -/
def subproof : Nat → Nat → List Bytes → Bool → Except String (List Bytes)
  | 0, _, _, _ => .error "subproof does not return"
  | depth + 1, m, hashes, b =>
    if m = hashes.length then
      if b then .ok [] else do
        let root ← merkleRoot H hashes
        return [root]
    else do
      let k ← largestPowerOfTwoBelow hashes.length
      if m ≤ k then
        let below ← subproof depth m (hashes.take k) b
        let sibling ← merkleRoot H (hashes.drop k)
        return below ++ [sibling]
      else
        let below ← subproof depth (m - k) (hashes.drop k) false
        let sibling ← merkleRoot H (hashes.take k)
        return below ++ [sibling]

/-- The proof that a tree extends its first `m` leaves. -/
def consistencyProof (leafHashes : List Bytes) (m : Int) : Except String (List Bytes) :=
  if m < 0 ∨ m > leafHashes.length then
    .error ("invalid first size " ++ toString m ++ " for second size " ++
      toString leafHashes.length)
  else if m = 0 ∨ m = leafHashes.length then .ok []
  else subproof H leafHashes.length m.toNat leafHashes true

/-- `x > 0 && (x & (x - 1)) === 0`, on 32 bits. -/
def isPowerOfTwo (x : Nat) : Bool :=
  decide (0 < x) && BitVec.ofNat 32 x &&& BitVec.ofNat 32 (x - 1) == 0

/-- Ascend while the index is odd. -/
def ascendOdd (fn sn : Nat) : Nat × Nat :=
  if _ : fn % 2 = 1 then ascendOdd (fn / 2) (sn / 2) else (fn, sn)
termination_by fn

/-- The loop over a consistency proof: the two roots reached and what is left of the proof. -/
def climbBoth (fr sr : Bytes) (fn sn : Nat) : List Bytes → Option (Bytes × Bytes × List Bytes)
  | [] => if sn = 0 then some (fr, sr, []) else none
  | c :: path =>
    if sn = 0 then some (fr, sr, c :: path)
    else if fn % 2 = 1 ∨ fn = sn then
      let up := ascend fn sn
      climbBoth (nodeHash H c fr) (nodeHash H c sr) (up.1 / 2) (up.2 / 2) path
    else climbBoth fr (nodeHash H sr c) (fn / 2) (sn / 2) path

/-- Whether a proof shows that a tree of size `n` extends a tree of size `m`. -/
def verifyConsistency (m n : Nat) (firstRoot secondRoot : Bytes) (proof : List Bytes) : Bool :=
  if m = 0 then true
  else if m = n then decide (proof.length = 0) && bytesEqual firstRoot secondRoot
  else if m > n then false
  else
    match if isPowerOfTwo m then firstRoot :: proof else proof with
    | [] => false
    | start :: path =>
      let up := ascendOdd (m - 1) (n - 1)
      match climbBoth H start start up.1 up.2 path with
      | none => false
      | some (fr, sr, rest) =>
        decide (rest = []) && bytesEqual fr firstRoot && bytesEqual sr secondRoot

end

/-! ## The generators build trees -/

private theorem toInt_double : ∀ k < 30, ((BitVec.ofNat 32 (2 ^ k)) <<< 1).toInt = 2 ^ (k + 1) ∧
    (BitVec.ofNat 32 (2 ^ k)) <<< 1 = BitVec.ofNat 32 (2 ^ (k + 1)) ∧
    (BitVec.ofNat 32 (2 ^ k)).toNat = 2 ^ k := by
  decide

private theorem doubleBelow_eq {n : Nat} (hmax : n ≤ 2 ^ 30) {k fuel : Nat} (hk : k + fuel = 32)
    (h : 2 ^ k < n) : doubleBelow n fuel (BitVec.ofNat 32 (2 ^ k)) = .ok (split n) := by
  induction fuel generalizing k with
  | zero =>
    obtain rfl : k = 32 := by omega
    omega
  | succ fuel ih =>
    have hlt : k < 30 := (Nat.pow_lt_pow_iff_right (a := 2) (by omega)).mp (h.trans_le hmax)
    obtain ⟨hint, hshift, hnat⟩ := toInt_double k hlt
    rw [doubleBelow, hint, hshift, hnat]
    by_cases hnext : 2 ^ (k + 1) < n
    · rw [if_pos (by exact_mod_cast hnext)]
      exact ih (by omega) hnext
    · rw [if_neg (by exact_mod_cast hnext), split_eq h (by rw [Nat.pow_succ] at hnext; omega)]

/-- Up to the bound, the split is the largest power of two below the size. -/
theorem largestPowerOfTwoBelow_eq {n : Nat} (h : 2 ≤ n) (hmax : n ≤ 2 ^ 30) :
    largestPowerOfTwoBelow n = .ok (split n) :=
  doubleBelow_eq (k := 0) hmax rfl (by omega)

variable {H : Host}

private theorem merkleRootWithin_eq {depth : Nat} {l : List Bytes} (hdepth : l.length ≤ depth)
    (hmax : l.length ≤ 2 ^ 30) :
    merkleRootWithin H depth l = .ok (root (nodeHash H) (emptyRoot H) l) := by
  induction depth generalizing l with
  | zero =>
    obtain rfl : l = [] := List.length_eq_zero_iff.mp (by omega)
    rw [root_nil]
    rfl
  | succ depth ih =>
    rw [merkleRootWithin]
    split_ifs with hzero hone
    · obtain rfl : l = [] := List.length_eq_zero_iff.mp hzero
      rw [root_nil]
    · obtain ⟨a, rfl⟩ := List.length_eq_one_iff.mp hone
      rw [root_singleton]
      rfl
    · have hlt := split_lt (n := l.length) (by omega)
      have hpos := split_pos l.length
      rw [largestPowerOfTwoBelow_eq (by omega) hmax, root_eq _ _ (by omega)]
      have hleft := ih (l := l.take (split l.length)) (by rw [List.length_take]; omega)
        (by rw [List.length_take]; omega)
      have hright := ih (l := l.drop (split l.length)) (by rw [List.length_drop]; omega)
        (by rw [List.length_drop]; omega)
      simp only [ok_bind, hleft, hright]
      rfl

/-- Up to the bound, the tree hash is the head of the tree. -/
theorem merkleRoot_eq {l : List Bytes} (hmax : l.length ≤ 2 ^ 30) :
    merkleRoot H l = .ok (root (nodeHash H) (emptyRoot H) l) :=
  merkleRootWithin_eq le_rfl hmax

private theorem toInt_double_le : ∀ k < 33,
    ((BitVec.ofNat 32 (2 ^ k)) <<< 1).toInt ≤ 2 ^ 30 ∧
      (BitVec.ofNat 32 (2 ^ k)) <<< 1 = BitVec.ofNat 32 (2 ^ min (k + 1) 32) := by
  decide

/-- `while (k << 1 < n) k <<= 1`, from a value of `k` to the one it leaves. -/
def SplitLoop (n : Nat) : BitVec 32 → BitVec 32 → Prop :=
  WhileLoop (fun k => (k <<< 1).toInt < n) (fun k => k <<< 1)

/-- What is returned is what the loop leaves. -/
theorem splitLoop_of_doubleBelow {n fuel : Nat} {k : BitVec 32} {m : Nat}
    (h : doubleBelow n fuel k = .ok m) : ∃ w, SplitLoop n k w ∧ w.toNat = m := by
  induction fuel generalizing k with
  | zero => cases h
  | succ fuel ih =>
    rw [doubleBelow] at h
    by_cases hguard : (k <<< 1).toInt < n
    · rw [if_pos hguard] at h
      obtain ⟨w, hw, hm⟩ := ih h
      exact ⟨w, .again hguard hw, hm⟩
    · rw [if_neg hguard] at h
      cases h
      exact ⟨k, .exit hguard, rfl⟩

/-- Above the bound the loop shifts its bit out and goes on at zero. -/
theorem not_splitLoop {n : Nat} (hmax : 2 ^ 30 < n) (w : BitVec 32) : ¬SplitLoop n 1 w := by
  apply WhileLoop.not_of_trap (I := fun k => ∃ i < 33, k = BitVec.ofNat 32 (2 ^ i))
  · rintro _ ⟨i, hi, rfl⟩
    have hle := (toInt_double_le i hi).1
    have hcast : (2 ^ 30 : Int) < n := by exact_mod_cast hmax
    omega
  · rintro _ ⟨i, hi, rfl⟩
    exact ⟨min (i + 1) 32, by omega, (toInt_double_le i hi).2⟩
  · exact ⟨0, by omega, rfl⟩

theorem largestPowerOfTwoBelow_of_lt {n : Nat} (hmax : 2 ^ 30 < n) :
    ∃ e, largestPowerOfTwoBelow n = .error e := by
  cases h : largestPowerOfTwoBelow n with
  | error e => exact ⟨e, rfl⟩
  | ok m =>
    obtain ⟨w, hw, _⟩ := splitLoop_of_doubleBelow h
    exact absurd hw (not_splitLoop hmax w)

/-- A tree whose hash was computed is within the bound. -/
theorem length_le_of_merkleRoot {l : List Bytes} {hash : Bytes}
    (h : merkleRoot H l = .ok hash) : l.length ≤ 2 ^ 30 := by
  by_contra hmax
  obtain ⟨e, hsplit⟩ := largestPowerOfTwoBelow_of_lt (n := l.length) (by omega)
  have hdepth : ∃ depth, l.length = depth + 1 := ⟨l.length - 1, by omega⟩
  obtain ⟨depth, hdepth⟩ := hdepth
  rw [merkleRoot, hdepth, merkleRootWithin, if_neg (by omega), if_neg (by omega), hsplit] at h
  cases h

private theorem inclusionProofWithin_eq {depth : Nat} {l : List Bytes} (hdepth : l.length ≤ depth)
    (hmax : l.length ≤ 2 ^ 30) {i : Nat} (hi : i < l.length) :
    inclusionProofWithin H depth l i = .ok (auditPath (nodeHash H) (emptyRoot H) l i) := by
  induction depth generalizing l i with
  | zero => omega
  | succ depth ih =>
    rw [inclusionProofWithin, if_neg (by omega), auditPath]
    by_cases hone : l.length = 1
    · rw [if_pos hone, dif_neg (by omega)]
    · have hlt := split_lt (n := l.length) (by omega)
      have hpos := split_pos l.length
      have htake : (l.take (split l.length)).length = split l.length := by
        rw [List.length_take, Nat.min_eq_left hlt.le]
      have hdrop : (l.drop (split l.length)).length = l.length - split l.length :=
        List.length_drop
      rw [if_neg hone, dif_pos (by omega), largestPowerOfTwoBelow_eq (by omega) hmax, ok_bind]
      by_cases hleft : i < split l.length
      · have hbelow := ih (l := l.take (split l.length)) (i := i) (by omega) (by omega) (by omega)
        have hsibling := merkleRoot_eq (H := H) (l := l.drop (split l.length)) (by omega)
        rw [if_pos (by omega), if_pos hleft, hbelow, hsibling]
        rfl
      · have hbelow := ih (l := l.drop (split l.length)) (i := i - split l.length) (by omega)
          (by omega) (by omega)
        have hsibling := merkleRoot_eq (H := H) (l := l.take (split l.length)) (by omega)
        have hindex : (i : Int) - (split l.length : Nat) = ((i - split l.length : Nat) : Int) := by
          omega
        rw [if_neg (by omega), if_neg hleft, hindex, hbelow, hsibling]
        rfl

/-- Up to the bound, the inclusion proof of an index is its audit path. -/
theorem inclusionProof_eq {l : List Bytes} (hmax : l.length ≤ 2 ^ 30) {i : Nat}
    (hi : i < l.length) :
    inclusionProof H l i = .ok (auditPath (nodeHash H) (emptyRoot H) l i) :=
  inclusionProofWithin_eq le_rfl hmax hi

/-- An index outside a tree has no inclusion proof. -/
theorem inclusionProof_eq_error {l : List Bytes} {m : Int} (h : m < 0 ∨ m ≥ l.length) :
    inclusionProof H l m = .error (indexOutOfRange m l.length) := by
  rw [inclusionProof]
  cases hdepth : l.length with
  | zero => rw [inclusionProofWithin, hdepth]
  | succ n => rw [inclusionProofWithin, if_pos h, hdepth]

/-- What a consistency proof lists: the subtree at the seam, unless the older tree is that
subtree, and the siblings from there. -/
private theorem subproof_eq {depth : Nat} {l : List Bytes} (hdepth : l.length ≤ depth)
    (hmax : l.length ≤ 2 ^ 30) {m : Nat} (hpos : 0 < m) (hm : m ≤ l.length) (b : Bool) :
    subproof H depth m l b =
      .ok ((if b = true ∧ ∀ side ∈ seamTurns m l.length, side = .left then []
          else [seamNode (nodeHash H) (emptyRoot H) l m]) ++
        seamPath (nodeHash H) (emptyRoot H) l m) := by
  induction depth generalizing l m b with
  | zero => omega
  | succ depth ih =>
    rw [subproof, seamNode, seamPath]
    by_cases hself : m = l.length
    · subst hself
      rw [if_pos rfl, dif_neg (by omega), dif_neg (by omega), seamTurns_self, merkleRoot_eq hmax]
      cases b
      · simp
      · simp
    · have hlt := split_lt (n := l.length) (by omega)
      have hspos := split_pos l.length
      have htake : (l.take (split l.length)).length = split l.length := by
        rw [List.length_take, Nat.min_eq_left hlt.le]
      have hdrop : (l.drop (split l.length)).length = l.length - split l.length :=
        List.length_drop
      rw [if_neg hself, dif_pos (by omega), dif_pos (by omega),
        largestPowerOfTwoBelow_eq (by omega) hmax, ok_bind]
      by_cases hleft : m ≤ split l.length
      · have hbelow := ih (l := l.take (split l.length)) (by omega) (by omega) hpos (by omega) b
        have hsibling := merkleRoot_eq (H := H) (l := l.drop (split l.length)) (by omega)
        have hturns := seamTurns_of_le_split (m := m) (n := l.length) (by omega) (by omega) hleft
        rw [if_pos hleft, if_pos hleft, if_pos hleft, hbelow, hsibling, htake, hturns]
        simp [ok_bind, or_imp]
      · rw [Nat.not_le] at hleft
        have hbelow := ih (l := l.drop (split l.length)) (by omega) (by omega)
          (Nat.sub_pos_of_lt hleft) (by omega) false
        have hsibling := merkleRoot_eq (H := H) (l := l.take (split l.length)) (by omega)
        have hturns := seamTurns_of_split_lt (m := m) (n := l.length) (by omega) hleft
        have hright : ¬(b = true ∧ ∀ side ∈ seamTurns m l.length, side = .left) := by
          rw [hturns]
          intro h
          cases h.2 .right (by simp)
        rw [if_neg (Nat.not_le.mpr hleft), if_neg (Nat.not_le.mpr hleft),
          if_neg (Nat.not_le.mpr hleft), if_neg hright, hbelow, hsibling]
        simp [ok_bind]

/-! ## The verifiers climb trees -/

private theorem ascend_of_odd {fn : Nat} (h : fn % 2 = 1) (sn : Nat) : ascend fn sn = (fn, sn) := by
  rw [ascend, dif_neg (by omega)]

/-- On the right edge the climb ascends to the next right child. -/
private theorem ascend_self {fn : Nat} (h : fn ≠ 0) :
    ∃ f, ascend fn fn = (f, f) ∧ f % 2 = 1 ∧ turns fn (fn + 1) = turns f (f + 1) := by
  induction fn using Nat.strong_induction_on with
  | _ fn ih =>
    by_cases hodd : fn % 2 = 1
    · exact ⟨fn, ascend_of_odd hodd fn, hodd, rfl⟩
    · obtain ⟨f, hf, hfodd, hturns⟩ := ih (fn / 2) (by omega) (by omega)
      have hhalf : (fn + 1 + 1) / 2 = fn / 2 + 1 := by omega
      refine ⟨f, ?_, hfodd, ?_⟩
      · rw [ascend, dif_pos (by omega), hf]
      · rw [turns_eq (by omega) (by omega), if_neg hodd, if_neg (by omega), hhalf, hturns]
        rfl

private theorem turns_of_odd {fn sn : Nat} (hle : fn ≤ sn) (hodd : fn % 2 = 1) :
    turns fn (sn + 1) = .right :: turns (fn / 2) (sn / 2 + 1) := by
  have hhalf : (sn + 1 + 1) / 2 = sn / 2 + 1 := by omega
  rw [turns_eq (by omega) (by omega), if_pos hodd, hhalf]
  rfl

/-- An odd node and the last node of its level are joined from the right, after an ascent. -/
private theorem turns_ascend {fn sn : Nat} (hle : fn ≤ sn) (hsn : sn ≠ 0)
    (h : fn % 2 = 1 ∨ fn = sn) :
    turns fn (sn + 1) = .right :: turns ((ascend fn sn).1 / 2) ((ascend fn sn).2 / 2 + 1) ∧
      (ascend fn sn).1 / 2 ≤ (ascend fn sn).2 / 2 := by
  rcases h with hodd | rfl
  · rw [ascend_of_odd hodd]
    exact ⟨turns_of_odd hle hodd, Nat.div_le_div_right hle⟩
  · obtain ⟨f, hf, hodd, hturns⟩ := ascend_self hsn
    rw [hf, hturns]
    exact ⟨turns_of_odd le_rfl hodd, le_rfl⟩

/-- Any other node is joined from the left. -/
private theorem turns_of_even {fn sn : Nat} (hle : fn ≤ sn) (h : ¬(fn % 2 = 1 ∨ fn = sn)) :
    turns fn (sn + 1) = .left :: turns (fn / 2) (sn / 2 + 1) := by
  have hhalf : (sn + 1 + 1) / 2 = sn / 2 + 1 := by omega
  rw [turns_eq (by omega) (by omega), if_neg (by omega), if_pos (by omega), hhalf]
  rfl

/-- The loop over an audit path climbs the turns of its index, and no path of another length
gets to the end. -/
private theorem climbPath_eq_ok {hash x : Bytes} {fn sn : Nat} (hle : fn ≤ sn) {path : List Bytes} :
    climbPath H hash fn sn path = .ok x ↔ path.length = (turns fn (sn + 1)).length ∧
      climb (nodeHash H) hash ((turns fn (sn + 1)).zip path) = x := by
  induction path generalizing hash fn sn with
  | nil =>
    rw [climbPath]
    by_cases hsn : sn = 0
    · simp [hsn]
    · rw [if_pos hsn]
      by_cases h : fn % 2 = 1 ∨ fn = sn
      · simp [(turns_ascend hle hsn h).1]
      · simp [turns_of_even hle h]
  | cons sibling path ih =>
    rw [climbPath]
    by_cases hsn : sn = 0
    · simp [hsn]
    · rw [if_neg hsn]
      by_cases h : fn % 2 = 1 ∨ fn = sn
      · have hup : (if fn % 2 = 0 then ascend fn sn else (fn, sn)) = ascend fn sn := by
          split_ifs with heven
          · rfl
          · rw [ascend_of_odd (by omega)]
        obtain ⟨hturns, hnext⟩ := turns_ascend hle hsn h
        rw [if_pos h, hup, ih hnext, hturns, List.length_cons, List.length_cons,
          Nat.add_right_cancel_iff, List.zip_cons_cons, climb_cons]
        rfl
      · rw [if_neg h, ih (Nat.div_le_div_right hle), turns_of_even hle h, List.length_cons,
          List.length_cons, Nat.add_right_cancel_iff, List.zip_cons_cons, climb_cons]
        rfl

/-- An audit path is accepted where it climbs the turns of an index of the tree to the root. -/
theorem verifyInclusion_eq_true {hash expected : Bytes} {i : Int} {n : Nat} {path : List Bytes} :
    verifyInclusion H hash i n path expected = true ↔
      0 ≤ i ∧ i < n ∧ path.length = (turns i.toNat n).length ∧
        climb (nodeHash H) hash ((turns i.toNat n).zip path) = expected := by
  have hloop : verifyInclusion H hash i n path expected = true ↔
      rootFromInclusionProof H hash i n path = .ok expected := by
    rw [verifyInclusion]
    split
    · rename_i h
      simp [h]
    · rename_i h
      rw [h, bytesEqual_iff, Except.ok.injEq]
  rw [hloop, rootFromInclusionProof]
  by_cases hrange : i < 0 ∨ i ≥ n
  · rw [if_pos hrange]
    refine ⟨nofun, fun h => ?_⟩
    omega
  · have hsize : n - 1 + 1 = n := by omega
    rw [if_neg hrange, climbPath_eq_ok (by omega), hsize]
    refine ⟨fun h => ⟨by omega, by omega, h⟩, fun h => h.2.2⟩

/-- The loop over a consistency proof climbs to both heads at once. -/
private theorem climbBoth_eq_some {fr sr x y : Bytes} {fn sn : Nat} (hle : fn ≤ sn)
    (path : List Bytes) :
    climbBoth H fr sr fn sn path = some (x, y, []) ↔
      path.length = (turns fn (sn + 1)).length ∧
        climb (nodeHash H) fr (older ((turns fn (sn + 1)).zip path)) = x ∧
        climb (nodeHash H) sr ((turns fn (sn + 1)).zip path) = y := by
  induction path generalizing fr sr fn sn with
  | nil =>
    rw [climbBoth]
    by_cases hsn : sn = 0
    · simp [hsn]
    · rw [if_neg hsn]
      by_cases h : fn % 2 = 1 ∨ fn = sn
      · simp [(turns_ascend hle hsn h).1]
      · simp [turns_of_even hle h]
  | cons c path ih =>
    rw [climbBoth]
    by_cases hsn : sn = 0
    · simp [hsn]
    · rw [if_neg hsn]
      by_cases h : fn % 2 = 1 ∨ fn = sn
      · obtain ⟨hturns, hnext⟩ := turns_ascend hle hsn h
        rw [if_pos h, ih hnext, hturns, List.length_cons, List.length_cons,
          Nat.add_right_cancel_iff, List.zip_cons_cons, older_cons_right, climb_cons, climb_cons]
        rfl
      · rw [if_neg h, ih (Nat.div_le_div_right hle), turns_of_even hle h, List.length_cons,
          List.length_cons, Nat.add_right_cancel_iff, List.zip_cons_cons, older_cons_left,
          climb_cons]
        rfl

/-- From the last older leaf, the ascent past the odd levels reaches the seam. -/
private theorem ascendOdd_eq {m n : Nat} (hpos : 0 < m) (h : m < n) :
    (ascendOdd (m - 1) (n - 1)).1 ≤ (ascendOdd (m - 1) (n - 1)).2 ∧
      turns (ascendOdd (m - 1) (n - 1)).1 ((ascendOdd (m - 1) (n - 1)).2 + 1) =
        seamTurns m n := by
  induction m using Nat.strong_induction_on generalizing n with
  | _ m ih =>
    by_cases hodd : m % 2 = 1
    · have hsize : n - 1 + 1 = n := by omega
      rw [ascendOdd, dif_neg (by omega), seamTurns_of_odd h hodd, hsize]
      exact ⟨by omega, rfl⟩
    · have hnext := ih (m / 2) (by omega) (n := (n + 1) / 2) (by omega) (by omega)
      have hm : (m - 1) / 2 = m / 2 - 1 := by omega
      have hn : (n - 1) / 2 = (n + 1) / 2 - 1 := by omega
      rw [ascendOdd, dif_pos (by omega), hm, hn, seamTurns_of_even h hpos (by omega)]
      exact hnext

/-- What a proof gives the verifier to climb: the node it starts from and the siblings. -/
def climbed (m : Nat) (firstRoot : Bytes) (proof : List Bytes) : List Bytes :=
  if isPowerOfTwo m then firstRoot :: proof else proof

/-- A proof of a proper extension is accepted where one climb along the seam reaches both
roots. -/
theorem verifyConsistency_eq_true {m n : Nat} (hpos : 0 < m) (h : m < n)
    {firstRoot secondRoot : Bytes} {proof : List Bytes} :
    verifyConsistency H m n firstRoot secondRoot proof = true ↔
      ∃ start path, climbed m firstRoot proof = start :: path ∧
        path.length = (seamTurns m n).length ∧
        climb (nodeHash H) start (older ((seamTurns m n).zip path)) = firstRoot ∧
        climb (nodeHash H) start ((seamTurns m n).zip path) = secondRoot := by
  obtain ⟨hle, hturns⟩ := ascendOdd_eq hpos h
  rw [verifyConsistency, if_neg (by omega), if_neg (by omega), if_neg (by omega), climbed]
  cases hpath : if isPowerOfTwo m then firstRoot :: proof else proof with
  | nil => simp
  | cons start path =>
    have hloop := fun x y => @climbBoth_eq_some H start start x y _ _ hle path
    rw [hturns] at hloop
    constructor
    · intro hok
      refine ⟨start, path, rfl, (hloop firstRoot secondRoot).mp ?_⟩
      revert hok
      dsimp only
      split
      · exact nofun
      · rename_i fr sr rest hboth
        intro hok
        simp only [Bool.and_eq_true, decide_eq_true_eq, bytesEqual_iff] at hok
        obtain ⟨⟨rfl, rfl⟩, rfl⟩ := hok
        exact hboth
    · rintro ⟨_, _, ⟨⟩, hclimb⟩
      dsimp only
      rw [(hloop firstRoot secondRoot).mpr hclimb]
      simp [bytesEqual_iff]

/-- The audit path of a leaf leads to the head. -/
theorem verifyInclusion_auditPath {l : List Bytes} {i : Nat} {hash : Bytes}
    (h : l[i]? = some hash) :
    verifyInclusion H hash i l.length (auditPath (nodeHash H) (emptyRoot H) l i)
      (root (nodeHash H) (emptyRoot H) l) = true := by
  rw [verifyInclusion_eq_true]
  have hlt := (List.getElem?_eq_some_iff.mp h).1
  exact ⟨by omega, by exact_mod_cast hlt, length_auditPath, climb_auditPath h⟩

/-- The test for a power of two sees the low 32 bits only. -/
theorem isPowerOfTwo_iff_low {m : Nat} (hpos : 0 < m) :
    isPowerOfTwo m = true ↔ m % 2 ^ 32 = 0 ∨ (m % 2 ^ 32).isPowerOfTwo := by
  rw [isPowerOfTwo, Bool.and_eq_true, decide_eq_true_eq, beq_iff_eq, ← BitVec.toNat_inj,
    BitVec.toNat_and, BitVec.toNat_ofNat, BitVec.toNat_ofNat, and_iff_right hpos]
  by_cases hlow : m % 2 ^ 32 = 0
  · rw [hlow]
    exact iff_of_true (Nat.zero_and _) (.inl rfl)
  · have hpred : (m - 1) % 2 ^ 32 = m % 2 ^ 32 - 1 := by omega
    rw [hpred, or_iff_right hlow]
    exact Nat.and_sub_one_eq_zero_iff_isPowerOfTwo hlow

private theorem isPowerOfTwo_iff {m : Nat} (hpos : 0 < m) (hmax : m ≤ 2 ^ 30) :
    isPowerOfTwo m = true ↔ m.isPowerOfTwo := by
  have hm : m % 2 ^ 32 = m := Nat.mod_eq_of_lt (by omega)
  rw [isPowerOfTwo_iff_low hpos, hm]
  exact or_iff_right (by omega)

/-- The siblings of a climb that never turns right reach nothing new among the older leaves. -/
private theorem older_eq_nil {ts : List Side} (h : ∀ side ∈ ts, side = .left)
    (path : List Bytes) : MerkleTree.older (ts.zip path) = [] := by
  rw [MerkleTree.older, List.filter_eq_nil_iff]
  rintro ⟨side, sibling⟩ hmem
  rw [h side (List.of_mem_zip hmem).1]
  simp

/-- A tree has a consistency proof for every size up to its own, all of it nodes of the tree,
and it leads from the older head to the newer. -/
theorem exists_consistencyProof {l : List Bytes} (hmax : l.length ≤ 2 ^ 30) {m : Nat}
    (hm : m ≤ l.length) :
    ∃ proof, consistencyProof H l m = .ok proof ∧
      (∀ a ∈ proof, a = seamNode (nodeHash H) (emptyRoot H) l m ∨
        a ∈ seamPath (nodeHash H) (emptyRoot H) l m) ∧
      verifyConsistency H m l.length (root (nodeHash H) (emptyRoot H) (l.take m))
        (root (nodeHash H) (emptyRoot H) l) proof = true := by
  rw [consistencyProof, if_neg (by omega)]
  rcases Nat.eq_zero_or_pos m with rfl | hpos
  · exact ⟨[], if_pos (.inl rfl), by simp, by rw [verifyConsistency, if_pos rfl]⟩
  rcases Nat.lt_or_eq_of_le hm with hlt | rfl
  · rw [if_neg (by omega), Int.toNat_natCast, subproof_eq le_rfl hmax hpos hm]
    refine ⟨_, rfl, ?_, ?_⟩
    · intro a ha
      rcases List.mem_append.mp ha with ha | ha
      · split at ha
        · exact absurd ha List.not_mem_nil
        · exact .inl (List.mem_singleton.mp ha)
      · exact .inr ha
    rw [verifyConsistency_eq_true hpos hlt]
    have hclimb : climb (nodeHash H) (seamNode (nodeHash H) (emptyRoot H) l m) _ = _ ∧ _ :=
      climb_seamPath hpos hm
    obtain ⟨hboth, hall⟩ := hclimb
    refine ⟨_, _, ?_, length_seamPath, hboth, hall⟩
    by_cases htwo : isPowerOfTwo m = true
    · -- The verifier puts the first root where the generator left the subtree out.
      have hleft := (seamTurns_left_iff hpos hlt).mpr
        ((isPowerOfTwo_iff hpos (by omega)).mp htwo)
      rw [older_eq_nil hleft, climb_nil] at hboth
      rw [climbed, if_pos htwo, if_pos ⟨rfl, hleft⟩, List.nil_append, hboth]
    · have hleft : ¬(true = true ∧ ∀ side ∈ seamTurns m l.length, side = .left) := fun h =>
        htwo ((isPowerOfTwo_iff hpos (by omega)).mpr ((seamTurns_left_iff hpos hlt).mp h.2))
      rw [climbed, if_neg htwo, if_neg hleft, List.singleton_append]
  · rw [List.take_length]
    refine ⟨[], if_pos (.inr rfl), by simp, ?_⟩
    rw [verifyConsistency, if_neg (by omega), if_pos rfl]
    simp [bytesEqual_iff]

end CoolSdk
