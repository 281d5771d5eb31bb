import CoolSdk.Runtime.ReferenceHost
import CoolSdk.Wire.Merkle

/-!
# What the log's proofs prove

An audit path is accepted for exactly one leaf hash at an index, and only the generated path is.
A generated consistency proof is accepted for every two sizes of one log, and an accepted one
proves that the older log is where the newer one starts. No hash of byte strings is injective,
so soundness assumes that the node hash tells apart the pairs that are hashed: those of the
trees and those of the verifier.
-/

namespace CoolSdk

open MerkleTree

section

variable (H : Host)

/-- The pairs hashed by a tree and by the verifier of an audit path. -/
def inclusionPairs (leafHashes : List Bytes) (leafHashValue : Bytes) (leafIndex : Int)
    (auditPath : List Bytes) : List (Bytes × Bytes) :=
  joins (nodeHash H) (emptyRoot H) leafHashes ++
    climbs (nodeHash H) leafHashValue ((turns leafIndex.toNat leafHashes.length).zip auditPath)

/-- The pairs hashed by two trees and by the verifier of a consistency proof. -/
def consistencyPairs (older newer : List Bytes) (firstRoot : Bytes) (proof : List Bytes) :
    List (Bytes × Bytes) :=
  joins (nodeHash H) (emptyRoot H) older ++ joins (nodeHash H) (emptyRoot H) newer ++
    match climbed older.length firstRoot proof with
    | [] => []
    | start :: path =>
      climbs (nodeHash H) start
          (MerkleTree.older ((seamTurns older.length newer.length).zip path)) ++
        climbs (nodeHash H) start ((seamTurns older.length newer.length).zip path)

end

variable {H : Host}

/-- An audit path is accepted exactly for the leaf at its index, and only as it is generated. -/
theorem verifyInclusion_iff {L : List Bytes} (hmax : L.length ≤ 2 ^ 30) (hash : Bytes)
    (i : Int) (path : List Bytes)
    (hinj : Set.InjOn (Function.uncurry (nodeHash H)) {p | p ∈ inclusionPairs H L hash i path}) :
    ∃ root, merkleRoot H L = .ok root ∧
      (verifyInclusion H hash i L.length path root = true ↔
        0 ≤ i ∧ i < L.length ∧ L[i.toNat]? = some hash ∧ inclusionProof H L i = .ok path) := by
  refine ⟨_, merkleRoot_eq hmax, ?_⟩
  rw [verifyInclusion_eq_true]
  refine and_congr_right fun hnonneg => and_congr_right fun hlt => ?_
  obtain ⟨j, rfl⟩ := Int.eq_ofNat_of_zero_le hnonneg
  rw [Int.ofNat_lt] at hlt
  rw [Int.toNat_natCast, inclusionProof_eq hmax hlt, Except.ok.injEq]
  constructor
  · rintro ⟨hlength, hclimb⟩
    have hsound := climb_sound hlt hlength (hinj.mono fun p hp => List.mem_append.mpr hp) hclimb
    exact ⟨hsound.1, hsound.2.symm⟩
  · rintro ⟨hget, rfl⟩
    exact ⟨length_auditPath, climb_auditPath hget⟩

/-- Three leaf hashes. -/
def threeLeaves : List Bytes :=
  [leafHash Reference.host [1], leafHash Reference.host [2], leafHash Reference.host [3]]

theorem verifyInclusion_threeLeaves :
    ∃ root, merkleRoot Reference.host threeLeaves = .ok root ∧
      (verifyInclusion Reference.host (leafHash Reference.host [2]) 1 threeLeaves.length
          [leafHash Reference.host [1], leafHash Reference.host [3]] root = true ↔
        0 ≤ (1 : Int) ∧ 1 < (threeLeaves.length : Int) ∧
          threeLeaves[(1 : Int).toNat]? = some (leafHash Reference.host [2]) ∧
          inclusionProof Reference.host threeLeaves 1 =
            .ok [leafHash Reference.host [1], leafHash Reference.host [3]]) := by
  refine verifyInclusion_iff (by decide) _ 1 _ ?_
  have hpairs : ∀ p ∈ inclusionPairs Reference.host threeLeaves (leafHash Reference.host [2]) 1
      [leafHash Reference.host [1], leafHash Reference.host [3]],
      ∀ q ∈ inclusionPairs Reference.host threeLeaves (leafHash Reference.host [2]) 1
        [leafHash Reference.host [1], leafHash Reference.host [3]],
      Function.uncurry (nodeHash Reference.host) p = Function.uncurry (nodeHash Reference.host) q →
        p = q := by
    decide +kernel
  exact fun p hp q hq => hpairs p hp q hq

/-- A generated consistency proof is accepted. -/
theorem verifyConsistency_consistencyProof {L : List Bytes} (hmax : L.length ≤ 2 ^ 30) {m : Nat}
    (hm : m ≤ L.length) :
    ∃ first second proof, merkleRoot H (L.take m) = .ok first ∧ merkleRoot H L = .ok second ∧
      consistencyProof H L m = .ok proof ∧
      verifyConsistency H m L.length first second proof = true := by
  have hfirst := merkleRoot_eq (H := H) (l := L.take m) (by rw [List.length_take]; omega)
  obtain ⟨proof, hproof, _, hverify⟩ := exists_consistencyProof (H := H) hmax hm
  exact ⟨_, _, proof, hfirst, merkleRoot_eq hmax, hproof, hverify⟩

theorem verifyConsistency_consistencyProof_threeLeaves :
    ∃ first second proof, merkleRoot Reference.host (threeLeaves.take 2) = .ok first ∧
      merkleRoot Reference.host threeLeaves = .ok second ∧
      consistencyProof Reference.host threeLeaves (2 : Nat) = .ok proof ∧
      verifyConsistency Reference.host 2 threeLeaves.length first second proof = true :=
  verifyConsistency_consistencyProof (by decide) (by decide)

/-- An accepted consistency proof proves that the older log starts the newer one. -/
theorem verifyConsistency_sound {A B : List Bytes} (hpos : 0 < A.length)
    (hle : A.length ≤ B.length) (hmax : B.length ≤ 2 ^ 30) {first second : Bytes}
    (hfirst : merkleRoot H A = .ok first) (hsecond : merkleRoot H B = .ok second)
    {proof : List Bytes}
    (hinj : Set.InjOn (Function.uncurry (nodeHash H)) {p | p ∈ consistencyPairs H A B first proof})
    (h : verifyConsistency H A.length B.length first second proof = true) : A <+: B := by
  obtain rfl := Except.ok.inj ((merkleRoot_eq (hle.trans hmax)).symm.trans hfirst)
  obtain rfl := Except.ok.inj ((merkleRoot_eq hmax).symm.trans hsecond)
  have htrees : {p | p ∈ joins (nodeHash H) (emptyRoot H) A} ∪
      {p | p ∈ joins (nodeHash H) (emptyRoot H) B} ⊆
        {p | p ∈ consistencyPairs H A B (root (nodeHash H) (emptyRoot H) A) proof} :=
    fun p hp => List.mem_append_left _ (List.mem_append.mpr hp)
  rcases Nat.lt_or_eq_of_le hle with hlt | heq
  · rw [verifyConsistency_eq_true hpos hlt] at h
    obtain ⟨start, path, hclimbed, hlength, hbelow, habove⟩ := h
    have hstart := seam_sound hpos hle rfl hlength (hinj.mono (Set.union_subset htrees ?_)) hbelow
      habove
    · exact List.prefix_iff_eq_take.mpr hstart
    · intro p hp
      refine List.mem_append_right _ ?_
      rw [hclimbed]
      exact List.mem_append.mpr hp
  · rw [verifyConsistency, if_neg (by omega), if_pos heq, Bool.and_eq_true, bytesEqual_iff] at h
    exact root_inj heq (hinj.mono htrees) h.2 ▸ List.prefix_rfl

theorem verifyConsistency_sound_threeLeaves : threeLeaves.take 2 <+: threeLeaves := by
  have hfirst : merkleRoot Reference.host (threeLeaves.take 2) = .ok (nodeHash Reference.host
      (leafHash Reference.host [1]) (leafHash Reference.host [2])) := by
    decide +kernel
  have hsecond : merkleRoot Reference.host threeLeaves = .ok (nodeHash Reference.host
      (nodeHash Reference.host (leafHash Reference.host [1]) (leafHash Reference.host [2]))
      (leafHash Reference.host [3])) := by
    decide +kernel
  have hpairs : ∀ p ∈ consistencyPairs Reference.host (threeLeaves.take 2) threeLeaves
      (nodeHash Reference.host (leafHash Reference.host [1]) (leafHash Reference.host [2]))
      [leafHash Reference.host [3]],
      ∀ q ∈ consistencyPairs Reference.host (threeLeaves.take 2) threeLeaves
        (nodeHash Reference.host (leafHash Reference.host [1]) (leafHash Reference.host [2]))
        [leafHash Reference.host [3]],
      Function.uncurry (nodeHash Reference.host) p = Function.uncurry (nodeHash Reference.host) q →
        p = q := by
    decide +kernel
  refine verifyConsistency_sound (by decide) (by decide) (by decide) hfirst hsecond
    (fun p hp q hq => hpairs p hp q hq) ?_
  decide +kernel

end CoolSdk
