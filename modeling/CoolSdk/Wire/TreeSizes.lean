import CoolSdk.Wire.Merkle
import Mathlib.Order.Bounds.Basic

/-!
# Sizes of trees

Sizes are safe integers, of which a receipt may state any, but the split of a size and the test
for a power of two shift and mask 32 bits. The loop of the split ends up to 2^30 and no further,
and is right there; the test sees the low 32 bits and is right wherever the others do not matter.
-/

namespace CoolSdk

open MerkleTree

/-- The split is the greatest power of two below the size. -/
theorem isGreatest_split {n : Nat} (h : 2 ≤ n) :
    IsGreatest {m : Nat | m.isPowerOfTwo ∧ m < n} (split n) := by
  constructor
  · exact ⟨⟨_, rfl⟩, split_lt h⟩
  · rintro _ ⟨⟨j, rfl⟩, hlt⟩
    have hlog : j ≤ Nat.log 2 (n - 1) := Nat.le_log_of_pow_le (by decide) (by omega)
    exact Nat.pow_le_pow_right (by decide) hlog

/-- The split is computed exactly where its loop ends, and it is what the loop leaves. -/
theorem largestPowerOfTwoBelow_eq_ok_iff {n k : Nat} :
    largestPowerOfTwoBelow n = .ok k ↔ ∃ w, SplitLoop n 1 w ∧ w.toNat = k := by
  constructor
  · exact splitLoop_of_doubleBelow
  · rintro ⟨w, hw, rfl⟩
    have hmax : n ≤ 2 ^ 30 := by
      by_contra hlt
      exact not_splitLoop (by omega) w hw
    have hok : ∃ m, largestPowerOfTwoBelow n = .ok m := by
      by_cases hn : 2 ≤ n
      · exact ⟨_, largestPowerOfTwoBelow_eq hn hmax⟩
      · refine ⟨1, ?_⟩
        rw [largestPowerOfTwoBelow, doubleBelow, if_neg]
        · rfl
        · have hone : ((1 : BitVec 32) <<< 1).toInt = 2 := rfl
          rw [hone]
          omega
    obtain ⟨m, hm⟩ := hok
    obtain ⟨w', hw', rfl⟩ := splitLoop_of_doubleBelow hm
    rw [hm, hw.unique hw']

/-- The low 32 bits of a power of two are zero or a power of two. -/
theorem low_of_isPowerOfTwo {n : Nat} (h : n.isPowerOfTwo) :
    n % 2 ^ 32 = 0 ∨ (n % 2 ^ 32).isPowerOfTwo := by
  obtain ⟨k, rfl⟩ := h
  rcases Nat.lt_or_ge k 32 with hk | hk
  · right
    rw [Nat.mod_eq_of_lt (Nat.pow_lt_pow_right (by decide) hk)]
    exact ⟨k, rfl⟩
  · left
    exact Nat.mod_eq_zero_of_dvd (Nat.pow_dvd_pow 2 hk)

/-- The test for a power of two is right exactly if the size is one, or its low 32 bits are
neither zero nor one. -/
theorem isPowerOfTwo_right_iff {n : Nat} (hpos : 0 < n) :
    (isPowerOfTwo n = true ↔ n.isPowerOfTwo) ↔
      n.isPowerOfTwo ∨ ¬(n % 2 ^ 32 = 0 ∨ (n % 2 ^ 32).isPowerOfTwo) := by
  rw [isPowerOfTwo_iff_low hpos]
  constructor
  · intro hright
    by_cases hpower : n.isPowerOfTwo
    · exact .inl hpower
    · exact .inr (mt hright.mp hpower)
  · rintro (hpower | hlow)
    · exact iff_of_true (low_of_isPowerOfTwo hpower) hpower
    · exact iff_of_false hlow (mt low_of_isPowerOfTwo hlow)

/-- What is asked of the arithmetic on a size. -/
structure SizeArithmetic (n : Nat) : Prop where
  /-- The loop ends, and what is returned is the greatest power of two strictly below. -/
  split : ∃ k, largestPowerOfTwoBelow n = .ok k ∧ IsGreatest {m : Nat | m.isPowerOfTwo ∧ m < n} k
  power : isPowerOfTwo n = true ↔ n.isPowerOfTwo

/-- The arithmetic on a size is right exactly up to 2^30. -/
theorem sizeArithmetic_iff {n : Nat} (h : 2 ≤ n) : SizeArithmetic n ↔ n ≤ 2 ^ 30 := by
  constructor
  · intro hexact
    by_contra hlt
    obtain ⟨k, hk, _⟩ := hexact.split
    obtain ⟨e, he⟩ := largestPowerOfTwoBelow_of_lt (n := n) (by omega)
    rw [he] at hk
    cases hk
  · intro hle
    refine ⟨⟨_, largestPowerOfTwoBelow_eq h hle, isGreatest_split h⟩, ?_⟩
    rw [isPowerOfTwo_right_iff (by omega), Nat.mod_eq_of_lt (by omega)]
    by_cases hpower : n.isPowerOfTwo
    · exact .inl hpower
    · exact .inr (not_or.mpr ⟨by omega, hpower⟩)

theorem sizeArithmetic_three : SizeArithmetic 3 ↔ 3 ≤ 2 ^ 30 :=
  sizeArithmetic_iff (by decide)

/-- Past 2^32 the split of a size does not return, and a size that is no power of two passes for
one. -/
theorem sizeArithmetic_wraps : 2 ≤ 2 ^ 32 + 1 ∧ 2 ^ 32 + 1 < 2 ^ 53 ∧
    (∀ w, ¬SplitLoop (2 ^ 32 + 1) 1 w) ∧
    largestPowerOfTwoBelow (2 ^ 32 + 1) = .error "largestPowerOfTwoBelow does not return" ∧
    isPowerOfTwo (2 ^ 32 + 1) = true ∧ ¬(2 ^ 32 + 1).isPowerOfTwo := by
  refine ⟨by decide, by decide, not_splitLoop (by decide), by rfl, by decide, by decide⟩

end CoolSdk
