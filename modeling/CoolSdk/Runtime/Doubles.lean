import CoolSdk.Runtime.Number
import Mathlib.Algebra.Order.Field.Power
import Mathlib.Algebra.Order.Field.Rat
import Mathlib.Data.Nat.Prime.Basic
import Mathlib.Data.Rat.Floor
import Mathlib.Data.Rat.Lemmas
import Mathlib.Tactic.FieldSimp
import Mathlib.Tactic.Positivity
import Mathlib.Tactic.Ring

/-!
# Natural numbers that are doubles

A natural number is a double where rounding leaves it. Below a power of two such a number keeps
its low digits, so that a sum of digits from the lowest one up is exact at every step.
-/

namespace CoolSdk.JsNumber

/-- A natural number that rounding leaves as it is. -/
def IsDouble (n : Nat) : Prop := nearestDouble n = n

instance (n : Nat) : Decidable (IsDouble n) := inferInstanceAs (Decidable (_ = _))

variable {n k : Nat}

theorem isDouble_of_lt (h : n < 2 ^ 53) : IsDouble n := nearestDouble_of_lt h

/-- The doubles of a number's size are the multiples of the last place. -/
theorem isDouble_iff : IsDouble n ↔ 2 ^ (n.log2 + 1 - 53) ∣ n := by
  rw [IsDouble, nearestDouble]
  generalize 2 ^ (n.log2 + 1 - 53) = unit
  constructor
  · intro h
    rw [← h]
    split_ifs <;> exact Nat.dvd_mul_left _ _
  · intro h
    have hrest : n % unit = 0 := Nat.mod_eq_zero_of_dvd h
    have hdown : ¬(unit < 2 * (n % unit) ∨ unit = 2 * (n % unit) ∧ n / unit % 2 = 1) := by
      rw [hrest]
      rintro (hlt | ⟨hunit, hodd⟩)
      · omega
      · rw [hunit, Nat.mul_zero, Nat.div_zero] at hodd
        omega
    rw [if_neg hdown, Nat.div_mul_cancel h]

theorem log2_mono {m : Nat} (h : m ≤ n) : m.log2 ≤ n.log2 := by
  by_cases hm : m = 0
  · rw [hm]
    exact Nat.zero_le _
  · exact (Nat.le_log2 (by omega)).mpr ((Nat.log2_self_le hm).trans h)

/-- The low digits of a double are a double. -/
theorem IsDouble.mod (h : IsDouble n) (k : Nat) : IsDouble (n % 2 ^ k) := by
  rw [isDouble_iff] at h ⊢
  have hle := log2_mono (Nat.mod_le n (2 ^ k))
  by_cases hzero : n % 2 ^ k = 0
  · rw [hzero]
    exact dvd_zero _
  · have hlog : (n % 2 ^ k).log2 < k :=
      (Nat.log2_lt hzero).mpr (Nat.mod_lt n (Nat.two_pow_pos k))
    apply (Nat.dvd_mod_iff (Nat.pow_dvd_pow 2 (by omega))).mpr
    exact (Nat.pow_dvd_pow 2 (by omega)).trans h

/-- Rounding gives a double. -/
theorem isDouble_nearestDouble (n : Nat) : IsDouble (nearestDouble n) := by
  have hmultiple : ∃ c ≤ 2 ^ 53, nearestDouble n = c * 2 ^ (n.log2 + 1 - 53) := by
    have hquot : n / 2 ^ (n.log2 + 1 - 53) < 2 ^ 53 := by
      rw [Nat.div_lt_iff_lt_mul (Nat.two_pow_pos _), ← Nat.pow_add]
      by_cases hn : n = 0
      · rw [hn]
        exact Nat.two_pow_pos _
      · exact (Nat.log2_lt hn).mp (by omega)
    rw [nearestDouble]
    split_ifs
    · exact ⟨_, hquot, rfl⟩
    · exact ⟨_, hquot.le, rfl⟩
  obtain ⟨c, hc, hround⟩ := hmultiple
  generalize n.log2 + 1 - 53 = e at hround
  rw [hround, isDouble_iff]
  rcases hc.lt_or_eq with hlt | rfl
  · by_cases hzero : c * 2 ^ e = 0
    · rw [hzero]
      exact dvd_zero _
    · have hbound : c * 2 ^ e < 2 ^ (53 + e) := by
        rw [Nat.pow_add]
        exact Nat.mul_lt_mul_of_pos_right hlt (Nat.two_pow_pos e)
      have hlog := (Nat.log2_lt hzero).mpr hbound
      exact (Nat.pow_dvd_pow 2 (by omega)).trans (Nat.dvd_mul_left _ _)
  · rw [← Nat.pow_add, Nat.log2_two_pow]
    exact Nat.pow_dvd_pow 2 (by omega)

/-! ## Rounded arithmetic -/

/-- The exponent of the largest power of two that is at most the size of a number. -/
def binade (q : ℚ) : Int :=
  let up := q.num.natAbs.log2
  let down := q.den.log2
  if 2 ^ up * q.den ≤ q.num.natAbs * 2 ^ down then (up : Int) - down else (up : Int) - down - 1

/-- The double nearest to a number, ties to even. -/
def round (q : ℚ) : JsNumber :=
  let exponent := Max.max (binade q - 52) (-1074)
  let unit : ℚ := ((2 ^ exponent.toNat : Nat) : ℚ) / ((2 ^ (-exponent).toNat : Nat) : ℚ)
  let down := (q / unit).floor
  let rest := q / unit - down
  let places := if 1 / 2 < rest ∨ rest = 1 / 2 ∧ down % 2 = 1 then down + 1 else down
  if places = 0 then (if q < 0 then negZero else finite 0)
  else if ((2 ^ 1024 : Nat) : ℚ) ≤ |places * unit| then (if q < 0 then negInfinity else infinity)
  else finite (places * unit)

/-- The operator `a + b`, rounded. -/
def addRounded (a b : JsNumber) : JsNumber :=
  match a, b with
  | finite x, finite y => if x + y = 0 then finite 0 else round (x + y)
  | _, _ => a.add b

/-- The operator `a - b`, rounded. -/
def subRounded (a b : JsNumber) : JsNumber := a.addRounded b.neg

/-- The operator `a * 1000`. -/
def thousandfold : JsNumber → JsNumber
  | finite q => if q = 0 then finite 0 else round (q * 1000)
  | a => a

example : (ofInt 1700000000).thousandfold = ofInt 1700000000000 := by decide +kernel

/-! ## Halving -/

theorem log2_mul_two_pow {m : Nat} (hm : m ≠ 0) (k : Nat) : (m * 2 ^ k).log2 = m.log2 + k := by
  have hpos : m * 2 ^ k ≠ 0 := Nat.mul_ne_zero hm (Nat.two_pow_pos k).ne'
  apply (Nat.log2_eq_iff hpos).mpr
  have hlow := Nat.log2_self_le hm
  have hhigh : m < 2 ^ (m.log2 + 1) := Nat.lt_log2_self
  constructor
  · rw [Nat.pow_add]
    exact Nat.mul_le_mul_right _ hlow
  · rw [Nat.add_right_comm, Nat.pow_add]
    exact Nat.mul_lt_mul_of_pos_right hhigh (Nat.two_pow_pos k)

/-- A number of halvings lowers the exponent by as many. -/
theorem binade_halved {m : Nat} (hm : m ≠ 0) (j : Nat) :
    binade ((m : ℚ) / 2 ^ j) = (m.log2 : Int) - j := by
  have hcast : ((m : ℚ) / 2 ^ j) = ((m : Int) : ℚ) / ((2 ^ j : Int) : ℚ) := by push_cast; rfl
  have hdvd : ((m : ℚ) / 2 ^ j).den ∣ 2 ^ j := by
    rw [hcast, ← Rat.divInt_eq_div]
    exact_mod_cast Rat.den_dvd (m : Int) (2 ^ j)
  obtain ⟨i, hi, hden⟩ := (Nat.dvd_prime_pow Nat.prime_two).mp hdvd
  have hnum : ((m : ℚ) / 2 ^ j).num = (((m : ℚ) / 2 ^ j).num.natAbs : Int) := by
    have hnonneg : 0 ≤ ((m : ℚ) / 2 ^ j).num := Rat.num_nonneg.mpr (by positivity)
    omega
  have hcross : ((m : ℚ) / 2 ^ j).num.natAbs * 2 ^ j = m * 2 ^ i := by
    have hq := Rat.num_div_den ((m : ℚ) / 2 ^ j)
    rw [hden, hnum] at hq
    rw [div_eq_div_iff (by positivity) (by positivity)] at hq
    exact_mod_cast hq
  have hpos : ((m : ℚ) / 2 ^ j).num.natAbs ≠ 0 := by
    intro hzero
    rw [hzero, Nat.zero_mul] at hcross
    exact Nat.mul_ne_zero hm (Nat.two_pow_pos i).ne' hcross.symm
  have hlog := congrArg Nat.log2 hcross
  rw [log2_mul_two_pow hpos, log2_mul_two_pow hm] at hlog
  rw [binade, hden, Nat.log2_two_pow, if_pos (Nat.mul_le_mul_right _ (Nat.log2_self_le hpos))]
  omega

/-- A number that is a multiple of its last place is a double. -/
theorem round_of_places {q : ℚ} {e c : Nat} (hplace : Max.max (binade q - 52) (-1074) = -(e : Int))
    (hc : q * 2 ^ e = c) (hbound : |q| < ((2 ^ 1024 : Nat) : ℚ)) : round q = finite q := by
  have hunit : ((2 ^ (-(e : Int)).toNat : Nat) : ℚ) / ((2 ^ (-(-(e : Int))).toNat : Nat) : ℚ) =
      1 / 2 ^ e := by
    rw [Int.toNat_neg_natCast, neg_neg, Int.toNat_natCast]
    push_cast
    rfl
  have hquot : q / (1 / 2 ^ e) = ((c : Int) : ℚ) := by
    rw [div_div_eq_mul_div, div_one, hc]
    rfl
  have hback : ((c : Int) : ℚ) * (1 / 2 ^ e) = q := by
    rw [← hquot, div_mul_cancel₀]
    positivity
  simp only [round, hplace, hunit, hquot, Rat.floor_intCast, sub_self]
  have hdown : ¬((1 / 2 : ℚ) < 0 ∨ (0 : ℚ) = 1 / 2 ∧ (c : Int) % 2 = 1) := by
    norm_num
  rw [if_neg hdown, hback, if_neg (not_le.mpr hbound)]
  by_cases hzero : (c : Int) = 0
  · have hq : q = 0 := by
      rw [← hback, hzero]
      simp
    rw [if_pos hzero, hq]
    rfl
  · rw [if_neg hzero]

/-- Halving a number that fits the significand is exact. -/
theorem round_halved {m j : Nat} (hm : m < 2 ^ 53) (hj : j ≤ 1000) :
    round ((m : ℚ) / 2 ^ j) = finite ((m : ℚ) / 2 ^ j) := by
  have hbound : |(m : ℚ) / 2 ^ j| < ((2 ^ 1024 : Nat) : ℚ) := by
    have hpow : (1 : ℚ) ≤ 2 ^ j := one_le_pow₀ (by norm_num)
    rw [abs_of_nonneg (by positivity)]
    apply (div_le_self (Nat.cast_nonneg m) hpow).trans_lt
    rw [Nat.cast_lt]
    have hrange := pow_le_pow_right₀ (show 1 ≤ 2 by decide) (show 53 ≤ 1024 by decide)
    exact hm.trans_le hrange
  by_cases hzero : m = 0
  · subst hzero
    rw [Nat.cast_zero, zero_div] at hbound ⊢
    exact round_of_places (e := 53) (c := 0) (by decide +kernel) (by simp) hbound
  have hlog : m.log2 < 53 := (Nat.log2_lt hzero).mpr hm
  apply round_of_places (e := j + (52 - m.log2)) (c := m * 2 ^ (52 - m.log2)) ?_ ?_ hbound
  · rw [binade_halved hzero]
    omega
  · push_cast
    rw [pow_add]
    field_simp

/-- `Math.floor(a / 2 ** j)`. -/
def floorHalved (a j : Nat) : Nat :=
  match round ((a : ℚ) / 2 ^ j) with
  | finite q => q.floor.toNat
  | _ => 0

theorem floorHalved_eq {a j : Nat} (ha : a < 2 ^ 53) (hj : j ≤ 1000) :
    floorHalved a j = a / 2 ^ j := by
  have hfloor : ((a : ℚ) / 2 ^ j).floor = ((a / 2 ^ j : Nat) : Int) := by
    have hdiv := Rat.floor_natCast_div_natCast a (2 ^ j)
    rw [Nat.cast_pow, Nat.cast_ofNat, ← Int.natCast_ediv] at hdiv
    exact hdiv
  rw [floorHalved, round_halved ha hj]
  dsimp only
  rw [hfloor, Int.toNat_natCast]

end CoolSdk.JsNumber
